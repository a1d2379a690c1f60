import SoulSociety.Session.Provenance

/-! Properties of points, and of what an execution has asked for, and was answered by the verifier, when
    it stands at them. What the code keeps from point to point, and an abort too, holds of every
    execution in every state of a run, and of the record of a verified snapshot. -/

namespace SoulSociety.Session
open Lib Sdk

/-- What an execution asks for, and what the verifier answers it. -/
inductive Act where
  | asks (effect : Effect)
  | answered (proofBytes : ProofBytes) (programHash : JsString) (statement : Text)
      (answer : Option Bool) (left : ProofBytes)
  deriving DecidableEq

/-- The act of an execution. -/
def Observation.actOf (j : ℕ) : Observation → Option Act
  | .effect i e => if i = j then some (.asks e) else none
  | .answered i proofBytes programHash statement answer left =>
    if i = j then some (.answered proofBytes programHash statement answer left) else none
  | _ => none

/-- What an execution has asked of the transport, the server and the verifier, with the answers of the
    verifier, in order. -/
def JobSession.acts (c : JobSession) (j : ℕ) : List Act := c.log.filterMap (·.actOf j)

def Outcome.acts : Outcome → List Act
  | .await _ effect => effect.toList.map .asks
  | .update _ _ | .throws _ | .settles _ => []

/-- The answer of the verifier, if this is one. -/
def Point.verdict (C : SoulNostrClient) : Point → Completion C.signer.Answer → List Act
  | .verify _ result proofBytes, .verified answer left => [.answered proofBytes C.trustedProgramHash
      (serializeProofStatement result.content.statement) answer left]
  | _, _ => []

variable {C : SoulNostrClient} {options : JobOptions} {I : List Act → Point → Prop}
  {ok : Label C.signer.Answer → Prop}

/-- A property that holds at the start of an execution, and is kept by its code and its failure. Labels
    may be restricted: `ok` says which answers of the environment are met. -/
structure Point.Kept (C : SoulNostrClient) (options : JobOptions) (ok : Label C.signer.Answer → Prop)
    (I : List Act → Point → Prop) : Prop where
  publishing : ∀ template, I [] (.publishing template)
  failed : ∀ {es : List Act} {p : Point} (error : JsError), I es p →
    I es (.failing error) ∧ I es (.settled (.error error))
  abort : ∀ {es : List Act} {p : Point} (controller : ℕ), I es p → I es (p.abort controller)
  continued : ∀ {a : Aborts} {es : List Act} {p q : Point} {o : Outcome},
    afterUpdate C a p = some o → o.next = some q → I es p → I (es ++ o.acts) q
  completed : ∀ {a : Aborts} {j : ℕ} {completion : Completion C.signer.Answer} {es : List Act}
    {p q : Point} {o : Outcome}, ok (.complete j completion) →
      complete C options a p completion = some o → o.next = some q → I es p →
        I (es ++ p.verdict C completion ++ o.acts) q
  rejected : ∀ {a : Aborts} {completion : Completion C.signer.Answer} {es : List Act} {p : Point}
    (error : JsError), complete C options a p completion = some (.throws error) → I es p →
      I (es ++ p.verdict C completion) (.failing error) ∧
        I (es ++ p.verdict C completion) (.settled (.error error))

/-- The property holds of all executions, and where the record of the snapshot was made. -/
structure JobSession.Everywhere (I : List Act → Point → Prop) (c : JobSession) : Prop where
  holds : ∀ (j t : ℕ) (p : Point), c.executions[j]? = some (t, p) → I (c.acts j) p
  unborn : ∀ j, c.executions.length ≤ j → c.acts j = []
  record : ∀ job, c.snapshot.verified = some job → ∃ es, I es (.verified job)

/-- The same for all executions but one, which is about to go on. -/
structure JobSession.Elsewhere (I : List Act → Point → Prop) (c : JobSession) (j : ℕ) : Prop where
  holds : ∀ (i t : ℕ) (p : Point), i ≠ j → c.executions[i]? = some (t, p) → I (c.acts i) p
  unborn : ∀ i, c.executions.length ≤ i → c.acts i = []
  record : ∀ job, c.snapshot.verified = some job → ∃ es, I es (.verified job)

namespace JobSession

variable {c c' : JobSession} {i j t : ℕ} {p q : Point} {o : Outcome}

theorem acts_observe (c : JobSession) (seen : List Observation) (j : ℕ) :
    (c.observe seen).acts j = c.acts j ++ seen.filterMap (·.actOf j) :=
  List.filterMap_append

/-- An answer is an act of the execution that asked. -/
theorem acts_answered (c : JobSession) (p : Point) (completion : Completion C.signer.Answer)
    (i j : ℕ) : (c.observe (SoulJob.answered C i p completion)).acts j =
      c.acts j ++ if i = j then p.verdict C completion else [] := by
  rw [acts_observe, SoulJob.answered.eq_def, Point.verdict.eq_def]
  split
  · by_cases hij : i = j
    · simp [Observation.actOf, hij]
    · simp [Observation.actOf, hij]
  · simp

theorem acts_settle (c : JobSession) (i : ℕ) (outcome : Except JsError VerifiedJob) (j : ℕ) :
    (c.settle i outcome).acts j = c.acts j := by
  rw [settle, acts_observe]
  simp [Observation.actOf, acts, setPoint]

theorem acts_raise (c : JobSession) (i : ℕ) (error : JsError) (j : ℕ) :
    (c.raise i error).acts j = c.acts j := by
  rw [raise]
  split
  · exact acts_settle _ _ _ _
  · rfl

/-- An execution asks for what the outcome of its code says. -/
theorem acts_perform (c : JobSession) (i j : ℕ) (o : Outcome) :
    (c.perform i o).acts j = c.acts j ++ if i = j then o.acts else [] := by
  cases o with
  | update patch point => exact (List.append_nil _).symm.trans (by split <;> rfl)
  | await point effect =>
    rw [perform, acts_observe]
    cases effect with
    | none => split <;> rfl
    | some e =>
      by_cases hij : i = j
      · subst hij
        simp [Observation.actOf, Outcome.acts, acts, setPoint]
      · simp [Observation.actOf, acts, setPoint, hij]
  | throws error =>
    rw [perform, acts_raise]
    exact (List.append_nil _).symm.trans (by split <;> rfl)
  | settles outcome =>
    rw [perform, acts_settle]
    exact (List.append_nil _).symm.trans (by split <;> rfl)

theorem length_perform (c : JobSession) (j : ℕ) (o : Outcome) :
    (c.perform j o).executions.length = c.executions.length := by
  have hset : ∀ q, (c.setPoint j q).executions.length = c.executions.length := fun q =>
    List.length_modify ..
  cases o with
  | throws error =>
    rw [perform, raise]
    split <;> exact hset _
  | _ => exact hset _

end JobSession

namespace JobSession.Everywhere

variable {c c' : JobSession} {j t : ℕ} {p q : Point} {o : Outcome}

theorem length_le {i : ℕ} (hpoint : c.executions[j]? = some (t, p)) (hi : c.executions.length ≤ i) :
    j ≠ i := by
  obtain ⟨hlt, -⟩ := List.getElem?_eq_some_iff.mp hpoint
  exact Nat.ne_of_lt (Nat.lt_of_lt_of_le hlt hi)

theorem elsewhere (h : c.Everywhere I) (j : ℕ) : c.Elsewhere I j where
  holds i t p _ hi := h.holds i t p hi
  unborn := h.unborn
  record := h.record

/-- Nothing but the log changes, and nothing that is seen is an act. -/
theorem observe (h : c.Everywhere I) {seen : List Observation}
    (hseen : ∀ j, (c.observe seen).acts j = c.acts j) : (c.observe seen).Everywhere I where
  holds j t p hp := by rw [hseen]; exact h.holds j t p hp
  unborn j hj := (hseen j).trans (h.unborn j hj)
  record := h.record

/-- An execution is answered. -/
theorem answered (h : c.Everywhere I) (hpoint : c.executions[j]? = some (t, p))
    (completion : Completion C.signer.Answer) :
    (c.observe (SoulJob.answered C j p completion)).Elsewhere I j where
  holds i t' q hij hi := by
    rw [acts_answered, if_neg (Ne.symm hij), List.append_nil]
    exact h.holds i t' q hi
  unborn i hi := by
    rw [acts_answered, if_neg (length_le hpoint hi), List.append_nil]
    exact h.unborn i hi
  record := h.record

theorem update (h : c.Everywhere I) {patch : Patch} (hjob : ∀ job, patch = .verified job →
    ∃ es, I es (.verified job)) : (c.update patch).Everywhere I where
  holds := h.holds
  unborn := h.unborn
  record job hrecord := by
    cases patch with
    | verified record => cases hrecord; exact hjob _ rfl
    | draft => cases hrecord
    | _ => exact h.record job hrecord

/-- The execution goes on to a point. -/
theorem setPoint (h : c.Elsewhere I j) (hpoint : c.executions[j]? = some (t, p))
    (hq : I (c.acts j) q) : (c.setPoint j q).Everywhere I where
  holds i t' q' hi := by
    rcases (getElem?_setPoint hpoint).mp hi with ⟨rfl, -, rfl⟩ | ⟨hij, hi⟩
    · exact hq
    · exact h.holds i t' q' hij hi
  unborn i hi := h.unborn i (by rw [← List.length_modify]; exact hi)
  record := h.record

theorem settle (h : c.Elsewhere I j) (hpoint : c.executions[j]? = some (t, p))
    {outcome : Except JsError VerifiedJob} (hq : I (c.acts j) (.settled outcome)) :
    (c.settle j outcome).Everywhere I :=
  (setPoint h hpoint hq).observe fun i => acts_settle c j outcome i

theorem raise (h : c.Elsewhere I j) (hpoint : c.executions[j]? = some (t, p)) {error : JsError}
    (hq : I (c.acts j) (.failing error) ∧ I (c.acts j) (.settled (.error error))) :
    (c.raise j error).Everywhere I := by
  rw [JobSession.raise]
  split
  · exact settle h hpoint hq.2
  · exact (setPoint h hpoint hq.1).update (by simp)

/-- An execution awaits something, and may have asked for it. -/
theorem await (h : c.Elsewhere I j) (hpoint : c.executions[j]? = some (t, p)) {effect : Option Effect}
    (hq : I (c.acts j ++ effect.toList.map .asks) q) :
    (c.perform j (.await q effect)).Everywhere I where
  holds i t' q' hi := by
    rw [acts_perform]
    rcases (getElem?_setPoint hpoint).mp hi with ⟨rfl, -, rfl⟩ | ⟨hij, hi⟩
    · rw [if_pos rfl]
      exact hq
    · rw [if_neg (Ne.symm hij), List.append_nil]
      exact h.holds i t' q' hij hi
  unborn i hi := by
    rw [length_perform] at hi
    rw [acts_perform, h.unborn i hi, if_neg (length_le hpoint hi), List.append_nil]
  record := h.record

theorem perform (h : c.Elsewhere I j) (hpoint : c.executions[j]? = some (t, p))
    (hc : Continues C options c.aborts p o)
    (hnext : ∀ q, o.next = some q → I (c.acts j ++ o.acts) q)
    (hthrows : ∀ error, o = .throws error →
      I (c.acts j) (.failing error) ∧ I (c.acts j) (.settled (.error error))) :
    (c.perform j o).Everywhere I := by
  cases o with
  | update patch point =>
    obtain ⟨-, -, hjob⟩ := patch_of_continues hc
    have hq := hnext point rfl
    rw [Outcome.acts, List.append_nil] at hq
    refine (setPoint h hpoint hq).update fun job hpatch => ?_
    rw [hjob job hpatch] at hq
    exact ⟨_, hq⟩
  | await point effect => exact await h hpoint (hnext point rfl)
  | throws error => exact raise h hpoint (hthrows error rfl)
  | settles outcome =>
    have hq := hnext _ rfl
    rw [Outcome.acts, List.append_nil] at hq
    exact settle h hpoint hq

theorem begin (hI : Point.Kept C options ok I) (h : c.Everywhere I) (now : ℕ)
    (template : EventTemplate) : (c.begin now template).Everywhere I where
  holds j t p hp := by
    rw [JobSession.begin, List.getElem?_append] at hp
    split at hp
    · exact h.holds j t p hp
    · rename_i hj
      obtain ⟨-, rfl⟩ := Prod.mk.inj (List.mem_singleton.mp (List.mem_of_getElem? hp))
      have hnone : (c.begin now template).acts j = [] := h.unborn j (Nat.not_lt.mp hj)
      rw [hnone]
      exact hI.publishing template
  unborn j hj := by
    rw [JobSession.begin, List.length_append] at hj
    exact h.unborn j (Nat.le_of_add_right_le hj)
  record := h.record

theorem redraft (h : c.Everywhere I) : c.redraft.Everywhere I where
  holds := h.holds
  unborn := h.unborn
  record _ hrecord := by cases hrecord

theorem cancel (hI : Point.Kept C options ok I) (h : c.Everywhere I) : c.cancel.Everywhere I where
  holds j t p hp := by
    obtain ⟨q, hq, rfl⟩ := getElem?_cancel.mp hp
    exact hI.abort _ (h.holds j t q hq)
  unborn j hj := by
    rw [JobSession.cancel, List.length_map] at hj
    exact h.unborn j hj
  record := h.record

theorem moves {caller : Option Caller} {l : Label C.signer.Answer} (hI : Point.Kept C options ok I)
    (hl : ok l) (h : c.Everywhere I) (hm : JobSession.Moves C options caller c l c') :
    c'.Everywhere I := by
  cases hm with
  | quiet => exact h
  | started hdraft htemplate => exact h.begin hI _ _
  | retried hretry => exact h.redraft
  | waits hretry => exact ⟨h.holds, h.unborn, h.record⟩
  | resumed hk => exact redraft ⟨h.holds, h.unborn, h.record⟩
  | cancelled hstate => exact h.cancel hI
  | @continued now j t p o hcaller hpoint ho =>
    have hc : Continues C options c.aborts p o := continues_of_afterUpdate ho
    exact perform (h.elsewhere j) hpoint hc
      (fun q hq => hI.continued ho hq (h.holds j t p hpoint))
      (fun error _ => hI.failed error (h.holds j t p hpoint))
  | @completed j t completion p o hpoint ho =>
    have hacts : (c.observe (SoulJob.answered C j p completion)).acts j =
        c.acts j ++ p.verdict C completion := by
      rw [acts_answered, if_pos rfl]
    refine perform (h.answered hpoint completion) hpoint (continues_of_complete ho) ?_ ?_
    · intro q hq
      rw [hacts]
      exact hI.completed hl ho hq (h.holds _ _ _ hpoint)
    · rintro error rfl
      rw [hacts]
      exact hI.rejected error ho (h.holds _ _ _ hpoint)
  | thrown hcaller hpoint hp =>
    exact raise (h.elsewhere _) hpoint (hI.failed _ (h.holds _ _ _ hpoint))
  | rethrown hpoint => exact settle (h.elsewhere _) hpoint (hI.failed _ (h.holds _ _ _ hpoint)).2

theorem new (I : List Act → Point → Prop) (input : JobInput) :
    (SoulJob.new input).session.Everywhere I where
  holds j t p hp := by cases hp
  unborn j hj := rfl
  record job hrecord := by cases hrecord

theorem mono {I' : List Act → Point → Prop} (hI : ∀ es p, I es p → I' es p) {c : JobSession}
    (h : c.Everywhere I) : c.Everywhere I' where
  holds j t p hp := hI _ p (h.holds j t p hp)
  unborn := h.unborn
  record job hjob := by
    obtain ⟨es, hes⟩ := h.record job hjob
    exact ⟨es, hI es _ hes⟩

end JobSession.Everywhere

/-! ### Delivered results -/

/-- The result that a point holds, or waits to go on with, was delivered as an event with the
    property. -/
def Point.Delivered (Q : Event → Prop) : Point → Prop
  | .waiting _ _ wait => ∀ result, wait.promise = .resolved result → Q result.event
  | .resulted _ result => Q result.event
  | .received _ result | .fetching _ result | .fetchAttempting _ result _ | .fetch _ result _ _ _
  | .fetchDelay _ result _ _ | .verifying _ result _ | .verify _ result _ => Q result.event
  | .verified job | .settled (.ok job) => Q job.result.event
  | _ => True

theorem Point.Delivered.mono {Q Q' : Event → Prop} (hQ : ∀ event, Q event → Q' event) {p : Point}
    (h : p.Delivered Q) : p.Delivered Q' := by
  cases p with
  | waiting request signal wait => exact fun result hresult => hQ _ (h result hresult)
  | settled outcome =>
    cases outcome with
    | ok job => exact hQ _ h
    | error e => trivial
  | resulted | received | fetching | fetchAttempting | fetch | fetchDelay | verifying | verify
  | verified => exact hQ _ h
  | _ => trivial

/-- The events that are delivered have the property. -/
def Delivers (Q : Event → Prop) {Answer : Type} : Label Answer → Prop
  | .complete _ (.event event _) => Q event
  | _ => True

theorem event_of_validateResult {P : Platform} {event : Event} {request : ValidatedRequest} {now : ℕ}
    {result : ValidatedResult} (h : validateResultEvent P event request now = .ok result) :
    result.event = event := by
  simp only [validateResultEvent, bind_eq_ok, rejectIf_eq_ok, orReject_eq_ok, pure_eq_ok,
    exists_unit, not_not] at h
  obtain ⟨-, -, -, _, -, -, _, -, _, -, -, -, -, _, -, _, -, -, -, rfl⟩ := h
  rfl

/-- A delivered event is the one of the result that it resolves the wait with. -/
theorem event_of_onEvent {request : ValidatedRequest} {wait : ResultWait} {event : Event} {now : ℕ}
    {result : ValidatedResult} (hresult : (wait.onEvent C request event now).promise =
      .resolved result) : wait.promise = .resolved result ∨ result.event = event := by
  rw [ResultWait.onEvent_promise (d := (event, now))] at hresult
  split at hresult
  · exact Or.inl hresult
  · split at hresult
    · rename_i accepted haccepted
      rcases settle_eq_resolved hresult with hresult | hresult
      · exact Or.inl hresult
      · cases hresult
        rw [ResultWait.acceptable] at haccepted
        split at haccepted
        · cases hvalid : validateResultEvent C.platform event request now with
          | ok r =>
            rw [hvalid] at haccepted
            cases haccepted
            exact Or.inr (event_of_validateResult hvalid)
          | error e => rw [hvalid] at haccepted; cases haccepted
        · cases haccepted
    · exact Or.inl hresult

/-- Outside of a wait the code hands the result on. -/
theorem delivered_of_continues {Q : Event → Prop} {a : Aborts} {p q : Point} {o : Outcome}
    (hc : Continues C options a p o) (hq : o.next = some q)
    (hwait : ∀ request signal wait, p ≠ .waiting request signal wait) (h : p.Delivered Q) :
    q.Delivered Q := by
  cases hc with
  | throws error => cases hq
  | subscribe => cases hq; rintro result ⟨⟩
  | event | waitFailed | result => exact absurd rfl (hwait _ _ _)
  | _ => cases hq; exact h

/-- A wait resolves with a delivered result only. -/
theorem delivered_of_complete {Q : Event → Prop} {a : Aborts} {request : ValidatedRequest}
    {signal : Option ℕ} {wait : ResultWait} {j : ℕ} {completion : Completion C.signer.Answer}
    {q : Point} {o : Outcome} (hl : Delivers Q (.complete j completion))
    (ho : complete C options a (.waiting request signal wait) completion = some o)
    (hq : o.next = some q) (h : (Point.waiting request signal wait).Delivered Q) :
    q.Delivered Q := by
  cases completion with
  | event event now =>
    cases ho
    cases hq
    intro result hresult
    rcases event_of_onEvent hresult with hresult | rfl
    · exact h result hresult
    · exact hl
  | timer | subscribeFailed error =>
    cases ho
    cases hq
    intro result hresult
    rcases settle_eq_resolved hresult with hresult | hresult
    · exact h result hresult
    · cases hresult
  | resumed =>
    rw [complete] at ho
    split at ho
    · cases ho
    · cases ho; cases hq
    · rename_i result hresult
      cases ho
      rw [assertActive] at hq
      split at hq
      · cases hq
        exact h result hresult
      · cases hq
  | _ => cases ho

/-- The code keeps the delivered result, and accepts no other. -/
theorem kept_delivered (C : SoulNostrClient) (options : JobOptions) (Q : Event → Prop) :
    Point.Kept C options (Delivers Q) (fun _ p => p.Delivered Q) where
  publishing _ := trivial
  failed _ _ := ⟨trivial, trivial⟩
  rejected _ _ _ := ⟨trivial, trivial⟩
  abort {es p} controller h := by
    cases p with
    | publishDelay request attempt delay =>
      rw [Point.abort]
      split <;> exact h
    | waiting request signal wait =>
      rw [Point.abort]
      split
      · intro result hresult
        rcases settle_eq_resolved hresult with hresult | hresult
        · exact h result hresult
        · cases hresult
      · exact h
    | fetchDelay request result attempt delay =>
      rw [Point.abort]
      split <;> exact h
    | _ => exact h
  continued {a es p q o} ho hq h := by
    have hc : Continues C options a p o := continues_of_afterUpdate ho
    refine delivered_of_continues hc hq ?_ h
    rintro request signal wait rfl
    cases ho
  completed {a j completion es p q o} hl ho hq h := by
    by_cases hwait : ∃ request signal wait, p = .waiting request signal wait
    · obtain ⟨request, signal, wait, rfl⟩ := hwait
      exact delivered_of_complete hl ho hq h
    · refine delivered_of_continues (continues_of_complete ho) hq ?_ h
      rintro request signal wait rfl
      exact hwait ⟨request, signal, wait, rfl⟩

end SoulSociety.Session
