import SoulSociety.Session.JobSession

/-! The broadcasts under way. Each one that an execution makes is the only one of that execution, and
    the execution stands at the `update` that made it. -/

namespace SoulSociety.Session
open Lib Sdk

/-- The point is an `update`. -/
def Point.updating : Point → Bool
  | .publishing _ | .requested _ | .attempting _ _ | .awaiting _ | .resulted _ _ | .received _ _
  | .fetching _ _ | .fetchAttempting _ _ _ | .verifying _ _ _ | .verified _ | .failing _ => true
  | _ => false

theorem Point.updating_abort (p : Point) (controller : ℕ) :
    (p.abort controller).updating = p.updating :=
  abort_congr updating controller p (fun _ _ _ _ => rfl) (fun _ _ _ _ => rfl) (fun _ _ _ _ _ => rfl)

/-- An execution goes on to an `update` at its point. -/
theorem updating_of_continues {C : SoulNostrClient} {options : JobOptions} {a : Aborts} {p q : Point}
    {patch : Patch} (h : Continues C options a p (.update patch q)) : q.updating = true := by
  cases h <;> rfl

/-- The execution that makes a broadcast. -/
def Caller.runner : Caller → Option ℕ
  | .run j => some j
  | _ => none

def Frame.runner : Frame → Option ℕ
  | .broadcast _ _ _ caller => caller.runner
  | .greeting _ => none

namespace SoulJob

def runners (stack : List Frame) : List ℕ := stack.filterMap Frame.runner

/-- The executions `js` are in different updates. -/
structure Framed (js : List ℕ) (executions : List (ℕ × Point)) : Prop where
  nodup : js.Nodup
  updating : ∀ j ∈ js, ∃ t p, executions[j]? = some (t, p) ∧ p.updating = true

variable {C : SoulNostrClient} {options : JobOptions} {s s' : SoulJob} {j : ℕ} {js : List ℕ}
  {c : JobSession} {t : ℕ} {p q : Point}

theorem Framed.tail {i : ℕ} {es : List (ℕ × Point)} (h : Framed (i :: js) es) : Framed js es :=
  ⟨(List.nodup_cons.mp h.nodup).2, fun j hj => h.updating j (List.mem_cons_of_mem i hj)⟩

/-- Another execution may move. -/
theorem Framed.setPoint (h : Framed js c.executions) (hj : j ∉ js)
    (hpoint : c.executions[j]? = some (t, p)) : Framed js (c.setPoint j q).executions := by
  refine ⟨h.nodup, fun i hi => ?_⟩
  obtain ⟨t', p', hi', hp'⟩ := h.updating i hi
  have hne : i ≠ j := fun heq => hj (heq ▸ hi)
  exact ⟨t', p', (JobSession.getElem?_setPoint hpoint).mpr (Or.inr ⟨hne, hi'⟩), hp'⟩

/-- An execution enters an update. -/
theorem Framed.cons (h : Framed js c.executions) (hj : j ∉ js)
    (hpoint : c.executions[j]? = some (t, p)) (hq : q.updating = true) :
    Framed (j :: js) (c.setPoint j q).executions := by
  have hrest := h.setPoint (q := q) hj hpoint
  refine ⟨List.nodup_cons.mpr ⟨hj, h.nodup⟩, fun i hi => ?_⟩
  rcases List.mem_cons.mp hi with rfl | hi
  · exact ⟨t, q, (JobSession.getElem?_setPoint hpoint).mpr (Or.inl ⟨rfl, rfl, rfl⟩), hq⟩
  · exact hrest.updating i hi

/-- A new execution enters its first update. -/
theorem Framed.append {es : List (ℕ × Point)} (h : Framed js es) (hp : p.updating = true) :
    Framed (es.length :: js) (es ++ [(t, p)]) := by
  have hlt : ∀ i ∈ js, i < es.length := by
    intro i hi
    obtain ⟨_, _, hget, -⟩ := h.updating i hi
    exact (List.getElem?_eq_some_iff.mp hget).1
  refine ⟨List.nodup_cons.mpr ⟨fun hmem => Nat.lt_irrefl _ (hlt _ hmem), h.nodup⟩, fun i hi => ?_⟩
  rcases List.mem_cons.mp hi with rfl | hi
  · exact ⟨t, p, List.getElem?_concat_length, hp⟩
  · rw [List.getElem?_append_left (hlt i hi)]
    exact h.updating i hi

theorem stack_hold (s : SoulJob) (j : ℕ) : (s.hold j).stack = s.stack := by
  rw [hold]
  split
  · split <;> rfl
  · rfl

theorem stack_settle (s : SoulJob) (j : ℕ) (outcome : Except JsError VerifiedJob) :
    (s.settle j outcome).stack = s.stack := stack_hold _ j

/-- An execution without a broadcast under way moves. -/
theorem framed_perform {o : Outcome} (h : Framed (runners s.stack) s.session.executions)
    (hj : j ∉ runners s.stack) (hpoint : s.session.executions[j]? = some (t, p))
    (ho : ∀ patch q, o = .update patch q → q.updating = true) :
    Framed (runners (s.perform j o).stack) (s.perform j o).session.executions := by
  have hsettle : ∀ outcome, Framed (runners (s.settle j outcome).stack)
      (s.settle j outcome).session.executions := by
    intro outcome
    rw [stack_settle, session_settle]
    exact h.setPoint hj hpoint
  cases o with
  | update patch point =>
    rw [session_perform]
    exact h.cons hj hpoint (ho patch point rfl)
  | await point effect =>
    have hstack : (s.perform j (.await point effect)).stack = s.stack := stack_hold _ j
    rw [hstack, session_perform]
    exact h.setPoint hj hpoint
  | settles outcome => exact hsettle outcome
  | throws error =>
    by_cases hfailed : s.snapshot.state = .failed
    · rw [perform, raise, if_pos hfailed]
      exact hsettle _
    · rw [perform, raise, if_neg hfailed, session_update, session_setPoint]
      exact h.cons hj hpoint rfl

theorem framed_start (h : Framed (runners s.stack) s.session.executions) (now : ℕ) :
    Framed (runners (s.start options now).stack) (s.start options now).session.executions := by
  rw [start]
  split
  · exact h
  · split
    · exact h
    · obtain ⟨template, htemplate, -⟩ := requestTemplate_eq_ok options s.snapshot.input now
      dsimp only
      rw [htemplate, session_update, session, List.map_append]
      have hlength : s.session.executions.length = s.executions.length := List.length_map ..
      rw [← hlength]
      exact h.append rfl

theorem framed_abort (h : Framed js c.executions) : Framed js c.cancel.executions := by
  refine ⟨h.nodup, fun j hj => ?_⟩
  obtain ⟨t, p, hpoint, hp⟩ := h.updating j hj
  exact ⟨t, _, JobSession.getElem?_cancel.mpr ⟨p, hpoint, rfl⟩, (p.updating_abort _).trans hp⟩

/-- The broadcast on top of the stack ends, and its caller goes on. -/
theorem framed_proceed {snapshot : JobSnapshot} {next now : ℕ} {caller : Caller} {rest : List Frame}
    (h : Framed (runners (.broadcast snapshot next none caller :: rest)) s.session.executions)
    (hs : ({ s with stack := rest }).proceed C options now caller = some s') :
    Framed (runners s'.stack) s'.session.executions := by
  cases caller with
  | run j =>
    obtain ⟨e, he, hs⟩ := Option.bind_eq_some_iff.mp hs
    obtain ⟨o, ho, hs⟩ := Option.bind_eq_some_iff.mp hs
    obtain rfl := Option.some.inj hs
    refine framed_perform (s := { s with stack := rest }) h.tail (List.nodup_cons.mp h.nodup).1
      (getElem?_session he) fun patch q hq => ?_
    rw [hq] at ho
    have hc : Continues C options s.aborts e.point (.update patch q) := continues_of_afterUpdate ho
    exact updating_of_continues hc
  | cancel => cases hs; exact h
  | retry => cases hs; exact framed_start (s := { s with stack := rest }) h now

theorem framed_unwind {snapshot : JobSnapshot} {next : ℕ} {listener : Option ℕ} {error : JsError}
    {caller : Caller} {rest : List Frame}
    (h : Framed (runners (.broadcast snapshot next listener caller :: rest)) s.session.executions)
    (hs : ({ s with stack := rest }).unwind error caller = some s') :
    Framed (runners s'.stack) s'.session.executions := by
  cases caller with
  | run j =>
    obtain ⟨e, he, hs⟩ := Option.bind_eq_some_iff.mp hs
    have hmoves : ∀ o : Outcome, (∀ patch q, o ≠ .update patch q) →
        Framed (runners (({ s with stack := rest }).perform j o).stack)
          (({ s with stack := rest }).perform j o).session.executions := fun o ho =>
      framed_perform (s := { s with stack := rest }) h.tail (List.nodup_cons.mp h.nodup).1
        (getElem?_session he) fun patch q hq => absurd hq (ho patch q)
    split at hs
    · cases hs
      exact hmoves (.settles (.error error)) (by simp)
    · cases hs
      exact hmoves (.throws error) (by simp)
  | cancel => cases hs; exact h
  | retry => cases hs; exact h

theorem framed_step {l : Label C.signer.Answer} (h : Framed (runners s.stack) s.session.executions)
    (hs : step C options s l = some s') : Framed (runners s'.stack) s'.session.executions := by
  cases acts_of_step hs with
  | started now => exact framed_start h now
  | retried =>
    rw [retry]
    split
    · split
      · exact h
      · exact h
    · exact h
  | cancelled =>
    rw [session_cancel, cancel]
    split
    · exact h
    · exact framed_abort h
  | subscribed listener =>
    rw [session_subscribe]
    exact h
  | unsubscribed listener => exact h
  | called hstack _ | passed hstack _ | returned hstack | greeted hstack | threwGreeting hstack =>
    rw [hstack] at h
    exact h
  | threw hstack hunwind =>
    rw [hstack] at h
    exact framed_unwind h hunwind
  | proceeded hstack _ hproceed =>
    rw [hstack] at h
    exact framed_proceed h hproceed
  | @completed j e completion o hstack he ho =>
    have hpoint := getElem?_session he
    refine framed_perform (by rw [session_observe]; exact h) ?_ (by rw [session_observe]; exact hpoint)
      fun patch q hq => ?_
    · change j ∉ runners s.stack
      rw [hstack]
      exact List.not_mem_nil
    · rw [hq] at ho
      exact updating_of_continues (continues_of_complete ho)
  | finalized j =>
    rw [session_finalize]
    exact h
  | resumed _ => exact h

theorem framed_visits {input : JobInput} {ls : List (Label C.signer.Answer)}
    (hs : Visits (step C options) (new input) ls s) :
    Framed (runners s.stack) s.session.executions := by
  have hnew : Framed (runners (new input).stack) (new input).session.executions :=
    ⟨List.nodup_nil, fun j hj => absurd hj List.not_mem_nil⟩
  exact hs.invariant (I := fun s => Framed (runners s.stack) s.session.executions) hnew
    fun _ _ _ ht h => framed_step h ht.enabled

/-- The execution whose broadcast is the innermost one stands at an update. -/
theorem Framed.caller (h : Framed (runners s.stack) s.session.executions)
    (hcaller : s.caller = some (.run j)) (hpoint : s.session.executions[j]? = some (t, p)) :
    p.updating = true := by
  rw [SoulJob.caller] at hcaller
  split at hcaller
  · rename_i hstack
    cases hcaller
    rw [hstack] at h
    obtain ⟨t', p', hpoint', hp'⟩ := h.updating j (List.mem_cons_self ..)
    rw [hpoint] at hpoint'
    cases hpoint'
    exact hp'
  · cases hcaller

end SoulJob

end SoulSociety.Session
