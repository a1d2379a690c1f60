import SoulSociety.Session.SoulJob

/-! A job without its listeners: the snapshot, the executions and what they did. Broadcasts change
    nothing here, so a session moves only when the code of the job does. Every step of a `SoulJob` is
    a move of its session, and invariants are proved about moves. -/

namespace SoulSociety.Session
open Lib Sdk

/-- The part of a `SoulJob` that its own code reads and writes. An execution is its clock reading and
    its point. -/
structure JobSession where
  snapshot : JobSnapshot
  aborts : Aborts
  executions : List (ℕ × Point)
  retries : List (Option ℕ)
  log : List Observation

namespace JobSession

/-- More is seen. -/
def observe (c : JobSession) (seen : List Observation) : JobSession := { c with log := c.log ++ seen }

/-- The snapshot is patched. Nobody is told here. -/
def update (c : JobSession) (patch : Patch) : JobSession :=
  { c with snapshot := patch.apply c.snapshot }

/-- An execution goes to a point. -/
def setPoint (c : JobSession) (j : ℕ) (point : Point) : JobSession :=
  { c with executions := c.executions.modify j fun e => (e.1, point) }

/-- The promise of an execution is settled. -/
def settle (c : JobSession) (j : ℕ) (outcome : Except JsError VerifiedJob) : JobSession :=
  (c.setPoint j (.settled outcome)).observe [.settled j outcome]

/-- The `catch` of `run`: the first failure counts. -/
def raise (c : JobSession) (j : ℕ) (error : JsError) : JobSession :=
  if c.snapshot.state = .failed then c.settle j (.error error)
  else (c.setPoint j (.failing error)).update (.failed (failureFor error))

/-- An execution goes on. -/
def perform (c : JobSession) (j : ℕ) : Outcome → JobSession
  | .update patch point => (c.setPoint j point).update patch
  | .await point effect => (c.setPoint j point).observe (effect.map (.effect j)).toList
  | .throws error => c.raise j error
  | .settles outcome => c.settle j outcome

/-- A new execution, which publishes. -/
def begin (c : JobSession) (now : ℕ) (template : EventTemplate) : JobSession where
  snapshot := Patch.apply c.snapshot (.state .publishing)
  aborts := c.aborts
  executions := c.executions ++ [(now, .publishing template)]
  retries := c.retries
  log := c.log

/-- The failure can be retried. -/
def retryable (c : JobSession) : Prop :=
  c.snapshot.state = .failed ∧ ∃ failure ∈ c.snapshot.failure, failure.retryable = true

/-- `retry` from its new `AbortController` on. -/
def redraft (c : JobSession) : JobSession :=
  { c with aborts := { c.aborts with controller := c.aborts.controller + 1 } }.update .draft

/-- The current controller is aborted, and the job fails. -/
def cancel (c : JobSession) : JobSession where
  snapshot := Patch.apply c.snapshot (.failed cancelledFailure)
  aborts := { c.aborts with aborted := c.aborts.controller :: c.aborts.aborted }
  executions := c.executions.map fun e => (e.1, e.2.abort c.aborts.controller)
  retries := c.retries
  log := c.log

/-- Everything that the code of a job can do, where `caller` is the caller of the innermost
    broadcast. -/
inductive Moves (C : SoulNostrClient) (options : JobOptions) (caller : Option Caller)
    (c : JobSession) : Label C.signer.Answer → JobSession → Prop
  | quiet {l : Label C.signer.Answer} : Moves C options caller c l c
  | started {l : Label C.signer.Answer} {now : ℕ} {template : EventTemplate}
      (hdraft : c.snapshot.state = .draft)
      (htemplate : requestTemplate options c.snapshot.input now = .ok template) :
      Moves C options caller c l (c.begin now template)
  | retried (h : c.retryable) : Moves C options caller c .retry c.redraft
  | waits {j : ℕ} (h : c.retryable) :
      Moves C options caller c .retry { c with retries := c.retries ++ [some j] }
  | resumed {k j : ℕ} (h : c.retries[k]? = some (some j)) : Moves C options caller c (.resume k)
      ({ c with retries := c.retries.set k none }).redraft
  | cancelled (h : ¬ (c.snapshot.state = .verified ∨ c.snapshot.state = .failed)) :
      Moves C options caller c .cancel c.cancel
  | continued {now j t : ℕ} {p : Point} {o : Outcome} (hcaller : caller = some (.run j))
      (hpoint : c.executions[j]? = some (t, p)) (h : afterUpdate C c.aborts p = some o) :
      Moves C options caller c (.proceed now) (c.perform j o)
  | completed {j t : ℕ} {completion : Completion C.signer.Answer} {p : Point} {o : Outcome}
      (hpoint : c.executions[j]? = some (t, p))
      (h : complete C options c.aborts p completion = some o) :
      Moves C options caller c (.complete j completion)
        ((c.observe (SoulJob.answered C j p completion)).perform j o)
  | thrown {j t : ℕ} {p : Point} {error : JsError} (hcaller : caller = some (.run j))
      (hpoint : c.executions[j]? = some (t, p)) (hp : ∀ e, p ≠ .failing e) :
      Moves C options caller c (.throws error) (c.raise j error)
  | rethrown {j t : ℕ} {e error : JsError} (hpoint : c.executions[j]? = some (t, .failing e)) :
      Moves C options caller c (.throws error) (c.settle j (.error error))

variable {c : JobSession} {i j t : ℕ} {p q : Point}

theorem getElem?_setPoint (h : c.executions[j]? = some (t, p)) {t' : ℕ} {q' : Point} :
    (c.setPoint j q).executions[i]? = some (t', q') ↔
      i = j ∧ t = t' ∧ q = q' ∨ i ≠ j ∧ c.executions[i]? = some (t', q') := by
  rw [setPoint, List.getElem?_modify]
  by_cases hij : j = i
  · subst hij
    simp [h]
  · have hji : i ≠ j := Ne.symm hij
    simp [hij, hji]

theorem getElem?_begin {now : ℕ} {template : EventTemplate}
    (h : (c.begin now template).executions[j]? = some (t, q)) :
    c.executions[j]? = some (t, q) ∨ t = now ∧ q = .publishing template := by
  rw [begin, List.getElem?_append] at h
  split at h
  · exact Or.inl h
  · obtain ⟨rfl, rfl⟩ := Prod.mk.inj (List.mem_singleton.mp (List.mem_of_getElem? h))
    exact Or.inr ⟨rfl, rfl⟩

theorem getElem?_begin_of_some {now : ℕ} {template : EventTemplate}
    (h : c.executions[j]? = some (t, q)) : (c.begin now template).executions[j]? = some (t, q) := by
  obtain ⟨hlt, -⟩ := List.getElem?_eq_some_iff.mp h
  rw [begin, List.getElem?_append_left hlt, h]

theorem getElem?_cancel : c.cancel.executions[j]? = some (t, q) ↔
    ∃ p, c.executions[j]? = some (t, p) ∧ p.abort c.aborts.controller = q := by
  rw [cancel, List.getElem?_map, Option.map_eq_some_iff]
  constructor
  · rintro ⟨⟨t', p⟩, hp, heq⟩
    obtain ⟨rfl, rfl⟩ := Prod.mk.inj heq
    exact ⟨p, hp, rfl⟩
  · rintro ⟨p, hp, rfl⟩
    exact ⟨(t, p), hp, rfl⟩

end JobSession

/-! ### The session of a job -/

/-- A listener was called. -/
def Observation.isHeard : Observation → Bool
  | .heard _ _ => true
  | _ => false

namespace SoulJob

def session (s : SoulJob) : JobSession where
  snapshot := s.snapshot
  aborts := s.aborts
  executions := s.executions.map fun e => (e.createdAt, e.point)
  retries := s.retries
  log := s.log.filter fun o => !o.isHeard

/-- The caller of the innermost broadcast. -/
def caller (s : SoulJob) : Option Caller :=
  match s.stack with
  | .broadcast _ _ _ caller :: _ => some caller
  | _ => none

variable {C : SoulNostrClient} {options : JobOptions} {s s' : SoulJob} {j : ℕ}

/-- A change of an execution is a change of what the session sees of it. -/
theorem map_modify_execution {f : Execution → Execution} {g : ℕ × Point → ℕ × Point}
    (h : ∀ e, ((f e).createdAt, (f e).point) = g (e.createdAt, e.point)) (es : List Execution)
    (j : ℕ) : (es.modify j f).map (fun e => (e.createdAt, e.point)) =
      (es.map fun e => (e.createdAt, e.point)).modify j g := by
  refine List.ext_getElem? fun i => ?_
  rw [List.getElem?_map, List.getElem?_modify, List.getElem?_modify, List.getElem?_map]
  cases es[i]? with
  | none => rfl
  | some e =>
    by_cases hij : j = i
    · simp [hij, h e]
    · simp [hij]

theorem map_modify_unseen {f : Execution → Execution}
    (h : ∀ e, ((f e).createdAt, (f e).point) = (e.createdAt, e.point)) (es : List Execution) (j : ℕ) :
    (es.modify j f).map (fun e => (e.createdAt, e.point)) =
      es.map fun e => (e.createdAt, e.point) := by
  rw [map_modify_execution (g := id) h, List.modify_id]

@[simp] theorem session_snapshot (s : SoulJob) : s.session.snapshot = s.snapshot := rfl

@[simp] theorem session_aborts (s : SoulJob) : s.session.aborts = s.aborts := rfl

@[simp] theorem session_stack (s : SoulJob) (stack : List Frame) :
    ({ s with stack := stack }).session = s.session := rfl

@[simp] theorem session_observe (s : SoulJob) (seen : List Observation) :
    (s.observe seen).session = s.session.observe (seen.filter fun o => !o.isHeard) := by
  rw [session, observe, List.filter_append]
  rfl

@[simp] theorem session_update (s : SoulJob) (patch : Patch) (caller : Caller) :
    (s.update patch caller).session = s.session.update patch := rfl

@[simp] theorem session_setPoint (s : SoulJob) (j : ℕ) (point : Point) :
    (s.setPoint j point).session = s.session.setPoint j point := by
  rw [session, setPoint, map_modify_execution (g := fun e => (e.1, point)) fun _ => rfl]
  rfl

@[simp] theorem session_hold (s : SoulJob) (j : ℕ) : (s.hold j).session = s.session := by
  rw [hold]
  split
  · split
    · rfl
    · have hsame := map_modify_unseen (f := fun e => { e with held := true }) (fun _ => rfl)
        s.executions j
      simp only [session, hsame]
  · rfl

@[simp] theorem session_settle (s : SoulJob) (j : ℕ) (outcome : Except JsError VerifiedJob) :
    (s.settle j outcome).session = s.session.settle j outcome := by
  rw [settle, session_observe, session_hold, session_setPoint]
  rfl

@[simp] theorem session_raise (s : SoulJob) (j : ℕ) (error : JsError) :
    (s.raise j error).session = s.session.raise j error := by
  rw [raise, JobSession.raise, session_snapshot]
  split
  · rw [session_settle]
  · rw [session_update, session_setPoint]

@[simp] theorem session_perform (s : SoulJob) (j : ℕ) (o : Outcome) :
    (s.perform j o).session = s.session.perform j o := by
  cases o with
  | update patch point => rw [perform, session_update, session_setPoint]; rfl
  | await point effect =>
    rw [perform, session_observe, session_hold, session_setPoint, JobSession.perform]
    cases effect <;> rfl
  | throws error => rw [perform, session_raise]; rfl
  | settles outcome => rw [perform, session_settle]; rfl

theorem session_finalize (s : SoulJob) (j : ℕ) (running : Option ℕ) :
    ({ s with
      running := running
      executions := s.executions.modify j fun e => { e with finalized := true } }).session =
        s.session := by
  have hsame := map_modify_unseen (f := fun e => { e with finalized := true }) (fun _ => rfl)
    s.executions j
  simp only [session, hsame]

@[simp] theorem session_addListener (s : SoulJob) (listener : ℕ) :
    (s.addListener listener).session = s.session := by
  rw [addListener]
  split <;> rfl

@[simp] theorem session_subscribe (s : SoulJob) (listener : ℕ) :
    (s.subscribe listener).session = s.session := by
  rw [subscribe, session_observe]
  change (s.addListener listener).session.observe [] = s.session
  rw [session_addListener, JobSession.observe, List.append_nil]

theorem getElem?_session {e : Execution} (h : s.executions[j]? = some e) :
    s.session.executions[j]? = some (e.createdAt, e.point) := by
  rw [session, List.getElem?_map, h]
  rfl

/-- `start` begins an execution, or nothing happens. -/
theorem session_start (options : JobOptions) (s : SoulJob) (now : ℕ) :
    (s.start options now).session = s.session ∨ ∃ template, s.snapshot.state = .draft ∧
      requestTemplate options s.snapshot.input now = .ok template ∧
      (s.start options now).session = s.session.begin now template := by
  rw [start]
  split
  · exact Or.inl rfl
  · split
    · exact Or.inl rfl
    · rename_i hdraft
      obtain ⟨template, htemplate, -⟩ := requestTemplate_eq_ok options s.snapshot.input now
      refine Or.inr ⟨template, not_not.mp hdraft, htemplate, ?_⟩
      dsimp only
      rw [htemplate]
      dsimp only
      rw [session_update, session, List.map_append]
      rfl

theorem session_cancel (s : SoulJob) : s.cancel.session =
    if s.snapshot.state = .verified ∨ s.snapshot.state = .failed then s.session
    else s.session.cancel := by
  rw [cancel]
  split
  · rfl
  · rw [session_update, session, abort, List.map_map]
    rw [JobSession.cancel, session, List.map_map]
    rfl

/-- What the verifier answered is part of the session. -/
theorem filter_answered (C : SoulNostrClient) (j : ℕ) (p : Point)
    (completion : Completion C.signer.Answer) :
    (answered C j p completion).filter (fun o => !o.isHeard) = answered C j p completion := by
  rw [answered.eq_def]
  split <;> rfl

/-- Only what the code of the job does is part of the session. -/
theorem quiet_observe {c : JobSession} {l : Label C.signer.Answer} {caller : Option Caller}
    {seen : List Observation} (h : seen.filter (fun o => !o.isHeard) = []) :
    JobSession.Moves C options caller c l (c.observe (seen.filter fun o => !o.isHeard)) := by
  rw [h, JobSession.observe, List.append_nil]
  exact .quiet

/-- Every step of a job is a move of its session. -/
theorem moves_of_step {l : Label C.signer.Answer} (h : step C options s l = some s') :
    JobSession.Moves C options s.caller s.session l s'.session := by
  cases acts_of_step h with
  | started now =>
    rcases session_start options s now with hsame | ⟨template, hdraft, htemplate, hbegin⟩
    · rw [hsame]; exact .quiet
    · rw [hbegin]; exact .started hdraft htemplate
  | retried =>
    rw [retry]
    split
    · rename_i hretry
      split
      · exact .waits hretry
      · exact .retried hretry
    · exact .quiet
  | cancelled =>
    rw [session_cancel]
    split
    · exact .quiet
    · rename_i hstate
      exact .cancelled hstate
  | subscribed listener =>
    rw [session_subscribe]
    exact .quiet
  | called hstack hlistener =>
    rw [session_observe, session_stack]
    exact quiet_observe rfl
  | unsubscribed listener => exact .quiet
  | passed hstack hlistener => exact .quiet
  | returned hstack => exact .quiet
  | greeted hstack => exact .quiet
  | threwGreeting hstack => exact .quiet
  | @threw snapshot next listener caller rest error _ hstack hunwind =>
    have hcaller : s.caller = some caller := by rw [SoulJob.caller, hstack]
    cases caller with
    | run j =>
      obtain ⟨e, he, hunwind⟩ := Option.bind_eq_some_iff.mp hunwind
      have hpoint := getElem?_session he
      split at hunwind
      · rename_i e' hfailing
        obtain rfl := Option.some.inj hunwind
        rw [session_settle, session_stack]
        exact .rethrown (hfailing ▸ hpoint)
      · rename_i hother
        obtain rfl := Option.some.inj hunwind
        rw [session_raise, session_stack]
        exact .thrown hcaller hpoint hother
    | cancel => cases hunwind; exact .quiet
    | retry => cases hunwind; exact .quiet
  | @proceeded snapshot next now caller rest _ hstack hnext hproceed =>
    have hcaller : s.caller = some caller := by rw [SoulJob.caller, hstack]
    cases caller with
    | run j =>
      obtain ⟨e, he, hproceed⟩ := Option.bind_eq_some_iff.mp hproceed
      obtain ⟨o, ho, hproceed⟩ := Option.bind_eq_some_iff.mp hproceed
      obtain rfl := Option.some.inj hproceed
      rw [session_perform, session_stack]
      exact .continued hcaller (getElem?_session he) ho
    | cancel => cases hproceed; exact .quiet
    | retry =>
      obtain rfl := Option.some.inj hproceed
      rcases session_start options { s with stack := rest } now with
        hsame | ⟨template, hdraft, htemplate, hbegin⟩
      · rw [hsame]; exact .quiet
      · rw [hbegin]; exact .started hdraft htemplate
  | completed hstack he ho =>
    rw [session_perform, session_observe, filter_answered]
    exact .completed (getElem?_session he) ho
  | finalized j =>
    rw [session_finalize]
    exact .quiet
  | resumed hretry => exact .resumed hretry

end SoulJob

end SoulSociety.Session
