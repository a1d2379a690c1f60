import SoulSociety.Lib.Notifier
import SoulSociety.Session.Frames

/-! What the listeners of a job hear. A job notifies its listeners synchronously, and a listener may
    update the job again: a `Notifier` of snapshots. `update` takes one snapshot for its whole loop, so
    a listener that comes after a nested update hears of the old snapshot after the new one. -/

namespace SoulSociety.Session
open Lib Sdk

/-- The broadcast that a frame is about. -/
def Frame.pending : Frame → Option (JobSnapshot × ℕ)
  | .broadcast snapshot next _ _ => some (snapshot, next)
  | .greeting _ => none

def Observation.hearing : Observation → Option (ℕ × JobSnapshot)
  | .heard listener snapshot => some (listener, snapshot)
  | _ => none

theorem Patch.revision_lt (s : JobSnapshot) (p : Patch) : s.revision < (p.apply s).revision := by
  cases p <;> exact Nat.lt_succ_self _

namespace SoulJob

/-- The listeners of a job, and what they heard. -/
def notifier (s : SoulJob) : Notifier ℕ JobSnapshot where
  current := s.snapshot
  listeners := s.listeners
  frames := s.stack.filterMap Frame.pending
  heard := s.log.filterMap Observation.hearing

variable {C : SoulNostrClient} {options : JobOptions} {s s' : SoulJob} {j : ℕ}
  {n : Notifier ℕ JobSnapshot}

@[simp] theorem notifier_update (s : SoulJob) (patch : Patch) (caller : Caller) :
    (s.update patch caller).notifier = s.notifier.commit (patch.apply s.snapshot) := rfl

@[simp] theorem notifier_setPoint (s : SoulJob) (j : ℕ) (point : Point) :
    (s.setPoint j point).notifier = s.notifier := rfl

@[simp] theorem notifier_hold (s : SoulJob) (j : ℕ) : (s.hold j).notifier = s.notifier := by
  rw [hold]
  split
  · split <;> rfl
  · rfl

/-- What no listener hears. -/
theorem notifier_observe {seen : List Observation} (h : seen.filterMap Observation.hearing = []) :
    (s.observe seen).notifier = s.notifier := by
  simp only [notifier, observe, List.filterMap_append, h, List.append_nil]

theorem filterMap_answered (C : SoulNostrClient) (j : ℕ) (p : Point)
    (completion : Completion C.signer.Answer) :
    (answered C j p completion).filterMap Observation.hearing = [] := by
  rw [answered.eq_def]
  split <;> rfl

@[simp] theorem notifier_settle (s : SoulJob) (j : ℕ) (outcome : Except JsError VerifiedJob) :
    (s.settle j outcome).notifier = s.notifier := by
  rw [settle, notifier_observe rfl, notifier_hold, notifier_setPoint]

/-! ### Steps of a job are moves of its notifier -/

/-- Nothing happens to the listeners, or the job is updated. -/
def Updates (s s' : SoulJob) : Prop :=
  s'.notifier = s.notifier ∨
    ∃ v, s.snapshot.revision < v.revision ∧ s'.notifier = s.notifier.commit v

theorem updates_update (patch : Patch) (caller : Caller) : Updates s (s.update patch caller) :=
  .inr ⟨_, patch.revision_lt s.snapshot, rfl⟩

theorem updates_raise (s : SoulJob) (j : ℕ) (error : JsError) : Updates s (s.raise j error) := by
  rw [raise]
  split
  · exact .inl (notifier_settle s j _)
  · exact updates_update (s := s.setPoint j (.failing error)) _ _

theorem updates_perform (s : SoulJob) (j : ℕ) (o : Outcome) : Updates s (s.perform j o) := by
  cases o with
  | update patch point => exact updates_update (s := s.setPoint j point) patch (.run j)
  | await point effect =>
    left
    rw [perform, notifier_observe (by cases effect <;> rfl), notifier_hold, notifier_setPoint]
  | throws error => exact updates_raise s j error
  | settles outcome => exact .inl (notifier_settle s j outcome)

theorem updates_start (options : JobOptions) (s : SoulJob) (now : ℕ) :
    Updates s (s.start options now) := by
  rw [start]
  split
  · exact .inl rfl
  · split
    · exact .inl rfl
    · dsimp only
      split
      · exact .inr ⟨_, Patch.revision_lt s.snapshot _, notifier_update _ _ _⟩
      · exact .inr ⟨_, Patch.revision_lt s.snapshot _, notifier_update _ _ _⟩

theorem updates_proceed {now : ℕ} {caller : Caller}
    (h : s.proceed C options now caller = some s') : Updates s s' := by
  cases caller with
  | run j =>
    obtain ⟨e, -, h⟩ := Option.bind_eq_some_iff.mp h
    obtain ⟨o, -, h⟩ := Option.bind_eq_some_iff.mp h
    obtain rfl := Option.some.inj h
    exact updates_perform s j o
  | cancel => cases h; exact .inl rfl
  | retry => cases h; exact updates_start options s now

/-- An error of the listener would leave the innermost `update`, and `run` would commit a failure. -/
def Recovers (s : SoulJob) : Prop :=
  s.snapshot.state ≠ .failed ∧ ∃ j e, s.caller = some (.run j) ∧ s.executions[j]? = some e ∧
    ∀ error, e.point ≠ .failing error

/-- An error that leaves the innermost `update` is thrown into another one, no failure is committed, and
    there are listeners that have not heard of the current snapshot. -/
def LeavesOut (s : SoulJob) : Prop := s.notifier.LeavesOut ∧ ¬ s.Recovers

/-- If the innermost `update` has a listener to call next, it has the current snapshot for it. -/
def DeliversCurrent (s : SoulJob) : Prop :=
  match s.stack with
  | .broadcast snapshot next _ _ :: _ =>
    (∃ l ∈ s.listeners[next]?, l.2 = true) → snapshot = s.snapshot
  | _ => True

instance (s : SoulJob) : Decidable s.DeliversCurrent := by
  unfold DeliversCurrent
  split <;> infer_instance

/-- The outermost `update` has called all listeners. -/
def OutermostReturns (s : SoulJob) : Prop :=
  match s.stack with
  | .broadcast _ next none _ :: rest => s.listeners.length ≤ next ∧ ∀ f ∈ rest, f.pending = none
  | _ => False

instance (s : SoulJob) : Decidable s.OutermostReturns := by
  unfold OutermostReturns
  split <;> infer_instance

theorem moves_of_updates (h : Notifier.Step n s.notifier) (hu : Updates s s') :
    Notifier.Moves JobSnapshot.revision n s'.notifier := by
  rcases hu with hsame | ⟨v, hv, hcommit⟩
  · rw [hsame]
    exact .step h
  · rw [hcommit]
    exact .commit h hv

/-- A frame changes, or ends, that is no broadcast or stays at its position. -/
theorem moves_of_stack {stack : List Frame}
    (h : stack.filterMap Frame.pending = s.stack.filterMap Frame.pending) :
    Notifier.Moves JobSnapshot.revision s.notifier ({ s with stack := stack } : SoulJob).notifier := by
  have hsame : ({ s with stack := stack } : SoulJob).notifier = s.notifier := by
    simp only [notifier, h]
  rw [hsame]
  exact .step .idle

/-- An error leaves the innermost `update`. -/
theorem moves_of_unwind {snapshot : JobSnapshot} {next listener : ℕ} {error : JsError}
    {caller : Caller} {rest : List Frame}
    (hstack : s.stack = .broadcast snapshot next (some listener) caller :: rest)
    (hkept : ¬ s.LeavesOut) (h : ({ s with stack := rest }).unwind error caller = some s') :
    Notifier.Moves JobSnapshot.revision s.notifier s'.notifier := by
  have hframes : s.notifier.frames = (snapshot, next) :: rest.filterMap Frame.pending := by
    simp only [notifier, hstack, List.filterMap_cons, Frame.pending]
  have hcaller : s.caller = some caller := by rw [SoulJob.caller, hstack]
  have habandon (hrecovers : ¬ s.Recovers) :
      Notifier.Step s.notifier ({ s with stack := rest } : SoulJob).notifier :=
    .abandon hframes fun hleaves => hkept ⟨hleaves, hrecovers⟩
  cases caller with
  | run j =>
    obtain ⟨e, he, h⟩ := Option.bind_eq_some_iff.mp h
    split at h
    · rename_i error' hpoint
      obtain rfl := Option.some.inj h
      rw [notifier_settle]
      refine .step (habandon ?_)
      rintro ⟨-, i, e', hi, he', hnot⟩
      obtain rfl : j = i := by
        rw [hcaller] at hi
        cases hi
        rfl
      obtain rfl := Option.some.inj (he.symm.trans he')
      exact hnot error' hpoint
    · rename_i hpoint
      obtain rfl := Option.some.inj h
      by_cases hfailed : s.snapshot.state = .failed
      · rw [raise, if_pos hfailed, notifier_settle]
        exact .step (habandon fun hrecovers => hrecovers.1 hfailed)
      · rw [raise, if_neg hfailed, notifier_update, notifier_setPoint]
        exact .replace hframes (Patch.revision_lt s.snapshot _)
  | cancel =>
    obtain rfl := Option.some.inj h
    refine .step (habandon ?_)
    rintro ⟨-, i, -, hi, -⟩
    rw [hcaller] at hi
    cases hi
  | retry =>
    obtain rfl := Option.some.inj h
    refine .step (habandon ?_)
    rintro ⟨-, i, -, hi, -⟩
    rw [hcaller] at hi
    cases hi

theorem notifier_subscribe (s : SoulJob) (listener : ℕ) :
    Notifier.Step s.notifier (s.subscribe listener).notifier := by
  have hheard : (s.subscribe listener).notifier =
      { s.notifier with
        listeners := (s.addListener listener).listeners
        heard := s.notifier.heard ++ [(listener, s.snapshot)] } := by
    rw [notifier, subscribe, observe, addListener]
    split <;> simp [notifier, List.filterMap_cons, Frame.pending, Observation.hearing]
  rw [hheard, addListener]
  split
  · rename_i hmem
    exact .greet hmem
  · exact .subscribe

/-- Every step but a delivery is a move of the notifier. -/
theorem notifier_moves {l : Label C.signer.Answer} (hl : l ≠ .deliver)
    (hkept : ∀ error, l = .throws error → ¬ s.LeavesOut) (h : step C options s l = some s') :
    Notifier.Moves JobSnapshot.revision s.notifier s'.notifier := by
  cases acts_of_step h with
  | started now => exact moves_of_updates .idle (updates_start options s now)
  | retried =>
    rw [retry]
    split
    · split
      · exact .step .idle
      · exact .commit .idle (Patch.revision_lt s.snapshot .draft)
    · exact .step .idle
  | cancelled =>
    rw [cancel]
    split
    · exact .step .idle
    · exact .commit .idle (Patch.revision_lt s.snapshot (.failed cancelledFailure))
  | subscribed listener => exact .step (notifier_subscribe s listener)
  | unsubscribed listener =>
    refine .step (.unsubscribe _ fun x l hx => ?_)
    split at hx
    · cases hx
    · exact hx
  | called hstack hlistener => exact absurd rfl hl
  | passed hstack hlistener => exact absurd rfl hl
  | returned hstack | greeted hstack | threwGreeting hstack =>
    exact moves_of_stack (by rw [hstack]; rfl)
  | threw hstack hunwind => exact moves_of_unwind hstack (hkept _ rfl) hunwind
  | @proceeded snapshot next now caller rest _ hstack hnext hproceed =>
    have hframes : s.notifier.frames = (snapshot, next) :: rest.filterMap Frame.pending := by
      simp only [notifier, hstack, List.filterMap_cons, Frame.pending]
    exact moves_of_updates (s := { s with stack := rest }) (.finish hframes hnext)
      (updates_proceed hproceed)
  | @completed j e completion o hstack he ho =>
    have hsame : (s.observe (answered C j e.point completion)).notifier = s.notifier :=
      notifier_observe (filterMap_answered C j e.point completion)
    rw [← hsame]
    exact moves_of_updates .idle (updates_perform _ j o)
  | finalized j => exact .step .idle
  | resumed hretry => exact .commit .idle (Patch.revision_lt s.snapshot .draft)

/-- The innermost `update` calls its next listener, or passes over one that was removed. -/
theorem notifier_deliver (h : step C options s .deliver = some s') :
    (∃ snapshot next fs listener, s.notifier.frames = (snapshot, next) :: fs ∧
        s.notifier.listeners[next]? = some (listener, true) ∧
        s'.notifier = s.notifier.deliver snapshot next fs listener ∧
        (s.DeliversCurrent ↔ snapshot = s.snapshot)) ∨
      Notifier.Moves JobSnapshot.revision s.notifier s'.notifier ∧ s.DeliversCurrent := by
  cases acts_of_step h with
  | @called snapshot next listener caller rest hstack hlistener =>
    have hframes : s.notifier.frames = (snapshot, next) :: rest.filterMap Frame.pending := by
      simp only [notifier, hstack, List.filterMap_cons, Frame.pending]
    refine .inl ⟨snapshot, next, rest.filterMap Frame.pending, listener, hframes, hlistener, ?_, ?_⟩
    · simp [notifier, observe, Notifier.deliver, List.filterMap_append, Frame.pending,
        Observation.hearing]
    · rw [DeliversCurrent, hstack]
      exact ⟨fun hcurrent => hcurrent ⟨_, hlistener, rfl⟩, fun hcurrent _ => hcurrent⟩
  | @passed snapshot next listener caller rest hstack hlistener =>
    have hframes : s.notifier.frames = (snapshot, next) :: rest.filterMap Frame.pending := by
      simp only [notifier, hstack, List.filterMap_cons, Frame.pending]
    refine .inr ⟨.step ?_, ?_⟩
    · have hskip : ({ s with
          stack := .broadcast snapshot (next + 1) none caller :: rest } : SoulJob).notifier =
            { s.notifier with frames := (snapshot, next + 1) :: rest.filterMap Frame.pending } := by
        simp only [notifier, List.filterMap_cons, Frame.pending]
      rw [hskip]
      exact .skip hframes hlistener
    · rw [DeliversCurrent, hstack]
      rintro ⟨l, hmem, hlive⟩
      rw [hlistener] at hmem
      cases hmem
      cases hlive

/-! ### Runs -/

variable {input : JobInput} {ls : List (Label C.signer.Answer)}

theorem sorted_new (input : JobInput) : (new input).notifier.Sorted JobSnapshot.revision :=
  ⟨fun _ h => absurd h List.not_mem_nil, fun _ h => absurd h List.not_mem_nil, .nil⟩

/-- As long as no error leaves out a listener, both invariants of the notifier hold. -/
theorem covered_visits
    (hkept : ∀ m error m', Takes (step C options) (new input) ls m (.throws error) m' →
      ¬ m.LeavesOut) (hs : Visits (step C options) (new input) ls s) :
    s.notifier.Sorted JobSnapshot.revision ∧ s.notifier.Covered := by
  refine hs.invariant (I := fun s => s.notifier.Sorted JobSnapshot.revision ∧ s.notifier.Covered)
    ⟨sorted_new input, fun hne => absurd rfl hne⟩ ?_
  rintro m l m' ht ⟨hsorted, hcovered⟩
  by_cases hl : l = .deliver
  · subst hl
    rcases notifier_deliver ht.enabled with ⟨v, i, fs, listener, hf, hlive, hdeliver, -⟩ | ⟨hmoves, -⟩
    · rw [hdeliver]
      exact ⟨hsorted.deliver hf listener, hcovered.deliver hf hlive⟩
    · exact hmoves.preserve hsorted hcovered
  · have hthrows : ∀ error, l = .throws error → ¬ m.LeavesOut := by
      rintro error rfl
      exact hkept m error m' ht
    exact (notifier_moves hl hthrows ht.enabled).preserve hsorted hcovered

theorem inOrder_visits
    (hkept : ∀ m error m', Takes (step C options) (new input) ls m (.throws error) m' →
      ¬ m.LeavesOut)
    (hcurrent : ∀ m m', Takes (step C options) (new input) ls m .deliver m' → m.DeliversCurrent)
    (hs : Visits (step C options) (new input) ls s) : s.notifier.InOrder JobSnapshot.revision := by
  refine hs.invariant (I := fun s => s.notifier.InOrder JobSnapshot.revision)
    (fun _ => List.Pairwise.nil) ?_
  intro m l m' ht horder
  obtain ⟨hsorted, -⟩ := covered_visits hkept ht.visits
  by_cases hl : l = .deliver
  · subst hl
    rcases notifier_deliver ht.enabled with
      ⟨v, i, fs, listener, -, -, hdeliver, hiff⟩ | ⟨hmoves, -⟩
    · have hv : v = m.notifier.current := hiff.mp (hcurrent m m' ht)
      rw [hdeliver]
      exact horder.hear (l := listener) hsorted (by rw [Notifier.deliver, hv])
    · exact horder.moves hsorted hmoves
  · have hthrows : ∀ error, l = .throws error → ¬ m.LeavesOut := by
      rintro error rfl
      exact hkept m error m' ht
    exact horder.moves hsorted (notifier_moves hl hthrows ht.enabled)

/-- Where no error leaves out a listener: every listener hears the snapshots in their order, and the
    current one last by the time the outermost `update` returns, exactly as long as no `update` calls
    a listener with a snapshot that was replaced. -/
theorem delivery_iff
    (hkept : ∀ m error m', Takes (step C options) (new input) ls m (.throws error) m' →
      ¬ m.LeavesOut) :
    ((∀ m, Visits (step C options) (new input) ls m →
        m.notifier.InOrder JobSnapshot.revision) ∧
      ∀ m, Visits (step C options) (new input) ls m → m.OutermostReturns → m.notifier.Informed) ↔
      ∀ m m', Takes (step C options) (new input) ls m .deliver m' → m.DeliversCurrent := by
  constructor
  · rintro ⟨horder, -⟩ m m' ht
    obtain ⟨hsorted, hcovered⟩ := covered_visits hkept ht.visits
    rcases notifier_deliver ht.enabled with
      ⟨v, i, fs, listener, hf, hlive, hdeliver, hiff⟩ | ⟨-, hcurrent⟩
    · by_contra hstale
      have hv : v ≠ m.notifier.current := fun hv => hstale (hiff.mpr hv)
      have hnot := Notifier.not_inOrder_of_stale hsorted hcovered hf hlive hv
      rw [← hdeliver] at hnot
      exact hnot (horder m' ht.visits_next)
    · exact hcurrent
  · intro hcurrent
    refine ⟨fun m hm => inOrder_visits hkept hcurrent hm, ?_⟩
    intro m hm hreturns
    obtain ⟨hsorted, hcovered⟩ := covered_visits hkept hm
    rw [OutermostReturns] at hreturns
    split at hreturns
    · rename_i snapshot next caller rest hstack
      obtain ⟨hnext, hrest⟩ := hreturns
      have hnone : rest.filterMap Frame.pending = [] := List.filterMap_eq_nil_iff.mpr hrest
      have hframes : m.notifier.frames = [(snapshot, next)] := by
        simp only [notifier, hstack, List.filterMap_cons, Frame.pending, hnone]
      exact Notifier.informed_of_outermost hsorted hcovered (inOrder_visits hkept hcurrent hm)
        hframes hnext
    · exact hreturns.elim

/-! ### A listener that cancels -/

/-- Of two listeners the second one cancels when it hears that the job is publishing. Both hear of the
    failure, and the loop of the first update has nobody left to call. -/
def hearPublishing : List (Label exampleClient.signer.Answer) :=
  [.subscribe 0, .returns, .subscribe 1, .returns, .start 1900000000, .deliver, .returns, .deliver,
    .cancel, .deliver, .returns, .deliver, .returns, .proceed 1900000000, .returns,
    .proceed 1900000000]

/-- What is delivered is current. -/
def deliversCurrent (s : SoulJob) {Answer : Type} : Label Answer → Bool
  | .deliver => decide s.DeliversCurrent
  | _ => true

theorem hearPublishing_run :
    (exec (step exampleClient exampleOptions) (new (.fibonacci 10)) hearPublishing).isSome = true ∧
      allTakes (step exampleClient exampleOptions) (fun s l => s.deliversCurrent l)
        (new (.fibonacci 10)) hearPublishing = true := by
  decide +kernel

theorem hearPublishing_informed :
    (exec (step exampleClient exampleOptions) (new (.fibonacci 10)) hearPublishing).isSome = true ∧
    (∀ m, Visits (step exampleClient exampleOptions) (new (.fibonacci 10)) hearPublishing m →
        m.notifier.InOrder JobSnapshot.revision) ∧
      ∀ m, Visits (step exampleClient exampleOptions) (new (.fibonacci 10)) hearPublishing m →
        m.OutermostReturns → m.notifier.Informed := by
  obtain ⟨hruns, hcurrent⟩ := hearPublishing_run
  refine ⟨hruns, (delivery_iff ?_).mpr ?_⟩
  · intro m error m' ht
    have hmem : .throws error ∈ hearPublishing := ht.mem
    simp [hearPublishing] at hmem
  · intro m m' ht
    have hstep := of_allTakes hcurrent ht
    exact of_decide_eq_true hstep

/-- Of two listeners the first one cancels when it hears that the job is publishing. Both hear of the
    failure, and the loop of the first update goes on to the second one. -/
def cancelInBroadcast : List (Label exampleClient.signer.Answer) :=
  [.subscribe 0, .returns, .subscribe 1, .returns, .start 1900000000, .deliver, .cancel, .deliver,
    .returns, .deliver, .returns, .proceed 1900000000, .returns, .deliver, .returns]

theorem cancelInBroadcast_run :
    (exec (step exampleClient exampleOptions) (new (.fibonacci 10)) cancelInBroadcast).map (fun s =>
      (decide s.OutermostReturns, s.snapshot.state, (s.notifier.heardBy 1).map (·.state),
        (s.notifier.heardBy 1).map (·.revision), decide ((1, true) ∈ s.listeners))) =
      some (true, .failed, [.draft, .failed, .publishing], [0, 2, 1], true) := by
  decide +kernel

/-- The second listener hears of the failure, then that the job is publishing, and nothing more. -/
theorem stale_snapshot_delivered : ∃ s,
    exec (step exampleClient exampleOptions) (new (.fibonacci 10)) cancelInBroadcast = some s ∧
      s.OutermostReturns ∧ s.snapshot.state = .failed ∧
      (s.notifier.heardBy 1).map (·.state) = [.draft, .failed, .publishing] ∧
      ¬ s.notifier.InOrder JobSnapshot.revision ∧ ¬ s.notifier.Informed := by
  obtain ⟨s, hs, heq⟩ := Option.map_eq_some_iff.mp cancelInBroadcast_run
  simp only [Prod.mk.injEq, decide_eq_true_eq] at heq
  obtain ⟨hreturns, hstate, hheard, hrevisions, hlive⟩ := heq
  refine ⟨s, hs, hreturns, hstate, hheard, fun horder => ?_, fun hinformed => ?_⟩
  · have hsorted := List.pairwise_map.mpr (horder 1)
    rw [hrevisions] at hsorted
    revert hsorted
    decide
  · have hlast := congrArg (Option.map (·.state)) (hinformed 1 hlive)
    rw [← List.getLast?_map, hheard] at hlast
    have hcurrent : s.notifier.current.state = .failed := hstate
    rw [Option.map_some, hcurrent] at hlast
    cases hlast

end SoulJob

end SoulSociety.Session
