import SoulSociety.Session.Delivery

/-! Listeners that only listen: while one of them runs, the job goes on with the broadcast and nothing
    else. Each one hears of all the snapshots of the job, once and in their order. -/

namespace SoulSociety.Session
open Lib Sdk

/-- The code under way goes on, and nobody calls the job. -/
def Label.goesOn {Answer : Type} : Label Answer → Bool
  | .deliver | .returns | .proceed _ => true
  | _ => false

/-- The label adds the listener to the set, or removes it. -/
def Label.about {Answer : Type} (listener : ℕ) : Label Answer → Bool
  | .subscribe other | .unsubscribe other => other = listener
  | _ => false

theorem Patch.revision_apply (s : JobSnapshot) (p : Patch) :
    (p.apply s).revision = s.revision + 1 := by
  cases p <;> rfl

namespace SoulJob

variable {C : SoulNostrClient} {options : JobOptions} {s s' m m' : SoulJob} {j listener : ℕ}
  {past told : List JobSnapshot}

/-- Nothing happens to the listeners, or one broadcast of an update begins. -/
def Commits (s s' : SoulJob) : Prop :=
  (s'.snapshot = s.snapshot ∧ s'.notifier = s.notifier ∧ s'.stack = s.stack) ∨
    ∃ (patch : Patch) (caller : Caller), s'.notifier = s.notifier.commit (patch.apply s.snapshot) ∧
      s'.stack = .broadcast (patch.apply s.snapshot) 0 none caller :: s.stack

theorem commits_update (patch : Patch) (caller : Caller) : Commits s (s.update patch caller) :=
  .inr ⟨patch, caller, rfl, rfl⟩

theorem snapshot_hold (s : SoulJob) (j : ℕ) : (s.hold j).snapshot = s.snapshot := by
  rw [hold]
  split
  · split <;> rfl
  · rfl

theorem commits_settle (s : SoulJob) (j : ℕ) (outcome : Except JsError VerifiedJob) :
    Commits s (s.settle j outcome) :=
  .inl ⟨snapshot_hold _ j, notifier_settle s j outcome, stack_settle s j outcome⟩

theorem commits_raise (s : SoulJob) (j : ℕ) (error : JsError) : Commits s (s.raise j error) := by
  rw [raise]
  split
  · exact commits_settle s j _
  · exact commits_update (s := s.setPoint j (.failing error)) _ _

theorem commits_perform (s : SoulJob) (j : ℕ) (o : Outcome) : Commits s (s.perform j o) := by
  cases o with
  | update patch point => exact commits_update (s := s.setPoint j point) patch (.run j)
  | await point effect =>
    refine .inl ⟨snapshot_hold _ j, ?_, stack_hold _ j⟩
    rw [perform, notifier_observe (by cases effect <;> rfl), notifier_hold, notifier_setPoint]
  | throws error => exact commits_raise s j error
  | settles outcome => exact commits_settle s j outcome

theorem commits_start (options : JobOptions) (s : SoulJob) (now : ℕ) :
    Commits s (s.start options now) := by
  rw [start]
  split
  · exact .inl ⟨rfl, rfl, rfl⟩
  · split
    · exact .inl ⟨rfl, rfl, rfl⟩
    · dsimp only
      split
      · exact .inr ⟨.state .publishing, .run s.executions.length, rfl, rfl⟩
      · exact .inr ⟨_, .run s.executions.length, rfl, rfl⟩

theorem commits_proceed {now : ℕ} {caller : Caller}
    (h : s.proceed C options now caller = some s') : Commits s s' := by
  cases caller with
  | run j =>
    obtain ⟨e, -, h⟩ := Option.bind_eq_some_iff.mp h
    obtain ⟨o, -, h⟩ := Option.bind_eq_some_iff.mp h
    obtain rfl := Option.some.inj h
    exact commits_perform s j o
  | cancel => cases h; exact .inl ⟨rfl, rfl, rfl⟩
  | retry => cases h; exact commits_start options s now

theorem frames_of_stack {snapshot : JobSnapshot} {next : ℕ} {running : Option ℕ} {caller : Caller}
    {rest : List Frame} (hstack : s.stack = .broadcast snapshot next running caller :: rest) :
    s.notifier.frames = (snapshot, next) :: rest.filterMap Frame.pending := by
  simp only [notifier, hstack, List.filterMap_cons, Frame.pending]

/-! ### A step that no listener takes -/

/-- One frame at most, and a listener that has heard or is owed what it was told. -/
structure Attends (listener j : ℕ) (past told : List JobSnapshot) (s : SoulJob) : Prop where
  shallow : s.stack.length ≤ 1
  follows : s.notifier.Follows listener j past told

theorem Attends.stack_eq (h : s.Attends listener j past told) {frame : Frame} {rest : List Frame}
    (hstack : s.stack = frame :: rest) : rest = [] := by
  have hlength := h.shallow
  rw [hstack, List.length_cons] at hlength
  exact List.length_eq_zero_iff.mp (by omega)

/-- What was told grows by the snapshot of an update. -/
def Grows (s s' : SoulJob) (told told' : List JobSnapshot) : Prop :=
  (told' = told ∧ s'.snapshot = s.snapshot) ∨
    (told' = told ++ [s'.snapshot] ∧ s'.snapshot.revision = s.snapshot.revision + 1)

theorem Attends.commits (h : s.Attends listener j past told) (hstack : s.stack = [])
    (hc : Commits s s') :
    ∃ told', Grows s s' told told' ∧ s'.Attends listener j past told' := by
  have hframes : s.notifier.frames = [] := by rw [notifier, hstack]; rfl
  rcases hc with ⟨hsnapshot, hnotifier, hsame⟩ | ⟨patch, caller, hcommit, hpush⟩
  · refine ⟨told, .inl ⟨rfl, hsnapshot⟩, hsame ▸ h.shallow, hnotifier ▸ h.follows⟩
  · have hsnapshot : s'.snapshot = patch.apply s.snapshot := congrArg Notifier.current hcommit
    refine ⟨told ++ [s'.snapshot], .inr ⟨rfl, ?_⟩, ?_, ?_⟩
    · rw [hsnapshot, Patch.revision_apply]
    · rw [hpush, hstack]
      exact Nat.le_refl 1
    · rw [hcommit, hsnapshot]
      exact h.follows.commit hframes _

/-- Another listener is added. -/
theorem Attends.subscribe (h : s.Attends listener j past told) (hstack : s.stack = []) {other : ℕ}
    (hother : other ≠ listener) : (s.subscribe other).snapshot = s.snapshot ∧
      (s.subscribe other).Attends listener j past told := by
  have hadded : (s.addListener other).notifier.Follows listener j past told := by
    rw [addListener]
    split
    · exact h.follows
    · exact h.follows.add hother
  have hsnapshot : (s.subscribe other).snapshot = s.snapshot := by
    rw [SoulJob.subscribe, addListener]
    split <;> rfl
  have hheard : (s.subscribe other).notifier =
      { (s.addListener other).notifier with
        heard := (s.addListener other).notifier.heard ++
          [(other, (s.addListener other).notifier.current)] } := by
    rw [notifier, SoulJob.subscribe, observe, addListener]
    split <;> simp [notifier, List.filterMap_cons, Frame.pending, Observation.hearing]
  have hpush : (s.subscribe other).stack = [.greeting other] := by
    rw [← hstack, SoulJob.subscribe, addListener]
    split <;> rfl
  exact ⟨hsnapshot, hpush ▸ Nat.le_refl 1, hheard ▸ hadded.greet hother⟩

/-- Between two broadcasts, or with one under way that goes on: what the listener was told stays, or
    grows by the new snapshot. -/
theorem Attends.step {l : Label C.signer.Answer} (h : m.Attends listener j past told)
    (hquiet : m.stack = [] ∨ l.goesOn = true) (hstays : l.about listener = false)
    (hstep : step C options m l = some m') :
    ∃ told', Grows m m' told told' ∧ m'.Attends listener j past told' := by
  have hkeeps {s' : SoulJob} (hsnapshot : s'.snapshot = m.snapshot) (hs' : s'.stack.length ≤ 1)
      (hfollows : s'.notifier.Follows listener j past told) :
      ∃ told', Grows m s' told told' ∧ s'.Attends listener j past told' :=
    ⟨told, .inl ⟨rfl, hsnapshot⟩, hs', hfollows⟩
  cases acts_of_step hstep with
  | started now => exact h.commits (hquiet.resolve_right Bool.noConfusion) (commits_start options m now)
  | retried =>
    refine h.commits (hquiet.resolve_right Bool.noConfusion) ?_
    rw [retry]
    split
    · split
      · exact .inl ⟨rfl, rfl, rfl⟩
      · exact .inr ⟨.draft, .retry, rfl, rfl⟩
    · exact .inl ⟨rfl, rfl, rfl⟩
  | cancelled =>
    refine h.commits (hquiet.resolve_right Bool.noConfusion) ?_
    rw [cancel]
    split
    · exact .inl ⟨rfl, rfl, rfl⟩
    · exact .inr ⟨.failed cancelledFailure, .cancel, rfl, rfl⟩
  | subscribed other =>
    have hother : other ≠ listener := of_decide_eq_false hstays
    have hstack := hquiet.resolve_right Bool.noConfusion
    obtain ⟨hsnapshot, hattends⟩ := h.subscribe hstack hother
    exact hkeeps hsnapshot hattends.shallow hattends.follows
  | unsubscribed other =>
    have hother : other ≠ listener := of_decide_eq_false hstays
    refine hkeeps rfl h.shallow (h.follows.remove _ fun x => ?_)
    split
    · rename_i hx
      rw [hx]
      simp [hother]
    · exact Iff.rfl
  | @called snapshot next other caller rest hstack hlistener =>
    have hframes := frames_of_stack hstack
    have hlength := h.shallow
    rw [hstack] at hlength
    refine hkeeps rfl hlength ?_
    have hdeliver := h.follows.deliver hframes hlistener
    simpa [notifier, observe, Notifier.deliver, List.filterMap_append, Frame.pending,
      Observation.hearing] using hdeliver
  | @passed snapshot next other caller rest hstack hlistener =>
    have hframes := frames_of_stack hstack
    have hlength := h.shallow
    rw [hstack] at hlength
    exact hkeeps rfl hlength (h.follows.skip hframes hlistener)
  | returned hstack =>
    have hlength := h.shallow
    have hfollows := h.follows
    rw [notifier, hstack] at hfollows
    rw [hstack] at hlength
    exact hkeeps rfl hlength hfollows
  | greeted hstack =>
    have hfollows := h.follows
    rw [notifier, hstack] at hfollows
    exact hkeeps rfl (h.stack_eq hstack ▸ Nat.zero_le 1) hfollows
  | threw hstack _ | threwGreeting hstack =>
    have hempty := hquiet.resolve_right Bool.noConfusion
    rw [hempty] at hstack
    cases hstack
  | @proceeded snapshot next now caller rest _ hstack hnext hproceed =>
    have hframes := frames_of_stack hstack
    have hrest := h.stack_eq hstack
    have hended : ({ m with stack := rest } : SoulJob).Attends listener j past told :=
      ⟨hrest ▸ Nat.zero_le 1, h.follows.finish hframes hnext⟩
    exact hended.commits hrest (commits_proceed hproceed)
  | @completed j' e completion o hstack he ho =>
    have hsame : (m.observe (answered C j' e.point completion)).notifier = m.notifier :=
      notifier_observe (filterMap_answered C j' e.point completion)
    have hseen : (m.observe (answered C j' e.point completion)).Attends listener j past told :=
      ⟨h.shallow, hsame ▸ h.follows⟩
    exact hseen.commits hstack (commits_perform _ j' o)
  | finalized k => exact hkeeps rfl h.shallow h.follows
  | resumed hretry =>
    exact h.commits (hquiet.resolve_right Bool.noConfusion) (.inr ⟨.draft, .retry, rfl, rfl⟩)

/-! ### Runs -/

variable (C options)

/-- A step while all listeners only listen and one of them stays in the set. -/
def quietStep (listener : ℕ) (s : SoulJob) (l : Label C.signer.Answer) : Option SoulJob :=
  if (s.stack = [] ∨ l.goesOn = true) ∧ l.about listener = false then step C options s l else none

variable {C options} {a : SoulJob} {ls : List (Label C.signer.Answer)}

theorem attends_subscribe (hidle : a.stack = []) (hnew : (listener, true) ∉ a.listeners) :
    (a.subscribe listener).Attends listener a.listeners.length (a.notifier.heardBy listener)
      [a.snapshot] := by
  have hheard : (a.subscribe listener).notifier =
      { a.notifier with
        listeners := a.listeners ++ [(listener, true)]
        heard := a.notifier.heard ++ [(listener, a.snapshot)] } := by
    rw [notifier, subscribe, observe, addListener, if_neg hnew]
    simp [notifier, List.filterMap_cons, Frame.pending, Observation.hearing]
  have hpush : (a.subscribe listener).stack = [.greeting listener] := by
    rw [← hidle, subscribe, addListener, if_neg hnew]
    rfl
  refine ⟨hpush ▸ Nat.le_refl 1, ?_, ?_⟩
  · intro i
    rw [hheard]
    rcases Nat.lt_trichotomy i a.listeners.length with hlt | rfl | hgt
    · rw [List.getElem?_append_left hlt]
      exact iff_of_false (fun hi => hnew (List.mem_of_getElem? hi)) (Nat.ne_of_lt hlt)
    · simp
    · rw [List.getElem?_eq_none (by rw [List.length_append]; exact hgt)]
      simp [Nat.ne_of_gt hgt]
  · have hnone : (a.subscribe listener).notifier.owed a.listeners.length = [] := by
      rw [Notifier.owed, notifier, hpush]
      rfl
    rw [hnone, List.append_nil, Notifier.heardBy_concat (n := a.notifier) (by rw [hheard]), if_pos rfl]

/-- Since it was added a listener was told all snapshots of the job, once and in their order. -/
theorem attends_exec (hidle : a.stack = []) (hnew : (listener, true) ∉ a.listeners)
    (hs : exec (quietStep C options listener) (a.subscribe listener) ls = some s) :
    ∃ told, s.Attends listener a.listeners.length (a.notifier.heardBy listener) told ∧
      told.getLast? = some s.snapshot ∧
      told.map (·.revision) = List.range' a.snapshot.revision told.length ∧
      a.snapshot.revision + told.length = s.snapshot.revision + 1 ∧
      ∀ m, Visits (quietStep C options listener) (a.subscribe listener) ls m → m.snapshot ∈ told := by
  induction ls using List.reverseRecOn generalizing s with
  | nil =>
    obtain rfl := Option.some.inj hs
    have hsame : (a.subscribe listener).snapshot = a.snapshot := by
      rw [subscribe, addListener]
      split <;> rfl
    refine ⟨[a.snapshot], attends_subscribe hidle hnew, ?_, rfl, ?_, fun m hm => ?_⟩
    · rw [hsame]; rfl
    · rw [hsame]; rfl
    · rw [visits_nil_iff.mp hm, hsame]
      exact List.mem_singleton_self _
  | append_singleton pre l ih =>
    obtain ⟨m, hm, hstep⟩ := exec_concat.mp hs
    obtain ⟨told, hattends, hlast, hrevisions, hlength, hseen⟩ := ih hm
    obtain ⟨⟨hquiet, hstays⟩, hstep⟩ := Option.ite_none_right_eq_some.mp hstep
    obtain ⟨told', hgrows, hattends'⟩ := hattends.step hquiet hstays hstep
    have hvisited {m' : SoulJob}
        (hm' : Visits (quietStep C options listener) (a.subscribe listener) (pre ++ [l]) m') :
        m'.snapshot ∈ told ∨ m' = s := by
      rcases visits_concat hm' with hvisits | hexec
      · exact .inl (hseen m' hvisits)
      · exact .inr (Option.some.inj (hexec.symm.trans hs))
    rcases hgrows with ⟨rfl, hsnapshot⟩ | ⟨rfl, hrevision⟩
    · refine ⟨told', hattends', hsnapshot ▸ hlast, hrevisions, hsnapshot ▸ hlength, fun m' hm' => ?_⟩
      rcases hvisited hm' with hmem | rfl
      · exact hmem
      · rw [hsnapshot]
        exact List.mem_of_getLast? hlast
    · refine ⟨told ++ [s.snapshot], hattends', List.getLast?_concat, ?_, ?_, fun m' hm' => ?_⟩
      · rw [List.map_append, hrevisions, List.map_singleton, hrevision, ← hlength,
          List.length_append, List.length_singleton, List.range'_1_concat]
      · rw [List.length_append, List.length_singleton, hrevision]
        omega
      · rcases hvisited hm' with hmem | rfl
        · exact List.mem_append_left _ hmem
        · exact List.mem_append_right _ (List.mem_singleton_self _)

/-- A listener that is added while nothing runs hears, by the next time that nothing runs, of every
    snapshot that the job had since then: each of them once, in their order, the current one last. -/
theorem quiet_listener_hears (hidle : a.stack = []) (hnew : (listener, true) ∉ a.listeners)
    (hs : exec (quietStep C options listener) (a.subscribe listener) ls = some s)
    (hend : s.stack = []) :
    ∃ heard, s.notifier.heardBy listener = a.notifier.heardBy listener ++ heard ∧
      heard.map (·.revision) = List.range' a.snapshot.revision heard.length ∧
      heard.getLast? = some s.snapshot ∧
      ∀ m, Visits (quietStep C options listener) (a.subscribe listener) ls m → m.snapshot ∈ heard := by
  obtain ⟨told, hattends, hlast, hrevisions, -, hseen⟩ := attends_exec hidle hnew hs
  have hframes : s.notifier.frames = [] := by rw [notifier, hend]; rfl
  exact ⟨told, hattends.follows.heardBy_eq hframes, hrevisions, hlast, hseen⟩

/-- A job that is cancelled while it is published, after its listener has heard of that. -/
def cancelledLabels : List (Label exampleClient.signer.Answer) :=
  [.returns, .start 1900000000, .deliver, .returns, .proceed 1900000000, .cancel, .deliver, .returns,
    .proceed 1900000000]

theorem cancelledLabels_run :
    (exec (quietStep exampleClient exampleOptions 0) ((new (.fibonacci 10)).subscribe 0)
      cancelledLabels).map (fun s => (decide (s.stack = []), s.snapshot.state)) =
        some (true, .failed) := by
  decide

theorem cancelled_listener_hears : ∃ s heard,
    exec (quietStep exampleClient exampleOptions 0) ((new (.fibonacci 10)).subscribe 0)
      cancelledLabels = some s ∧ s.snapshot.state = .failed ∧ heard = s.notifier.heardBy 0 ∧
      heard.map (·.revision) = List.range' 0 heard.length ∧ heard.getLast? = some s.snapshot := by
  obtain ⟨s, hs, heq⟩ := Option.map_eq_some_iff.mp cancelledLabels_run
  simp only [Prod.mk.injEq, decide_eq_true_eq] at heq
  obtain ⟨hend, hstate⟩ := heq
  obtain ⟨heard, hheard, hrevisions, hlast, -⟩ :=
    quiet_listener_hears rfl List.not_mem_nil hs hend
  exact ⟨s, heard, hs, hstate, hheard.symm, hrevisions, hlast⟩

end SoulJob

end SoulSociety.Session
