import SoulSociety.Session.Client
import SoulSociety.Session.Frames

/-! The lifecycle of a job. As long as at most one execution is under way and the snapshot is at its
    stage, the state moves along the lifecycle. Three things break that: a `retry` that comes back from
    its `await` to a job that is not failed any more, an `update` to the next stage after a listener
    cancelled, and a listener that throws when it hears that the job is verified. -/

namespace SoulSociety.Session
open Lib Sdk

/-- The stage of an execution that is under way. -/
def Point.stage : Point → Option JobState
  | .publishing _ | .signing _ | .requested _ | .attempting _ _ | .publish _ _
  | .publishDelay _ _ _ => some .publishing
  | .awaiting _ | .waiting _ _ _ | .resulted _ _ => some .awaitingResult
  | .received _ _ => some .resultReceived
  | .fetching _ _ | .fetchAttempting _ _ _ | .fetch _ _ _ _ _ | .fetchDelay _ _ _ _ =>
      some .fetching
  | .verifying _ _ _ | .verify _ _ _ => some .verifying
  | .verified _ => some .verified
  | .failing _ | .settled _ => none

/-- The code after this `update` goes to the next stage without `assertActive`. -/
def Point.Unguarded (C : SoulNostrClient) : Point → Prop
  | .resulted _ result => ∃ r, result.content = .success r
  | .received _ result => result.content.proof.program_hash = C.trustedProgramHash
  | _ => False

/-- One step of the lifecycle. -/
inductive Follows : JobState → JobState → Prop
  | publishing : Follows .draft .publishing
  | awaitingResult : Follows .publishing .awaitingResult
  | resultReceived : Follows .awaitingResult .resultReceived
  | fetching : Follows .resultReceived .fetching
  | verifying : Follows .fetching .verifying
  | verified : Follows .verifying .verified

theorem not_follows_draft (state : JobState) : ¬ Follows state .draft := by
  intro h
  cases h

def JobState.terminal : JobState → Bool
  | .verified | .failed => true
  | _ => false

/-- The code of `retry`. -/
def Label.isRetry {Answer : Type} : Label Answer → Bool
  | .retry | .resume _ => true
  | _ => false

variable {C : SoulNostrClient} {options : JobOptions} {a : Aborts} {p q : Point} {patch : Patch}
  {stage : JobState}

theorem Point.stage_abort (p : Point) (controller : ℕ) : (p.abort controller).stage = p.stage :=
  abort_congr stage controller p (fun _ _ _ _ => rfl) (fun _ _ _ _ => rfl) (fun _ _ _ _ _ => rfl)

/-- An execution that is under way is past the draft and has not failed. -/
theorem Point.stage_ne (h : p.stage = some stage) : stage ≠ .draft ∧ stage ≠ .failed := by
  cases p <;> cases h <;> simp

theorem Point.stage_of_updating (hp : p.updating = true) (hfailing : ∀ e, p ≠ .failing e) :
    ∃ stage, p.stage = some stage := by
  cases p with
  | failing e => exact absurd rfl (hfailing e)
  | settled outcome => cases hp
  | _ => exact ⟨_, rfl⟩

/-! ### The stages of an execution -/

/-- An `update` goes on along the lifecycle, on a signal that is not aborted where it is checked. -/
theorem stage_of_update (h : Continues C options a p (.update patch q)) : ∃ stage,
    p.stage = some stage ∧ q.stage = some (patch.nextState stage) ∧
      (patch.nextState stage = stage ∨ Follows stage (patch.nextState stage)) ∧
      (a.active = true ∨ p.Unguarded C) := by
  cases h with
  | signed hactive => exact ⟨_, rfl, rfl, Or.inl rfl, Or.inl hactive⟩
  | firstAttempt hactive => exact ⟨_, rfl, rfl, Or.inl rfl, Or.inl hactive⟩
  | published hactive => exact ⟨_, rfl, rfl, Or.inr .awaitingResult, Or.inl hactive⟩
  | nextAttempt hactive => exact ⟨_, rfl, rfl, Or.inl rfl, Or.inl hactive⟩
  | result hactive => exact ⟨_, rfl, rfl, Or.inl rfl, Or.inl hactive⟩
  | received hcontent => exact ⟨_, rfl, rfl, Or.inr .resultReceived, Or.inr ⟨_, hcontent⟩⟩
  | fetching hprogram => exact ⟨_, rfl, rfl, Or.inr .fetching, Or.inr hprogram⟩
  | firstFetch hactive => exact ⟨_, rfl, rfl, Or.inl rfl, Or.inl hactive⟩
  | nextFetch hactive => exact ⟨_, rfl, rfl, Or.inl rfl, Or.inl hactive⟩
  | fetched hactive => exact ⟨_, rfl, rfl, Or.inr .verifying, Or.inl hactive⟩
  | verified hactive => exact ⟨_, rfl, rfl, Or.inr .verified, Or.inl hactive⟩

theorem stage_of_await {effect : Option Effect} (h : Continues C options a p (.await q effect)) :
    ∃ stage, p.stage = some stage ∧ q.stage = some stage := by
  cases h <;> exact ⟨_, rfl, rfl⟩

theorem stage_of_afterUpdate {error : JsError} (h : afterUpdate C a p = some (.throws error)) :
    ∃ stage, p.stage = some stage ∧ stage ≠ .verified := by
  cases p with
  | verified job => cases h
  | failing e => cases h
  | settled outcome => cases h
  | _ => exact ⟨_, rfl, JobState.noConfusion⟩

theorem stage_of_complete {completion : Completion C.signer.Answer} {o : Outcome}
    (h : complete C options a p completion = some o) :
    ∃ stage, p.stage = some stage ∧ stage ≠ .verified := by
  cases p with
  | verified job => cases completion <;> cases h
  | failing e => cases completion <;> cases h
  | settled outcome => cases completion <;> cases h
  | _ => exact ⟨_, rfl, JobState.noConfusion⟩

/-! ### The invariant -/

namespace JobSession

/-- The job was cancelled, and its signal is aborted. -/
structure Stopped (c : JobSession) : Prop where
  failed : c.snapshot.state = .failed
  final : ¬ c.retryable
  aborted : c.aborts.active = false

theorem Stopped.congr {c c' : JobSession} (h : c.Stopped) (hsnapshot : c'.snapshot = c.snapshot)
    (haborts : c'.aborts = c.aborts) : c'.Stopped := by
  obtain ⟨hfailed, hfinal, haborted⟩ := h
  rw [retryable, ← hsnapshot] at hfinal
  exact ⟨hsnapshot ▸ hfailed, hfinal, haborts ▸ haborted⟩

/-- At most one execution is under way, and the snapshot is at its stage unless the job was stopped. -/
structure Lifecycle (c : JobSession) : Prop where
  alone : ∀ (i j t t' : ℕ) (p q : Point), c.executions[i]? = some (t, p) →
    c.executions[j]? = some (t', q) → p.stage ≠ none → q.stage ≠ none → i = j
  stage : ∀ (j t : ℕ) (p : Point) (stage : JobState), c.executions[j]? = some (t, p) →
    p.stage = some stage → c.snapshot.state = stage ∨ c.Stopped

/-- The state stays, goes one step along the lifecycle, fails, or is reset by a retry. -/
def Monotonic {Answer : Type} (c : JobSession) (l : Label Answer) (c' : JobSession) : Prop :=
  c'.snapshot.state = c.snapshot.state ∨ Follows c.snapshot.state c'.snapshot.state ∨
    c.snapshot.state.terminal = false ∧ c'.snapshot.state = .failed ∨
    c.retryable ∧ c'.snapshot.state = .draft ∧ l.isRetry = true

/-- A call of `retry` comes back to a draft or to a retryable failure, no next stage is entered after a
    failure, and no listener throws out of the `update` to `verified`. -/
def Orderly (C : SoulNostrClient) (caller : Option Caller) (c : JobSession) :
    Label C.signer.Answer → Prop
  | .resume _ => c.snapshot.state = .draft ∨ c.retryable
  | .proceed _ => ∀ j t p, caller = some (.run j) → c.executions[j]? = some (t, p) →
      p.Unguarded C → c.snapshot.state ≠ .failed
  | .throws _ => ∀ j t p, caller = some (.run j) → c.executions[j]? = some (t, p) →
      (∀ e, p ≠ .failing e) → c.snapshot.state ≠ .verified
  | _ => True

variable {c c' : JobSession} {i j t : ℕ} {caller : Option Caller} {l : Label C.signer.Answer}

theorem Lifecycle.congr (h : c.Lifecycle) (hexecutions : c'.executions = c.executions)
    (hsnapshot : c'.snapshot = c.snapshot) (haborts : c'.aborts = c.aborts) : c'.Lifecycle := by
  refine ⟨fun i j t t' p q hi hj => ?_, fun j t p stage hpoint hp => ?_⟩
  · rw [hexecutions] at hi hj
    exact h.alone i j t t' p q hi hj
  · rw [hexecutions] at hpoint
    rw [hsnapshot]
    exact (h.stage j t p stage hpoint hp).imp_right fun hs => hs.congr hsnapshot haborts

/-- In a draft, or after a failure that can be retried, nothing is under way. -/
theorem Lifecycle.idle (h : c.Lifecycle) (hstate : c.snapshot.state = .draft ∨ c.retryable)
    (hpoint : c.executions[j]? = some (t, p)) : p.stage = none := by
  cases hp : p.stage with
  | none => rfl
  | some stage =>
    obtain ⟨hdraft, hfailed⟩ := p.stage_ne hp
    rcases h.stage j t p stage hpoint hp with heq | hstopped
    · rcases hstate with hstate | hretry
      · exact absurd (heq.symm.trans hstate) hdraft
      · exact absurd (heq.symm.trans hretry.1) hfailed
    · rcases hstate with hstate | hretry
      · rw [hstopped.failed] at hstate
        cases hstate
      · exact absurd hretry hstopped.final

/-- The execution that is under way moves. -/
theorem Lifecycle.moved (h : c.Lifecycle) (hpoint : c.executions[j]? = some (t, p))
    (hp : p.stage = some stage) (hmoved : c'.executions = (c.setPoint j q).executions)
    (hstage : ∀ stage, q.stage = some stage → c'.snapshot.state = stage ∨ c'.Stopped) :
    c'.Lifecycle := by
  have hj : ∀ i t' p', c.executions[i]? = some (t', p') → p'.stage ≠ none → i = j :=
    fun i t' p' hi hp' => h.alone i j t' t p' p hi hpoint hp' (by rw [hp]; exact Option.some_ne_none _)
  have hself : ∀ i t' p', c'.executions[i]? = some (t', p') → p'.stage ≠ none → i = j ∧ p' = q := by
    intro i t' p' hi hp'
    rw [hmoved, getElem?_setPoint hpoint] at hi
    rcases hi with ⟨rfl, -, rfl⟩ | ⟨hne, hi⟩
    · exact ⟨rfl, rfl⟩
    · exact absurd (hj i t' p' hi hp') hne
  refine ⟨fun i k t' t'' p' q' hi hk hp' hq' => ?_, fun i t' p' stage' hi hp' => ?_⟩
  · rw [(hself i t' p' hi hp').1, (hself k t'' q' hk hq').1]
  · obtain ⟨-, rfl⟩ := hself i t' p' hi (by rw [hp']; exact Option.some_ne_none _)
    exact hstage stage' hp'

/-- An execution settles. -/
theorem Lifecycle.settle (h : c.Lifecycle) (hpoint : c.executions[j]? = some (t, p))
    (outcome : Except JsError VerifiedJob) : (c.settle j outcome).Lifecycle := by
  have hold : ∀ (i t' : ℕ) (p' : Point), (c.settle j outcome).executions[i]? = some (t', p') →
      p'.stage ≠ none → c.executions[i]? = some (t', p') := by
    intro i t' p' hi hp'
    rcases (getElem?_setPoint hpoint).mp hi with ⟨-, -, rfl⟩ | ⟨-, hi⟩
    · exact absurd rfl hp'
    · exact hi
  refine ⟨fun i k t' t'' p' q' hi hk hp' hq' => ?_, fun i t' p' stage' hi hp' => ?_⟩
  · exact h.alone i k t' t'' p' q' (hold i t' p' hi hp') (hold k t'' q' hk hq') hp' hq'
  · have hsome : p'.stage ≠ none := by rw [hp']; exact Option.some_ne_none _
    exact (h.stage i t' p' stage' (hold i t' p' hi hsome) hp').imp_right fun hs => hs.congr rfl rfl

/-- The execution that is under way throws. -/
theorem Lifecycle.raise (h : c.Lifecycle) (hpoint : c.executions[j]? = some (t, p))
    (hp : p.stage = some stage) (hstate : c.snapshot.state ≠ .verified) (error : JsError) :
    (c.raise j error).Lifecycle ∧ c.Monotonic l (c.raise j error) := by
  by_cases hfailed : c.snapshot.state = .failed
  · rw [JobSession.raise, if_pos hfailed]
    exact ⟨h.settle hpoint _, Or.inl rfl⟩
  · rw [JobSession.raise, if_neg hfailed]
    refine ⟨h.moved hpoint hp rfl fun stage' hq => ?_, Or.inr (Or.inr (Or.inl ⟨?_, rfl⟩))⟩
    · cases hq
    · cases hterminal : c.snapshot.state with
      | verified => exact absurd hterminal hstate
      | failed => exact absurd hterminal hfailed
      | _ => rfl

theorem Lifecycle.update (h : c.Lifecycle) (hpoint : c.executions[j]? = some (t, p))
    (hc : Continues C options c.aborts p (.update patch q))
    (hok : p.Unguarded C → c.snapshot.state ≠ .failed) :
    (c.perform j (.update patch q)).Lifecycle ∧ c.Monotonic l (c.perform j (.update patch q)) := by
  obtain ⟨stage, hp, hq, hnext, hguard⟩ := stage_of_update hc
  have hstate : c.snapshot.state = stage := by
    rcases h.stage j t p stage hpoint hp with heq | hstopped
    · exact heq
    · rcases hguard with hactive | hunguarded
      · rw [hstopped.aborted] at hactive
        cases hactive
      · exact absurd hstopped.failed (hok hunguarded)
  have hafter : (c.perform j (.update patch q)).snapshot.state = patch.nextState stage := by
    rw [← hstate]
    exact patch.apply_state c.snapshot
  refine ⟨h.moved hpoint hp rfl fun stage' hq' => Or.inl ?_, ?_⟩
  · rw [hafter]
    exact Option.some.inj (hq.symm.trans hq')
  · rcases hnext with heq | hfollows
    · exact Or.inl (hafter.trans (heq.trans hstate.symm))
    · refine Or.inr (Or.inl ?_)
      rw [hafter, hstate]
      exact hfollows

theorem Lifecycle.perform {o : Outcome} (h : c.Lifecycle) (hpoint : c.executions[j]? = some (t, p))
    (hc : Continues C options c.aborts p o) (hok : p.Unguarded C → c.snapshot.state ≠ .failed)
    (hthrows : ∀ error, o = .throws error → ∃ stage, p.stage = some stage ∧ stage ≠ .verified) :
    (c.perform j o).Lifecycle ∧ c.Monotonic l (c.perform j o) := by
  cases o with
  | update patch q => exact h.update hpoint hc hok
  | await q effect =>
    obtain ⟨stage, hp, hq⟩ := stage_of_await hc
    refine ⟨h.moved hpoint hp rfl fun stage' hq' => ?_, Or.inl rfl⟩
    rcases h.stage j t p stage hpoint hp with heq | hstopped
    · exact Or.inl (heq.trans (Option.some.inj (hq.symm.trans hq')))
    · exact Or.inr (hstopped.congr rfl rfl)
  | settles outcome => exact ⟨h.settle hpoint outcome, Or.inl rfl⟩
  | throws error =>
    obtain ⟨stage, hp, hne⟩ := hthrows error rfl
    refine h.raise hpoint hp (fun hverified => ?_) error
    rcases h.stage j t p stage hpoint hp with heq | hstopped
    · exact hne (heq.symm.trans hverified)
    · rw [hstopped.failed] at hverified
      cases hverified

/-- A job where nothing is under way becomes a draft. -/
theorem Lifecycle.redraft (h : c.Lifecycle) (hstate : c.snapshot.state = .draft ∨ c.retryable) :
    c.redraft.Lifecycle := by
  have hidle : ∀ (j t : ℕ) (p : Point), c.redraft.executions[j]? = some (t, p) → p.stage = none :=
    fun j t p hpoint => h.idle hstate hpoint
  refine ⟨fun i j t t' p q hi hj hp => absurd (hidle i t p hi) hp, fun j t p stage hpoint hp => ?_⟩
  rw [hidle j t p hpoint] at hp
  cases hp

theorem Lifecycle.cancel (h : c.Lifecycle) : c.cancel.Lifecycle := by
  refine ⟨fun i j t t' p q hi hj hp hq => ?_, fun j t p stage hpoint hp => Or.inr ⟨rfl, ?_, ?_⟩⟩
  · obtain ⟨p₀, hi₀, rfl⟩ := getElem?_cancel.mp hi
    obtain ⟨q₀, hj₀, rfl⟩ := getElem?_cancel.mp hj
    rw [Point.stage_abort] at hp hq
    exact h.alone i j t t' p₀ q₀ hi₀ hj₀ hp hq
  · rintro ⟨-, failure, hmem, hretry⟩
    cases hmem
    cases hretry
  · rw [JobSession.cancel, Aborts.active]
    simp

theorem Lifecycle.begin (h : c.Lifecycle) (hdraft : c.snapshot.state = .draft) {now : ℕ}
    (template : EventTemplate) : (c.begin now template).Lifecycle := by
  have hnew : ∀ (j t : ℕ) (p : Point), (c.begin now template).executions[j]? = some (t, p) →
      p.stage ≠ none → j = c.executions.length ∧ p = .publishing template := by
    intro j t p hpoint hp
    rw [JobSession.begin, List.getElem?_append] at hpoint
    split at hpoint
    · exact absurd (h.idle (Or.inl hdraft) hpoint) hp
    · rw [List.getElem?_singleton] at hpoint
      obtain ⟨hzero, heq⟩ := Option.ite_none_right_eq_some.mp hpoint
      cases heq
      exact ⟨by omega, rfl⟩
  refine ⟨fun i j t t' p q hi hj hp hq => ?_, fun j t p stage hpoint hp => Or.inl ?_⟩
  · rw [(hnew i t p hi hp).1, (hnew j t' q hj hq).1]
  · obtain ⟨-, rfl⟩ := hnew j t p hpoint (by rw [hp]; exact Option.some_ne_none _)
    exact Option.some.inj hp

/-- An orderly step keeps the invariant and moves along the lifecycle. -/
theorem Lifecycle.moves (h : c.Lifecycle) (hm : Moves C options caller c l c')
    (hok : c.Orderly C caller l)
    (hcaller : ∀ j t p, caller = some (.run j) → c.executions[j]? = some (t, p) → p.updating = true) :
    c'.Lifecycle ∧ c.Monotonic l c' := by
  cases hm with
  | quiet => exact ⟨h, Or.inl rfl⟩
  | @started l now template hdraft htemplate =>
    refine ⟨h.begin hdraft template, Or.inr (Or.inl ?_)⟩
    rw [hdraft]
    exact .publishing
  | retried hretry => exact ⟨h.redraft (Or.inr hretry), Or.inr (Or.inr (Or.inr ⟨hretry, rfl, rfl⟩))⟩
  | waits hretry =>
    exact ⟨h.congr rfl rfl rfl, Or.inl rfl⟩
  | @resumed k j hk =>
    have hsame : Lifecycle { c with retries := c.retries.set k none } := h.congr rfl rfl rfl
    refine ⟨hsame.redraft hok, ?_⟩
    rcases hok with hdraft | hretry
    · exact Or.inl hdraft.symm
    · exact Or.inr (Or.inr (Or.inr ⟨hretry, rfl, rfl⟩))
  | cancelled hstate =>
    refine ⟨h.cancel, Or.inr (Or.inr (Or.inl ⟨?_, rfl⟩))⟩
    rw [not_or] at hstate
    cases hterminal : c.snapshot.state with
    | verified => exact absurd hterminal hstate.1
    | failed => exact absurd hterminal hstate.2
    | _ => rfl
  | @continued now j t p o hrun hpoint ho =>
    have hc : Continues C options c.aborts p o := continues_of_afterUpdate ho
    refine h.perform hpoint hc (hok j t p hrun hpoint) fun error herror => ?_
    rw [herror] at ho
    exact stage_of_afterUpdate ho
  | @completed j t completion p o hpoint ho =>
    obtain ⟨stage, hp, hne⟩ := stage_of_complete ho
    have hseen : (c.observe (SoulJob.answered C j p completion)).Lifecycle := h.congr rfl rfl rfl
    have hguarded : ¬ p.Unguarded C := by
      intro hunguarded
      cases p <;> first | exact hunguarded | cases completion <;> cases ho
    exact hseen.perform hpoint (continues_of_complete ho) (fun hu => absurd hu hguarded)
      fun _ _ => ⟨stage, hp, hne⟩
  | @thrown j t p error hrun hpoint hp =>
    obtain ⟨stage, hstage⟩ := p.stage_of_updating (hcaller j t p hrun hpoint) hp
    exact h.raise hpoint hstage (hok j t p hrun hpoint hp) error
  | rethrown hpoint => exact ⟨h.settle hpoint _, Or.inl rfl⟩

end JobSession

namespace SoulJob

variable {s s' : SoulJob} {j t : ℕ} {input : JobInput}

/-! ### What a disorderly step does -/

theorem step_resume {k : ℕ} (h : step C options s (.resume k) = some s') :
    s'.snapshot.state = .draft := by
  cases acts_of_step h
  rfl

/-- The caller of the innermost broadcast goes on. -/
theorem step_proceed {now : ℕ} (h : step C options s (.proceed now) = some s')
    (hcaller : s.caller = some (.run j)) (hpoint : s.session.executions[j]? = some (t, p)) :
    ∃ o, afterUpdate C s.aborts p = some o ∧ s'.session = s.session.perform j o := by
  cases acts_of_step h with
  | @proceeded snapshot next _ caller rest _ hstack hnext hproceed =>
    rw [SoulJob.caller, hstack] at hcaller
    obtain rfl := Option.some.inj hcaller
    obtain ⟨e, he, hproceed⟩ := Option.bind_eq_some_iff.mp hproceed
    obtain ⟨o, ho, hproceed⟩ := Option.bind_eq_some_iff.mp hproceed
    obtain rfl := Option.some.inj hproceed
    obtain ⟨rfl, rfl⟩ := Prod.mk.inj (Option.some.inj ((getElem?_session he).symm.trans hpoint))
    exact ⟨o, ho, by rw [session_perform, session_stack]⟩

/-- The error of a listener reaches the caller of the innermost broadcast. -/
theorem step_throws {error : JsError} (h : step C options s (.throws error) = some s')
    (hcaller : s.caller = some (.run j)) (hpoint : s.session.executions[j]? = some (t, p))
    (hp : ∀ e, p ≠ .failing e) : s'.session = s.session.raise j error := by
  cases acts_of_step h with
  | @threw snapshot next listener caller rest _ _ hstack hunwind =>
    rw [SoulJob.caller, hstack] at hcaller
    obtain rfl := Option.some.inj hcaller
    obtain ⟨e, he, hunwind⟩ := Option.bind_eq_some_iff.mp hunwind
    obtain ⟨rfl, rfl⟩ := Prod.mk.inj (Option.some.inj ((getElem?_session he).symm.trans hpoint))
    split at hunwind
    · rename_i hfailing
      exact absurd hfailing (hp _)
    · obtain rfl := Option.some.inj hunwind
      rw [session_raise, session_stack]
  | threwGreeting hstack =>
    rw [SoulJob.caller, hstack] at hcaller
    cases hcaller

/-- The next stage is entered, whatever the state is. -/
theorem next_of_unguarded (h : p.Unguarded C) {o : Outcome} (ho : afterUpdate C a p = some o) :
    ∃ q, o = .update (.state .resultReceived) q ∨ o = .update (.state .fetching) q := by
  cases p with
  | resulted request result =>
    obtain ⟨r, hr⟩ := h
    rw [afterUpdate, hr] at ho
    cases ho
    exact ⟨_, Or.inl rfl⟩
  | received request result =>
    have hprogram : result.content.proof.program_hash = C.trustedProgramHash := h
    rw [afterUpdate, if_neg (not_not.mpr hprogram)] at ho
    cases ho
    exact ⟨_, Or.inr rfl⟩
  | _ => exact absurd h id

/-- A step along the lifecycle is orderly. -/
theorem orderly_of_monotonic : ∀ {l : Label C.signer.Answer}, step C options s l = some s' →
    s.session.Monotonic l s'.session → s.session.Orderly C s.caller l
  | .resume k, h, hm => by
    have hstate : s'.session.snapshot.state = .draft := step_resume h
    rcases hm with heq | hfollows | ⟨-, hfailed⟩ | ⟨hretry, -, -⟩
    · exact Or.inl (heq.symm.trans hstate)
    · rw [hstate] at hfollows
      exact absurd hfollows (not_follows_draft _)
    · rw [hstate] at hfailed
      cases hfailed
    · exact Or.inr hretry
  | .proceed now, h, hm => by
    intro j t p hcaller hpoint hunguarded hfailed
    obtain ⟨o, ho, hsession⟩ := step_proceed h hcaller hpoint
    have hnext : s'.session.snapshot.state = .resultReceived ∨ s'.session.snapshot.state = .fetching := by
      obtain ⟨q, rfl | rfl⟩ := next_of_unguarded hunguarded ho
      · exact Or.inl (by rw [hsession]; rfl)
      · exact Or.inr (by rw [hsession]; rfl)
    rw [JobSession.Monotonic, hfailed] at hm
    rcases hm with heq | hfollows | ⟨hterminal, -⟩ | ⟨-, hdraft, -⟩
    · rcases hnext with hnext | hnext <;> rw [hnext] at heq <;> cases heq
    · cases hfollows
    · cases hterminal
    · rcases hnext with hnext | hnext <;> rw [hnext] at hdraft <;> cases hdraft
  | .throws error, h, hm => by
    intro j t p hcaller hpoint hp hverified
    have hsession := step_throws h hcaller hpoint hp
    have hfailed : s'.session.snapshot.state = .failed := by
      rw [hsession, JobSession.raise, if_neg (by rw [hverified]; exact JobState.noConfusion)]
      rfl
    rw [JobSession.Monotonic, hverified, hfailed] at hm
    rcases hm with heq | hfollows | ⟨hterminal, -⟩ | ⟨-, hdraft, -⟩
    · cases heq
    · cases hfollows
    · cases hterminal
    · cases hdraft
  | .start _, _, _ | .retry, _, _ | .cancel, _, _ | .subscribe _, _, _ | .unsubscribe _, _, _
  | .deliver, _, _ | .returns, _, _ | .complete _ _, _, _ | .finalize _, _, _ => trivial

/-! ### Runs -/

theorem lifecycle_new (input : JobInput) : (new input).session.Lifecycle := by
  refine ⟨fun i j t t' p q hi => ?_, fun j t p stage hpoint => ?_⟩
  · cases hi
  · cases hpoint

theorem lifecycle_visits {ls : List (Label C.signer.Answer)}
    (hok : ∀ s l s', Takes (step C options) (new input) ls s l s' → s.session.Orderly C s.caller l)
    (hs : Visits (step C options) (new input) ls s) : s.session.Lifecycle :=
  hs.invariant (I := fun s => s.session.Lifecycle) (lifecycle_new input) fun m l m' ht h =>
    (h.moves (moves_of_step ht.enabled) (hok m l m' ht) fun _ _ _ hcaller hpoint =>
      (framed_visits ht.visits).caller hcaller hpoint).1

/-- Along a run every change of the state is one of the lifecycle exactly when every step is orderly. -/
theorem lifecycle_monotonic_iff (C : SoulNostrClient) (options : JobOptions) (input : JobInput)
    (ls : List (Label C.signer.Answer)) :
    (∀ s l s', Takes (step C options) (new input) ls s l s' → s.session.Monotonic l s'.session) ↔
      ∀ s l s', Takes (step C options) (new input) ls s l s' → s.session.Orderly C s.caller l := by
  constructor
  · intro h s l s' ht
    exact orderly_of_monotonic ht.enabled (h s l s' ht)
  · intro hok s l s' ht
    exact ((lifecycle_visits hok ht.visits).moves (moves_of_step ht.enabled) (hok s l s' ht)
      fun _ _ _ hcaller hpoint => (framed_visits ht.visits).caller hcaller hpoint).2

/-! ### A listener that retries twice -/

/-- No relay takes the request; a listener hears of the failure and calls `retry` twice. The first call
    comes back and starts an execution, which awaits its signature. -/
def doubleRetry : List (Label exampleClient.signer.Answer) :=
  [.start 1900000000, .proceed 1900000000,
    .complete 0 (.signed (answerOf Core.goldenRequest) 1900000005), .proceed 1900000005,
    .proceed 1900000005, .subscribe 0, .returns,
    .complete 0 (.publishFailed (.other (js "offline"))), .deliver, .retry, .retry, .unsubscribe 0,
    .returns, .proceed 1900000005, .finalize 0, .resume 0, .deliver, .proceed 1900000010, .deliver,
    .proceed 1900000010]

theorem doubleRetry_run :
    (exec (step exampleClient exampleOptions) (new (.fibonacci 10)) doubleRetry).map (fun s =>
      (s.snapshot.state, s.executions.map (·.point.stage),
        (step exampleClient exampleOptions s (.resume 1)).map fun s' =>
          (s'.snapshot.state, s'.executions.map (·.point.stage)))) =
      some (.publishing, [none, some .publishing],
        some (.draft, [none, some .publishing])) := by
  decide +kernel

/-- The second call then resets the running execution to a draft. -/
theorem double_retry_resets_running : ∃ s s',
    Takes (step exampleClient exampleOptions) (new (.fibonacci 10)) (doubleRetry ++ [.resume 1]) s
        (.resume 1) s' ∧
      s.snapshot.state = .publishing ∧ s'.snapshot.state = .draft ∧
      s'.executions.map (·.point.stage) = [none, some .publishing] ∧
      ¬ s.session.Monotonic (.resume 1 : Label exampleClient.signer.Answer) s'.session := by
  obtain ⟨s, hs, heq⟩ := Option.map_eq_some_iff.mp doubleRetry_run
  simp only [Prod.mk.injEq, Option.map_eq_some_iff] at heq
  obtain ⟨hstate, -, s', hs', hdraft, hstages⟩ := heq
  refine ⟨s, s', ⟨doubleRetry, List.prefix_refl _, hs, hs'⟩, hstate, hdraft, hstages, ?_⟩
  have hbefore : s.session.snapshot.state = .publishing := hstate
  have hafter : s'.session.snapshot.state = .draft := hdraft
  rw [JobSession.Monotonic, hbefore, hafter]
  rintro (heq | hfollows | ⟨-, hfailed⟩ | ⟨⟨hfailed, -⟩, -, -⟩)
  · cases heq
  · cases hfollows
  · cases hfailed
  · rw [hbefore] at hfailed
    cases hfailed

end SoulJob

end SoulSociety.Session
