import SoulSociety.Session.Lifecycle

/-! What `cancel` stops. The code of `run` looks at the abort signal where it calls `assertActive`;
    after some of its updates it goes on to an effect, or to the next stage, without a look. A job that
    is cancelled while one of these updates is under way, or while a call of `retry` waits, can go on. -/

namespace SoulSociety.Session
open Lib Sdk

/-- The code after this `update` goes on whether or not the job was cancelled. -/
def Point.Oblivious (C : SoulNostrClient) : Point → Prop
  | .attempting _ _ | .awaiting _ | .fetchAttempting _ _ _ | .verified _ => True
  | .verifying _ result _ => checkProgram result.content C.trustedProgramHash = .ok ()
  | p => p.Unguarded C

/-- Not a call to the transport, the server or the verifier, and no verified job. -/
def Observation.inert : Observation → Bool
  | .effect _ _ => false
  | .settled _ outcome => !outcome.isOk
  | _ => true

variable {C : SoulNostrClient} {options : JobOptions} {a : Aborts} {p q : Point}

theorem Point.Oblivious.updating (h : p.Oblivious C) : p.updating = true := by
  cases p <;> first | rfl | exact absurd h id

theorem Point.oblivious_abort (p : Point) (controller : ℕ) :
    (p.abort controller).Oblivious C ↔ p.Oblivious C :=
  iff_of_eq (abort_congr (Oblivious C) controller p (fun _ _ _ _ => rfl) (fun _ _ _ _ => rfl)
    (fun _ _ _ _ _ => rfl))

/-- On an aborted signal, an execution that looks at it awaits something, or ends with an error. -/
inductive Winds (C : SoulNostrClient) : Outcome → Prop
  | await {q : Point} (h : ¬ q.Oblivious C) : Winds C (.await q none)
  | throws (error : JsError) : Winds C (.throws error)
  | rejects (error : JsError) : Winds C (.settles (.error error))

theorem winds_of_continues {o : Outcome} (h : Continues C options a p o) (ha : a.active = false)
    (hp : ¬ p.Oblivious C) : Winds C o := by
  have hactive : a.active ≠ true := by rw [ha]; exact Bool.false_ne_true
  cases h with
  | throws error => exact .throws error
  | rethrows => exact .rejects _
  | sign | publishFailed | publishTimer | event | waitFailed | fetchFailed | fetchTimer =>
    exact .await id
  | signed h | firstAttempt h | published h | nextAttempt h | result h | firstFetch h
  | nextFetch h | fetched h | verified h => exact absurd h hactive
  | publish | subscribe | fetch | returns => exact absurd trivial hp
  | received hcontent => exact absurd ⟨_, hcontent⟩ hp
  | fetching hprogram => exact absurd hprogram hp
  | verify hprogram => exact absurd hprogram hp

namespace JobSession

/-- The job was cancelled, and no new controller was made since. -/
structure Cancelled (c : JobSession) : Prop where
  failed : c.snapshot.state = .failed
  failure : c.snapshot.failure = some cancelledFailure
  aborted : c.aborts.active = false

/-- From `c` on the job stays failed and cancelled, and what was seen since is inert. -/
structure Final (c c' : JobSession) : Prop where
  failed : c'.snapshot.state = .failed
  failure : ∃ failure ∈ c'.snapshot.failure, failure.code = .sdk .cancelled
  quiet : ∃ seen, c'.log = c.log ++ seen ∧ ∀ o ∈ seen, o.inert = true

/-- No call of `retry` comes back, and no code goes on after an `update` without a look at the
    signal. -/
def Heedful (C : SoulNostrClient) (caller : Option Caller) (c : JobSession) :
    Label C.signer.Answer → Prop
  | .resume _ => False
  | .proceed _ => ∀ j t p, caller = some (.run j) → c.executions[j]? = some (t, p) →
      ¬ p.Oblivious C
  | _ => True

/-- No call of `retry` waits, and no execution stands at an `update` after which its code goes on
    without a look at the signal. -/
structure Attentive (C : SoulNostrClient) (c : JobSession) : Prop where
  retries : ∀ k j : ℕ, c.retries[k]? ≠ some (some j)
  points : ∀ (j t : ℕ) (p : Point), c.executions[j]? = some (t, p) → ¬ p.Oblivious C

variable {c c' : JobSession} {j t : ℕ} {caller : Option Caller} {l : Label C.signer.Answer}

theorem cancelled_cancel (c : JobSession) : c.cancel.Cancelled := by
  refine ⟨rfl, rfl, ?_⟩
  rw [cancel, Aborts.active]
  simp

theorem Cancelled.congr (h : c.Cancelled) (hsnapshot : c'.snapshot = c.snapshot)
    (haborts : c'.aborts = c.aborts) : c'.Cancelled :=
  ⟨hsnapshot ▸ h.failed, hsnapshot ▸ h.failure, haborts ▸ h.aborted⟩

/-- A cancelled job cannot be retried. -/
theorem Cancelled.not_retryable (h : c.Cancelled) : ¬ c.retryable := by
  rintro ⟨-, failure, hmem, hretry⟩
  rw [h.failure] at hmem
  cases hmem
  cases hretry

/-! ### What happens after a cancellation -/

/-- What can happen after a cancellation: the snapshot and the signal stay, an execution that moves
    looks at the signal, and what is seen is inert. -/
structure Idles (C : SoulNostrClient) (c c' : JobSession) : Prop where
  snapshot : c'.snapshot = c.snapshot
  aborts : c'.aborts = c.aborts
  retries : c'.retries = c.retries
  points : ∀ (j t : ℕ) (p : Point), c'.executions[j]? = some (t, p) →
    c.executions[j]? = some (t, p) ∨ ¬ p.Oblivious C
  log : ∃ seen, c'.log = c.log ++ seen ∧ ∀ o ∈ seen, o.inert = true

theorem Idles.refl (c : JobSession) : Idles C c c :=
  ⟨rfl, rfl, rfl, fun _ _ _ => Or.inl, [], (List.append_nil _).symm, by simp⟩

theorem Idles.trans {c'' : JobSession} (h : Idles C c c') (h' : Idles C c' c'') : Idles C c c'' := by
  obtain ⟨seen, hlog, hseen⟩ := h.log
  obtain ⟨seen', hlog', hseen'⟩ := h'.log
  refine ⟨h'.snapshot.trans h.snapshot, h'.aborts.trans h.aborts, h'.retries.trans h.retries,
    fun j t p hp => ?_, seen ++ seen', ?_, ?_⟩
  · rcases h'.points j t p hp with hp | hp
    · exact h.points j t p hp
    · exact Or.inr hp
  · rw [hlog', hlog, List.append_assoc]
  · intro o ho
    rcases List.mem_append.mp ho with ho | ho
    · exact hseen o ho
    · exact hseen' o ho

theorem Idles.setPoint (hpoint : c.executions[j]? = some (t, p)) (hq : ¬ q.Oblivious C) :
    Idles C c (c.setPoint j q) := by
  refine ⟨rfl, rfl, rfl, fun i t' p' hp' => ?_, [], (List.append_nil _).symm, by simp⟩
  rcases (getElem?_setPoint hpoint).mp hp' with ⟨-, -, rfl⟩ | ⟨-, hp'⟩
  · exact Or.inr hq
  · exact Or.inl hp'

theorem Idles.observe {seen : List Observation} (h : ∀ o ∈ seen, o.inert = true) :
    Idles C c (c.observe seen) :=
  ⟨rfl, rfl, rfl, fun _ _ _ => Or.inl, seen, rfl, h⟩

theorem Idles.rejects (hpoint : c.executions[j]? = some (t, p)) (error : JsError) :
    Idles C c (c.settle j (.error error)) :=
  (Idles.setPoint (q := .settled (.error error)) hpoint id).trans (.observe (by
    simp [Observation.inert, Except.isOk, Except.toBool]))

/-- The first failure counts, which is the cancellation. -/
theorem Idles.raise (h : c.Cancelled) (hpoint : c.executions[j]? = some (t, p)) (error : JsError) :
    Idles C c (c.raise j error) := by
  rw [JobSession.raise, if_pos h.failed]
  exact .rejects hpoint error

theorem Idles.perform (h : c.Cancelled) (hpoint : c.executions[j]? = some (t, p)) {o : Outcome}
    (ho : Winds C o) : Idles C c (c.perform j o) := by
  cases ho with
  | await hq => exact (Idles.setPoint hpoint hq).trans (.observe (by simp))
  | throws error => exact .raise h hpoint error
  | rejects error => exact .rejects hpoint error

theorem answered_inert (C : SoulNostrClient) (j : ℕ) (p : Point)
    (completion : Completion C.signer.Answer) :
    ∀ o ∈ SoulJob.answered C j p completion, o.inert = true := by
  rw [SoulJob.answered.eq_def]
  split <;> simp [Observation.inert]

/-- A promise that an execution awaits does not stand at an `update`. -/
theorem not_oblivious_of_complete {completion : Completion C.signer.Answer} {o : Outcome}
    (h : complete C options a p completion = some o) : ¬ p.Oblivious C := by
  intro hp
  cases p <;> first | exact hp | cases completion <;> cases h

theorem Cancelled.idles (h : c.Cancelled) (hm : Moves C options caller c l c')
    (hok : c.Heedful C caller l) : Idles C c c' := by
  cases hm with
  | quiet => exact .refl c
  | started hdraft _ =>
    rw [h.failed] at hdraft
    cases hdraft
  | retried hretry => exact absurd hretry h.not_retryable
  | waits hretry => exact absurd hretry h.not_retryable
  | resumed _ => exact absurd hok id
  | cancelled hstate => exact absurd (Or.inr h.failed) hstate
  | @continued now j t p o hcaller hpoint ho =>
    have hc : Continues C options c.aborts p o := continues_of_afterUpdate ho
    exact .perform h hpoint (winds_of_continues hc h.aborted (hok j t p hcaller hpoint))
  | @completed j t completion p o hpoint ho =>
    have hwinds : Winds C o := winds_of_continues (continues_of_complete ho) h.aborted
      (not_oblivious_of_complete ho)
    have hseen : (c.observe (SoulJob.answered C j p completion)).Cancelled := h.congr rfl rfl
    exact (Idles.observe (answered_inert C j p completion)).trans (.perform hseen hpoint hwinds)
  | thrown hcaller hpoint _ => exact .raise h hpoint _
  | rethrown hpoint => exact .rejects hpoint _

/-- Nothing waits, and no execution goes on to an effect. -/
theorem Attentive.idles (h : c.Attentive C) (hidles : Idles C c c') : c'.Attentive C := by
  refine ⟨fun k j hk => ?_, fun j t p hp => ?_⟩
  · rw [hidles.retries] at hk
    exact h.retries k j hk
  · rcases hidles.points j t p hp with hp | hp
    · exact h.points j t p hp
    · exact hp

theorem Attentive.cancel (h : c.Attentive C) : c.cancel.Attentive C := by
  refine ⟨h.retries, fun j t p hp => ?_⟩
  obtain ⟨p₀, hp₀, rfl⟩ := getElem?_cancel.mp hp
  rw [Point.oblivious_abort]
  exact h.points j t p₀ hp₀

theorem Cancelled.final (h : c.Cancelled) (hidles : Idles C c c') : c.Final c' := by
  refine ⟨?_, ⟨cancelledFailure, ?_, rfl⟩, hidles.log⟩
  · rw [hidles.snapshot]
    exact h.failed
  · rw [hidles.snapshot]
    exact h.failure

/-- Something that is not inert was seen. -/
theorem Final.not_of_seen {c₀ : JobSession} (h : c₀.Final c) {o : Observation}
    (hlog : c'.log = c.log ++ [o]) (ho : o.inert = false) : ¬ c₀.Final c' := by
  intro h'
  obtain ⟨seen, hseen, -⟩ := h.quiet
  obtain ⟨seen', hseen', hinert⟩ := h'.quiet
  have happend : c₀.log ++ (seen ++ [o]) = c₀.log ++ seen' := by
    rw [← List.append_assoc, ← hseen, ← hlog, hseen']
  have hmem : o ∈ seen' := by
    rw [← List.append_cancel_left happend]
    exact List.mem_append_right seen (List.mem_singleton_self o)
  rw [hinert o hmem] at ho
  cases ho

end JobSession

/-- Without a look at the signal, the code goes on to an effect, to the next stage, or returns. -/
theorem goes_on_of_oblivious (h : p.Oblivious C) {o : Outcome} (ho : afterUpdate C a p = some o) :
    (∃ q effect, o = .await q (some effect)) ∨ (∃ job, o = .settles (.ok job)) ∨
      ∃ q, o = .update (.state .resultReceived) q ∨ o = .update (.state .fetching) q := by
  cases p with
  | attempting request attempt => cases ho; exact Or.inl ⟨_, _, rfl⟩
  | awaiting request => cases ho; exact Or.inl ⟨_, _, rfl⟩
  | fetchAttempting request result attempt => cases ho; exact Or.inl ⟨_, _, rfl⟩
  | verifying request result proofBytes =>
    have hprogram : checkProgram result.content C.trustedProgramHash = .ok () := h
    rw [afterUpdate, hprogram] at ho
    cases ho
    exact Or.inl ⟨_, _, rfl⟩
  | verified job => cases ho; exact Or.inr (Or.inl ⟨_, rfl⟩)
  | resulted request result =>
    have hunguarded : (Point.resulted request result).Unguarded C := h
    exact Or.inr (Or.inr (SoulJob.next_of_unguarded hunguarded ho))
  | received request result =>
    have hunguarded : (Point.received request result).Unguarded C := h
    exact Or.inr (Or.inr (SoulJob.next_of_unguarded hunguarded ho))
  | _ => exact absurd h id

namespace JobSession

variable {c c₀ : JobSession} {j : ℕ}

theorem Final.not_of_perform (h : c₀.Final c) {o : Outcome}
    (ho : (∃ q effect, o = .await q (some effect)) ∨ (∃ job, o = .settles (.ok job)) ∨
      ∃ q, o = .update (.state .resultReceived) q ∨ o = .update (.state .fetching) q) :
    ¬ c₀.Final (c.perform j o) := by
  rcases ho with ⟨q, effect, rfl⟩ | ⟨job, rfl⟩ | ⟨q, rfl | rfl⟩
  · exact h.not_of_seen (o := .effect j effect) rfl rfl
  · exact h.not_of_seen (o := .settled j (.ok job)) rfl rfl
  · exact fun h' => JobState.noConfusion h'.failed
  · exact fun h' => JobState.noConfusion h'.failed

end JobSession

namespace SoulJob

variable {s s' m m' : SoulJob}

theorem session_of_cancel (h : step C options s .cancel = some s')
    (hstate : s.snapshot.state.terminal = false) : s'.session = s.session.cancel := by
  obtain ⟨-, h⟩ := Option.ite_none_right_eq_some.mp h
  obtain rfl := Option.some.inj h
  rw [session_cancel, if_neg]
  rintro (hverified | hfailed)
  · rw [hverified] at hstate
    cases hstate
  · rw [hfailed] at hstate
    cases hstate

/-- A step that keeps the cancellation final is heedful. -/
theorem heedful_of_final {c₀ : JobSession} : ∀ {l : Label C.signer.Answer},
    step C options m l = some m' → c₀.Final m.session → c₀.Final m'.session →
      m.session.Heedful C m.caller l
  | .resume k, h, _, hfinal => by
    have hstate : m'.session.snapshot.state = .draft := step_resume h
    rw [hfinal.failed] at hstate
    cases hstate
  | .proceed now, h, hbefore, hfinal => by
    intro j t p hcaller hpoint hp
    obtain ⟨o, ho, hsession⟩ := step_proceed h hcaller hpoint
    rw [hsession] at hfinal
    exact hbefore.not_of_perform (goes_on_of_oblivious hp ho) hfinal
  | .start _, _, _, _ | .retry, _, _, _ | .cancel, _, _, _ | .subscribe _, _, _, _
  | .unsubscribe _, _, _, _ | .deliver, _, _, _ | .returns, _, _, _ | .throws _, _, _, _
  | .complete _ _, _, _, _ | .finalize _, _, _, _ => trivial

theorem heedful_of_attentive (h : m.session.Attentive C) : ∀ {l : Label C.signer.Answer},
    step C options m l = some m' → m.session.Heedful C m.caller l
  | .resume k, hs => by
    cases acts_of_step hs with
    | resumed hretry => exact h.retries _ _ hretry
  | .proceed now, _ => fun j t p _ hpoint => h.points j t p hpoint
  | .start _, _ | .retry, _ | .cancel, _ | .subscribe _, _ | .unsubscribe _, _ | .deliver, _
  | .returns, _ | .throws _, _ | .complete _ _, _ | .finalize _, _ => trivial

/-- As long as the steps are heedful, nothing happens after a cancellation. -/
theorem idles_visits {ls : List (Label C.signer.Answer)} (h : s.session.Cancelled)
    (hok : ∀ m l m', Takes (step C options) s ls m l m' → m.session.Cancelled →
      JobSession.Idles C s.session m.session → m.session.Heedful C m.caller l)
    (hs : Visits (step C options) s ls s') : JobSession.Idles C s.session s'.session := by
  have hinv : s'.session.Cancelled ∧ JobSession.Idles C s.session s'.session := by
    refine hs.invariant (I := fun m => m.session.Cancelled ∧ JobSession.Idles C s.session m.session)
      ⟨h, .refl _⟩ ?_
    rintro m l m' ht ⟨hcancelled, hidles⟩
    have hstep : JobSession.Idles C m.session m'.session :=
      hcancelled.idles (moves_of_step ht.enabled) (hok m l m' ht hcancelled hidles)
    exact ⟨hcancelled.congr hstep.snapshot hstep.aborts, hidles.trans hstep⟩
  exact hinv.2

/-- After a cancellation nothing but errors comes of a job, exactly when every step is heedful. No
    other step is possible where the job is cancelled while no call of `retry` waits and no execution
    is about to go on without a look at the signal. -/
theorem cancel_final_iff (hstate : s.snapshot.state.terminal = false)
    (hcancel : step C options s .cancel = some s') (ls : List (Label C.signer.Answer)) :
    ((∀ s'', Visits (step C options) s' ls s'' → s'.session.Final s''.session) ↔
      ∀ m l m', Takes (step C options) s' ls m l m' → m.session.Heedful C m.caller l) ∧
    (s.session.Attentive C →
      ∀ s'', Visits (step C options) s' ls s'' → s'.session.Final s''.session) := by
  have hsession := session_of_cancel hcancel hstate
  have hcancelled : s'.session.Cancelled := hsession ▸ JobSession.cancelled_cancel s.session
  refine ⟨⟨fun h m l m' ht => ?_, fun hok s'' hs => ?_⟩, fun hattentive s'' hs => ?_⟩
  · exact heedful_of_final ht.enabled (h m ht.visits) (h m' ht.visits_next)
  · exact hcancelled.final (idles_visits hcancelled (fun m l m' ht _ _ => hok m l m' ht) hs)
  · have hafter : s'.session.Attentive C := hsession ▸ hattentive.cancel
    exact hcancelled.final (idles_visits hcancelled
      (fun m l m' ht _ hidles => heedful_of_attentive (hafter.idles hidles) ht.enabled) hs)

/-! ### Cancellation while the publication is awaited, and just before it -/

/-- The request is signed, and the relays are awaited. -/
def awaitPublish : List (Label exampleClient.signer.Answer) :=
  [.start 1900000000, .proceed 1900000000,
    .complete 0 (.signed (answerOf Core.goldenRequest) 1900000005), .proceed 1900000005,
    .proceed 1900000005]

theorem awaitPublish_run :
    (exec (step exampleClient exampleOptions) (new (.fibonacci 10)) awaitPublish).map (fun s =>
      (s.snapshot.state, s.retries, s.executions.map (·.point.updating), s.callable)) =
      some (.publishing, [], [false], true) := by
  decide +kernel

/-- Whatever the relays answer after the cancellation, nothing comes of it. -/
theorem cancel_while_publishing : ∃ s s',
    exec (step exampleClient exampleOptions) (new (.fibonacci 10)) awaitPublish = some s ∧
      step exampleClient exampleOptions s .cancel = some s' ∧
      ∀ ls s'', Visits (step exampleClient exampleOptions) s' ls s'' →
        s'.session.Final s''.session := by
  obtain ⟨s, hs, heq⟩ := Option.map_eq_some_iff.mp awaitPublish_run
  simp only [Prod.mk.injEq] at heq
  obtain ⟨hstate, hretries, hupdating, hcallable⟩ := heq
  have hcancel : step exampleClient exampleOptions s .cancel = some s.cancel := by
    rw [step, if_pos hcallable]
  have hattentive : s.session.Attentive exampleClient := by
    refine ⟨fun k j hk => ?_, fun j t p hpoint hp => ?_⟩
    · change s.retries[k]? = some (some j) at hk
      rw [hretries] at hk
      cases hk
    · obtain ⟨e, he, heq⟩ := List.mem_map.mp (List.mem_of_getElem? hpoint)
      obtain ⟨-, rfl⟩ := Prod.mk.inj heq
      have hmem := List.mem_map_of_mem (f := fun e : Execution => e.point.updating) he
      rw [hupdating, hp.updating, List.mem_singleton] at hmem
      cases hmem
  exact ⟨s, s.cancel, hs, hcancel,
    fun ls => (cancel_final_iff (by rw [hstate]; rfl) hcancel ls).2 hattentive⟩

/-- A listener hears of the first attempt to publish. -/
def hearAttempt : List (Label exampleClient.signer.Answer) :=
  [.start 1900000000, .proceed 1900000000, .subscribe 0, .returns,
    .complete 0 (.signed (answerOf Core.goldenRequest) 1900000005), .deliver, .returns,
    .proceed 1900000005, .deliver]

/-- It hears of the cancellation it made, and returns. -/
def afterCancel : List (Label exampleClient.signer.Answer) :=
  [.deliver, .returns, .proceed 1900000005, .returns, .proceed 1900000005]

theorem hearAttempt_run :
    (exec (step exampleClient exampleOptions) (new (.fibonacci 10)) hearAttempt).map (fun s =>
      (s.snapshot.state, (step exampleClient exampleOptions s .cancel).map fun s' =>
        (s'.session.log, (exec (step exampleClient exampleOptions) s' afterCancel).map fun s'' =>
          s''.session.log))) =
      some (.publishing, some ([], some [.effect 0 (.publish Core.goldenRequest.toSdk)])) := by
  decide +kernel

/-- The job is cancelled from inside the `update` before the publication, and publishes. -/
theorem cancelled_job_publishes : ∃ s s' s'',
    exec (step exampleClient exampleOptions) (new (.fibonacci 10)) hearAttempt = some s ∧
      s.snapshot.state.terminal = false ∧ step exampleClient exampleOptions s .cancel = some s' ∧
      Visits (step exampleClient exampleOptions) s' afterCancel s'' ∧ s'.session.log = [] ∧
      s''.session.log = [.effect 0 (.publish Core.goldenRequest.toSdk)] ∧
      ¬ s'.session.Final s''.session := by
  obtain ⟨s, hs, heq⟩ := Option.map_eq_some_iff.mp hearAttempt_run
  simp only [Prod.mk.injEq, Option.map_eq_some_iff] at heq
  obtain ⟨hstate, s', hs', hlog', s'', hs'', hlog''⟩ := heq
  refine ⟨s, s', s'', hs, by rw [hstate]; rfl, hs', Visits.last hs'', hlog',
    hlog'', fun hfinal => ?_⟩
  obtain ⟨seen, hseen, hinert⟩ := hfinal.quiet
  rw [hlog', hlog'', List.nil_append] at hseen
  have hpublish := hinert (.effect 0 (.publish Core.goldenRequest.toSdk)) (by simp [← hseen])
  cases hpublish

end SoulJob

end SoulSociety.Session
