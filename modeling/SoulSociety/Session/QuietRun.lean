import SoulSociety.Session.Provenance

/-! Runs of a job to which nobody listens. Its broadcasts return at once, so the latest execution goes
    from one `await` to the next. -/

namespace SoulSociety.Session.SoulJob
open Lib Sdk

variable {C : SoulNostrClient} {options : JobOptions} {s : SoulJob} {snapshot : JobSnapshot}
  {running : Option ℕ} {stack : List Frame} {log : List Observation} {e : Execution} {patch : Patch}
  {q : Point} {o : Outcome} {now t : ℕ}

/-- The job with one more execution. -/
def latest (s : SoulJob) (snapshot : JobSnapshot) (running : Option ℕ) (stack : List Frame)
    (log : List Observation) (e : Execution) : SoulJob :=
  { s with
    snapshot := snapshot
    running := running
    executions := s.executions ++ [e]
    stack := stack
    log := log }

theorem getElem?_latest :
    (s.latest snapshot running stack log e).executions[s.executions.length]? = some e :=
  List.getElem?_concat_length

theorem modify_latest (f : Execution → Execution) : ∀ es : List Execution,
    (es ++ [e]).modify es.length f = es ++ [f e]
  | [] => rfl
  | x :: es => by
    rw [List.cons_append, List.length_cons, List.modify_succ_cons, modify_latest f es]
    rfl

theorem setPoint_latest : (s.latest snapshot running stack log e).setPoint s.executions.length q =
    s.latest snapshot running stack log { e with point := q } :=
  congrArg (SoulJob.mk snapshot s.listeners s.aborts running · s.retries stack log)
    (modify_latest _ s.executions)

theorem hold_latest : (s.latest snapshot running stack log e).hold s.executions.length =
    s.latest snapshot (if e.held then running else some s.executions.length) stack log
      { e with held := true } := by
  obtain ⟨createdAt, point, held, finalized⟩ := e
  rw [hold, getElem?_latest]
  cases held with
  | true => rfl
  | false =>
    exact congrArg (SoulJob.mk snapshot s.listeners s.aborts (some s.executions.length) · s.retries
      stack log) (modify_latest _ s.executions)

/-! ### What an execution does -/

theorem perform_update_latest :
    (s.latest snapshot running stack log e).perform s.executions.length (.update patch q) =
      s.latest (patch.apply snapshot) running
        (.broadcast (patch.apply snapshot) 0 none (.run s.executions.length) :: stack) log
          { e with point := q } := by
  rw [perform, setPoint_latest]
  rfl

theorem perform_await_latest {effect : Option Effect} :
    (s.latest snapshot running stack log e).perform s.executions.length (.await q effect) =
      s.latest snapshot (if e.held then running else some s.executions.length) stack
        (log ++ (effect.map (.effect s.executions.length)).toList)
          { e with point := q, held := true } := by
  rw [perform, setPoint_latest, hold_latest]
  rfl

theorem perform_settles_latest {outcome : Except JsError VerifiedJob} :
    (s.latest snapshot running stack log e).perform s.executions.length (.settles outcome) =
      s.latest snapshot (if e.held then running else some s.executions.length) stack
        (log ++ [.settled s.executions.length outcome])
          { e with point := .settled outcome, held := true } := by
  rw [perform, settle, setPoint_latest, hold_latest]
  rfl

theorem perform_throws_latest {error : JsError} (h : snapshot.state ≠ .failed) :
    (s.latest snapshot running stack log e).perform s.executions.length (.throws error) =
      s.latest (Patch.apply snapshot (.failed (failureFor error))) running
        (.broadcast (Patch.apply snapshot (.failed (failureFor error))) 0 none
          (.run s.executions.length) :: stack) log { e with point := .failing error } := by
  have hstate : ¬ (s.latest snapshot running stack log e).snapshot.state = .failed := h
  rw [perform, raise, if_neg hstate, setPoint_latest]
  rfl

/-! ### Its steps -/

theorem step_proceed_latest (hlisteners : s.listeners = [])
    (h : afterUpdate C s.aborts e.point = some o) :
    step C options (s.latest snapshot running
      (.broadcast snapshot 0 none (.run s.executions.length) :: stack) log e) (.proceed now) =
        some ((s.latest snapshot running stack log e).perform s.executions.length o) := by
  have hnone : ¬ 0 < s.listeners.length := by rw [hlisteners]; exact Nat.lt_irrefl 0
  change (if 0 < s.listeners.length then none else
    (s.latest snapshot running stack log e).proceed C options now (.run s.executions.length)) = _
  rw [if_neg hnone, proceed, getElem?_latest]
  change (afterUpdate C s.aborts e.point).bind _ = _
  rw [h]
  rfl

theorem step_complete_latest {completion : Completion C.signer.Answer}
    (h : complete C options s.aborts e.point completion = some o) :
    step C options (s.latest snapshot running [] log e) (.complete s.executions.length completion) =
      some ((s.latest snapshot running []
        (log ++ answered C s.executions.length e.point completion) e).perform
          s.executions.length o) := by
  have hstack : (s.latest snapshot running [] log e).stack = [] := rfl
  rw [step, if_pos hstack, getElem?_latest]
  change (complete C options s.aborts e.point completion).bind _ = _
  rw [h]
  rfl

theorem step_finalize_latest {outcome : Except JsError VerifiedJob} :
    step C options (s.latest snapshot running [] log ⟨t, .settled outcome, true, false⟩)
      (.finalize s.executions.length) =
        some (s.latest snapshot none [] log ⟨t, .settled outcome, true, true⟩) := by
  have hget : (s.latest snapshot running [] log
      ⟨t, .settled outcome, true, false⟩).executions[s.executions.length]? =
        some ⟨t, .settled outcome, true, false⟩ := getElem?_latest
  simp only [step, hget]
  exact congrArg (fun es => some (SoulJob.mk snapshot s.listeners s.aborts none es s.retries [] log))
    (modify_latest _ s.executions)

/-- The start of a draft. -/
theorem start_latest {template : EventTemplate} (hrunning : s.running = none)
    (hdraft : s.snapshot.state = .draft)
    (htemplate : requestTemplate options s.snapshot.input now = .ok template) :
    s.start options now = s.latest (Patch.apply s.snapshot (.state .publishing)) none
      (.broadcast (Patch.apply s.snapshot (.state .publishing)) 0 none (.run s.executions.length) ::
        s.stack) s.log ⟨now, .publishing template, false, false⟩ := by
  have hstate : ¬ s.snapshot.state ≠ .draft := not_not.mpr hdraft
  rw [start, if_neg (by rw [hrunning]; exact Bool.false_ne_true), if_neg hstate]
  simp only [htemplate]
  rw [update, latest, hrunning]

/-! ### Stretches of a run -/

section
variable {template : EventTemplate} {answer : C.signer.Answer} {signed event : Event}
  {request : ValidatedRequest} {result : ValidatedResult}

/-- The snapshot when the request is published for the first time. -/
def publishedSnapshot (snapshot : JobSnapshot) (request : ValidatedRequest) : JobSnapshot :=
  Patch.apply (Patch.apply (Patch.apply snapshot (.state .publishing)) (.request request))
    (.publishAttempt 1)

/-- From `start` to the first `transport.publish`. -/
theorem exec_publish (hlisteners : s.listeners = []) (hactive : s.aborts.active = true)
    (hstack : s.stack = []) (hrunning : s.running = none) (hdraft : s.snapshot.state = .draft)
    (htemplate : requestTemplate options s.snapshot.input now = .ok template)
    (hsigned : C.signer.signEvent template answer = .ok signed)
    (hvalid : validateRequestEvent C.platform signed t = .ok request) :
    exec (step C options) (s.start options now)
        [.proceed now, .complete s.executions.length (.signed answer t), .proceed now, .proceed now] =
      some (s.latest (publishedSnapshot s.snapshot request) (some s.executions.length) []
        (s.log ++ [.effect s.executions.length (.publish request.event)])
          ⟨now, .publish request 1, true, false⟩) := by
  have hsign : complete C options s.aborts (.signing template) (.signed answer t) =
      some (.update (.request request) (.requested request)) := by
    simp only [complete, hsigned, hvalid, assertActive, hactive, if_true]
  have hturn : afterUpdate C s.aborts (.requested request) =
      some (.update (.publishAttempt 1) (.attempting request 1)) := by
    rw [afterUpdate, publishTurn, assertActive, if_pos hactive]
  rw [start_latest hrunning hdraft htemplate, hstack,
    exec_cons (step_proceed_latest hlisteners rfl), perform_await_latest,
    exec_cons (step_complete_latest hsign), perform_update_latest,
    exec_cons (step_proceed_latest hlisteners hturn), perform_update_latest,
    exec_cons (step_proceed_latest hlisteners rfl), perform_await_latest]
  simp [publishedSnapshot, answered]

/-- The snapshot when a result is accepted. -/
def resultSnapshot (snapshot : JobSnapshot) (result : ValidatedResult) : JobSnapshot :=
  Patch.apply (Patch.apply snapshot (.state .awaitingResult)) (.result result)

/-- From `transport.publish` to the acceptance of the first event that is delivered. -/
theorem exec_result {attempt : ℕ} (hlisteners : s.listeners = []) (hactive : s.aborts.active = true)
    (haccept : ResultWait.acceptable C request (event, now) = some result) :
    exec (step C options) (s.latest snapshot running [] log ⟨t, .publish request attempt, true, false⟩)
        [.complete s.executions.length .published, .proceed now,
          .complete s.executions.length (.event event now), .complete s.executions.length .resumed] =
      some (s.latest (resultSnapshot snapshot result) running
        [.broadcast (resultSnapshot snapshot result) 0 none (.run s.executions.length)]
        (log ++ [.effect s.executions.length (.subscribe (getResultKind request.content.service)
          C.trustedProviderPubkeys request.event.id)]) ⟨t, .resulted request result, true, false⟩) := by
  have hpublished : complete C options s.aborts (.publish request attempt) .published =
      some (.update (.state .awaitingResult) (.awaiting request)) := by
    simp only [complete, assertActive, hactive, if_true]
  have hpromise : (ResultWait.start.onEvent C request event now).promise = .resolved result := by
    have hnew : (event, now).1.id ∉ ResultWait.start.seen := Finset.notMem_empty _
    rw [ResultWait.onEvent_promise (d := (event, now)), if_neg hnew, haccept]
    rfl
  have hresumed : complete C options s.aborts
      (.waiting request s.aborts.listen (ResultWait.start.onEvent C request event now)) .resumed =
        some (.update (.result result) (.resulted request result)) := by
    simp only [complete, hpromise, assertActive, hactive, if_true]
  rw [exec_cons (step_complete_latest hpublished), perform_update_latest,
    exec_cons (step_proceed_latest hlisteners rfl), perform_await_latest,
    exec_cons (step_complete_latest rfl), perform_await_latest,
    exec_cons (step_complete_latest hresumed), perform_update_latest]
  simp [resultSnapshot, answered, exec]

/-- The end of an execution that throws in an `update`, up to its `finally`. -/
theorem exec_throws {error : JsError} (hlisteners : s.listeners = []) (hstate : snapshot.state ≠ .failed)
    (hthrows : afterUpdate C s.aborts q = some (.throws error)) :
    exec (step C options) (s.latest snapshot running
        [.broadcast snapshot 0 none (.run s.executions.length)] log ⟨t, q, true, false⟩)
        [.proceed now, .proceed now, .finalize s.executions.length] =
      some (s.latest (Patch.apply snapshot (.failed (failureFor error))) none []
        (log ++ [.settled s.executions.length (.error error)])
          ⟨t, .settled (.error error), true, true⟩) := by
  rw [exec_cons (step_proceed_latest hlisteners hthrows), perform_throws_latest hstate,
    exec_cons (step_proceed_latest hlisteners rfl), perform_settles_latest,
    exec_cons step_finalize_latest, exec]

/-- An execution that is answered with an error result. -/
theorem exec_errorResult {attempt : ℕ} {r : FailedJobResult} (hlisteners : s.listeners = [])
    (hactive : s.aborts.active = true)
    (haccept : ResultWait.acceptable C request (event, now) = some result)
    (hcontent : result.content = .error r) :
    exec (step C options) (s.latest snapshot running [] log ⟨t, .publish request attempt, true, false⟩)
        ([.complete s.executions.length .published, .proceed now,
          .complete s.executions.length (.event event now), .complete s.executions.length .resumed] ++
        [.proceed now, .proceed now, .finalize s.executions.length]) =
      some (s.latest (Patch.apply (resultSnapshot snapshot result) (.failed (providerFailure r.error)))
        none [] (log ++ [.effect s.executions.length (.subscribe
          (getResultKind request.content.service) C.trustedProviderPubkeys request.event.id)] ++
        [.settled s.executions.length (.error (.provider (providerFailure r.error)))])
        ⟨t, .settled (.error (.provider (providerFailure r.error))), true, true⟩) := by
  have hthrows : afterUpdate C s.aborts (.resulted request result) =
      some (.throws (.provider (providerFailure r.error))) := by
    rw [afterUpdate, hcontent]
  have hstate : (resultSnapshot snapshot result).state ≠ .failed := by
    rw [resultSnapshot, Patch.apply_state, Patch.apply_state]
    exact JobState.noConfusion
  rw [exec_append, exec_result hlisteners hactive haccept, Option.bind_some,
    exec_throws hlisteners hstate hthrows, failureFor]

/-- The same for an execution that throws after an `await`. -/
theorem exec_rejected {error : JsError} {completion : Completion C.signer.Answer}
    (hlisteners : s.listeners = []) (hstate : snapshot.state ≠ .failed)
    (hunseen : answered C s.executions.length q completion = [])
    (hthrows : complete C options s.aborts q completion = some (.throws error)) :
    exec (step C options) (s.latest snapshot running [] log ⟨t, q, true, false⟩)
        [.complete s.executions.length completion, .proceed now, .finalize s.executions.length] =
      some (s.latest (Patch.apply snapshot (.failed (failureFor error))) none []
        (log ++ [.settled s.executions.length (.error error)])
          ⟨t, .settled (.error error), true, true⟩) := by
  rw [exec_cons (step_complete_latest hthrows), perform_throws_latest hstate,
    exec_cons (step_proceed_latest hlisteners rfl), perform_settles_latest,
    exec_cons step_finalize_latest, hunseen, List.append_nil, exec]

/-- The job is verified, and its execution `j` resolved with the record. The verifier was called once,
    on the bytes, said yes, and left what the record holds. -/
structure Verifies (C : SoulNostrClient) (s : SoulJob) (j : ℕ) (proofBytes : ProofBytes)
    (job : VerifiedJob) : Prop where
  state : s.snapshot.state = .verified
  record : s.snapshot.verified = some job
  settled : ∃ e, s.executions[j]? = some e ∧ e.point = .settled (.ok job)
  answered : ∀ i bytes hash statement verdict left,
    .answered i bytes hash statement verdict left ∈ s.log →
      i = j ∧ bytes = proofBytes ∧ hash = C.trustedProgramHash ∧
        statement = serializeProofStatement job.result.content.statement ∧ verdict = some true ∧
          left = job.proofBytes

/-- From an accepted success to the verified job. -/
theorem exec_verified {r : SuccessfulJobResult} {fetched : FetchAnswer} {timedOut : Bool}
    {proofBytes : ProofBytes} (left : ProofBytes) (hlisteners : s.listeners = [])
    (hactive : s.aborts.active = true)
    (hcontent : result.content = .success r) (hprogram : r.proof.program_hash = C.trustedProgramHash)
    (hcheck : checkProgram r C.trustedProgramHash = .ok ())
    (hfetch : ∀ signals, fetchProofArtifact C.platform C.sha256 r.proof signals fetched = .ok proofBytes)
    (hunseen : ∀ i bytes hash statement verdict left,
      .answered i bytes hash statement verdict left ∉ log) :
    ∃ s', exec (step C options) (s.latest snapshot running
        [.broadcast snapshot 0 none (.run s.executions.length)] log
          ⟨t, .resulted request result, true, false⟩)
        [.proceed now, .proceed now, .proceed now, .proceed now,
          .complete s.executions.length (.fetched fetched timedOut), .proceed now,
          .complete s.executions.length (.verified (some true) left), .proceed now] = some s' ∧
      s'.Verifies C s.executions.length proofBytes ⟨request, ⟨result.event, r⟩, left⟩ := by
  have hreceived : afterUpdate C s.aborts (.resulted request result) =
      some (.update (.state .resultReceived) (.received request ⟨result.event, r⟩)) := by
    rw [afterUpdate, hcontent]
  have hfetching : afterUpdate C s.aborts (.received request ⟨result.event, r⟩) =
      some (.update (.state .fetching) (.fetching request ⟨result.event, r⟩)) := by
    rw [afterUpdate, if_neg (not_not.mpr hprogram)]
  have hturn : afterUpdate C s.aborts (.fetching request ⟨result.event, r⟩) =
      some (.update (.proofAttempt 1) (.fetchAttempting request ⟨result.event, r⟩ 1)) := by
    rw [afterUpdate, fetchTurn, assertActive, if_pos hactive]
  have hfetched : complete C options s.aborts
      (.fetch request ⟨result.event, r⟩ 1 s.aborts.controller s.aborts.active) (.fetched fetched timedOut) =
        some (.update (.state .verifying) (.verifying request ⟨result.event, r⟩ proofBytes)) := by
    simp only [complete, hfetch, assertActive, hactive, if_true]
  have hverify : afterUpdate C s.aborts (.verifying request ⟨result.event, r⟩ proofBytes) =
      some (.await (.verify request ⟨result.event, r⟩ proofBytes) (some (.verify proofBytes
        C.trustedProgramHash (serializeProofStatement r.statement)))) := by
    rw [afterUpdate, hcheck]
  have hverified : complete C options s.aborts (.verify request ⟨result.event, r⟩ proofBytes)
      (.verified (some true) left) = some (.update (.verified ⟨request, ⟨result.event, r⟩, left⟩)
        (.verified ⟨request, ⟨result.event, r⟩, left⟩)) := by
    simp only [complete, judge, assertActive, hactive, if_true]
  rw [exec_cons (step_proceed_latest hlisteners hreceived), perform_update_latest,
    exec_cons (step_proceed_latest hlisteners hfetching), perform_update_latest,
    exec_cons (step_proceed_latest hlisteners hturn), perform_update_latest,
    exec_cons (step_proceed_latest hlisteners rfl), perform_await_latest,
    exec_cons (step_complete_latest hfetched), perform_update_latest,
    exec_cons (step_proceed_latest hlisteners hverify), perform_await_latest,
    exec_cons (step_complete_latest hverified), perform_update_latest,
    exec_cons (step_proceed_latest hlisteners rfl), perform_settles_latest]
  refine ⟨_, rfl, rfl, rfl, ⟨_, getElem?_latest, rfl⟩,
    fun i bytes hash statement verdict left' hmem => ?_⟩
  simp only [latest, answered, Option.map_some, Option.toList_some, List.append_nil, List.mem_append,
    List.mem_singleton, reduceCtorEq, or_false, Observation.answered.injEq] at hmem
  exact hmem.resolve_left (hunseen i bytes hash statement verdict left')

/-- A run from the start to the verified job, whatever the verifier leaves in its buffer. -/
theorem exec_to_verified {r : SuccessfulJobResult} {fetched : FetchAnswer} {timedOut : Bool}
    {proofBytes : ProofBytes} {input : JobInput} {now' : ℕ} (left : ProofBytes)
    (htemplate : requestTemplate options (canonicalizeInput input) now = .ok template)
    (hsigned : C.signer.signEvent template answer = .ok signed)
    (hvalid : validateRequestEvent C.platform signed t = .ok request)
    (haccept : ResultWait.acceptable C request (event, now') = some result)
    (hcontent : result.content = .success r) (hprogram : r.proof.program_hash = C.trustedProgramHash)
    (hcheck : checkProgram r C.trustedProgramHash = .ok ())
    (hfetch : ∀ signals, fetchProofArtifact C.platform C.sha256 r.proof signals fetched = .ok proofBytes) :
    ∃ s, exec (step C options) (new input)
        (.start now :: ([.proceed now, .complete 0 (.signed answer t), .proceed now, .proceed now] ++
          ([.complete 0 .published, .proceed now', .complete 0 (.event event now'),
            .complete 0 .resumed] ++
          [.proceed now', .proceed now', .proceed now', .proceed now',
            .complete 0 (.fetched fetched timedOut), .proceed now',
            .complete 0 (.verified (some true) left), .proceed now']))) = some s ∧
      s.Verifies C 0 proofBytes ⟨request, ⟨result.event, r⟩, left⟩ := by
  have hstart : step C options (new input) (.start now) = some ((new input).start options now) := rfl
  have hpublish : exec (step C options) ((new input).start options now)
      [.proceed now, .complete 0 (.signed answer t), .proceed now, .proceed now] =
        some ((new input).latest (publishedSnapshot (new input).snapshot request) (some 0) []
          [.effect 0 (.publish request.event)] ⟨now, .publish request 1, true, false⟩) :=
    exec_publish rfl rfl rfl rfl rfl htemplate hsigned hvalid
  have hresult : exec (step C options)
      ((new input).latest (publishedSnapshot (new input).snapshot request) (some 0) []
        [.effect 0 (.publish request.event)] ⟨now, .publish request 1, true, false⟩)
      [.complete 0 .published, .proceed now', .complete 0 (.event event now'), .complete 0 .resumed] =
        some ((new input).latest (resultSnapshot (publishedSnapshot (new input).snapshot request) result)
          (some 0) [.broadcast (resultSnapshot (publishedSnapshot (new input).snapshot request) result)
            0 none (.run 0)] ([.effect 0 (.publish request.event)] ++ [.effect 0 (.subscribe
              (getResultKind request.content.service) C.trustedProviderPubkeys request.event.id)])
            ⟨now, .resulted request result, true, false⟩) :=
    exec_result rfl rfl haccept
  rw [exec_cons hstart, exec_append, hpublish, Option.bind_some, exec_append, hresult, Option.bind_some]
  exact exec_verified left rfl rfl hcontent hprogram hcheck hfetch (by simp)

/-- The job as a draft again, with a new controller. -/
def redrafted (s : SoulJob) : SoulJob :=
  { s with
    snapshot := Patch.apply s.snapshot .draft
    aborts := { s.aborts with controller := s.aborts.controller + 1 } }

/-- A retry of a job that rests. -/
theorem exec_retry {ls : List (Label C.signer.Answer)} (hlisteners : s.listeners = [])
    (hstack : s.stack = []) (hrunning : s.running = none) (hretry : s.retryable) :
    exec (step C options) s (.retry :: .proceed now :: ls) =
      exec (step C options) (s.redrafted.start options now) ls := by
  have hcallable : s.callable = true := by rw [callable, hstack]
  have hstep : step C options s .retry = some s.redraft := by
    rw [step, if_pos hcallable, retry, if_pos hretry, hrunning]
  have hproceed : step C options s.redraft (.proceed now) = some (s.redrafted.start options now) := by
    have hnone : ¬ 0 < s.listeners.length := by rw [hlisteners]; exact Nat.lt_irrefl 0
    have hrest : { s.redrafted with stack := s.stack } = s.redrafted := rfl
    change (if 0 < s.listeners.length then none else
      some ({ s.redrafted with stack := s.stack }.start options now)) = _
    rw [if_neg hnone, hrest]
  rw [exec_cons hstep, exec_cons hproceed]

end

end SoulSociety.Session.SoulJob
