import SoulSociety.Session.WaitForResult

/-! One execution of a job (`SoulJob.run` and what it awaits) as a coroutine. Its code runs without
    interruption from one point to the next. A point is an `update`, during which the listeners run,
    or an `await`; it holds the local variables that the rest of the code reads. -/

namespace SoulSociety.Session
open Lib Sdk

/-! ### Snapshots -/

/-- `JobLifecycleState`. -/
inductive JobState where
  | draft
  | publishing
  | awaitingResult
  | resultReceived
  | fetching
  | verifying
  | verified
  | failed
  deriving DecidableEq

/-- `ValidatedResult & { content: SuccessfulJobResult }`. -/
structure SuccessfulResult where
  event : Event
  content : SuccessfulJobResult
  deriving DecidableEq

def SuccessfulResult.toValidated (r : SuccessfulResult) : ValidatedResult := ⟨r.event, .success r.content⟩

structure VerifiedJob where
  request : ValidatedRequest
  result : SuccessfulResult
  proofBytes : ProofBytes
  deriving DecidableEq

/-- A `JobSnapshot`. The `revision` counts the updates, in place of `updatedAt`. -/
structure JobSnapshot where
  state : JobState
  input : JobInput
  request : Option ValidatedRequest
  result : Option ValidatedResult
  verified : Option VerifiedJob
  failure : Option JobFailure
  publishAttempt : ℕ
  proofAttempt : ℕ
  revision : ℕ
  deriving DecidableEq

/-- The arguments of `update`. -/
inductive Patch where
  | draft
  | state (state : JobState)
  | request (request : ValidatedRequest)
  | publishAttempt (attempt : ℕ)
  | result (result : ValidatedResult)
  | proofAttempt (attempt : ℕ)
  | verified (job : VerifiedJob)
  | failed (failure : JobFailure)
  deriving DecidableEq

/-- `{ ...snapshot, ...patch }`. -/
def Patch.apply (s : JobSnapshot) : Patch → JobSnapshot
  | .draft =>
    { state := .draft
      input := s.input
      request := none
      result := none
      verified := none
      failure := none
      publishAttempt := 0
      proofAttempt := 0
      revision := s.revision + 1 }
  | .state next => { s with state := next, revision := s.revision + 1 }
  | .request r => { s with request := some r, revision := s.revision + 1 }
  | .publishAttempt n => { s with publishAttempt := n, revision := s.revision + 1 }
  | .result r => { s with result := some r, revision := s.revision + 1 }
  | .proofAttempt n => { s with proofAttempt := n, revision := s.revision + 1 }
  | .verified job => { s with state := .verified, verified := some job, revision := s.revision + 1 }
  | .failed failure =>
    { s with state := .failed, failure := some failure, revision := s.revision + 1 }

@[simp] theorem Patch.apply_input (s : JobSnapshot) (p : Patch) : (p.apply s).input = s.input := by
  cases p <;> rfl

/-- The state after a patch. -/
def Patch.nextState (before : JobState) : Patch → JobState
  | .draft => .draft
  | .state next => next
  | .verified _ => .verified
  | .failed _ => .failed
  | _ => before

@[simp] theorem Patch.apply_state (s : JobSnapshot) (p : Patch) :
    (p.apply s).state = p.nextState s.state := by
  cases p <;> rfl

/-! ### Abort signals -/

/-- The controllers a job has made: the number of the current one, and those that were aborted. -/
structure Aborts where
  controller : ℕ
  aborted : List ℕ
  deriving DecidableEq

namespace Aborts

/-- The signal of the current controller is not aborted. -/
def active (a : Aborts) : Bool := a.controller ∉ a.aborted

/-- A listener for `abort` on the current signal. On an aborted one it never runs. -/
def listen (a : Aborts) : Option ℕ := if a.active then some a.controller else none

end Aborts

/-- The promise of `delay`, and the controller whose abort rejects it. -/
structure Delay where
  signal : Option ℕ
  promise : Promise Unit
  deriving DecidableEq

/-! ### Points -/

inductive Point where
  /-- In `update({ state: 'publishing' })`. -/
  | publishing (template : EventTemplate)
  /-- Awaiting `signEvent`. -/
  | signing (template : EventTemplate)
  /-- In `update({ request })`. -/
  | requested (request : ValidatedRequest)
  /-- In `update({ publishAttempt })`. -/
  | attempting (request : ValidatedRequest) (attempt : ℕ)
  /-- Awaiting `transport.publish`. -/
  | publish (request : ValidatedRequest) (attempt : ℕ)
  | publishDelay (request : ValidatedRequest) (attempt : ℕ) (delay : Delay)
  /-- In `update({ state: 'awaiting_result' })`. -/
  | awaiting (request : ValidatedRequest)
  /-- Awaiting `waitForResult`. -/
  | waiting (request : ValidatedRequest) (signal : Option ℕ) (wait : ResultWait)
  /-- In `update({ result })`. -/
  | resulted (request : ValidatedRequest) (result : ValidatedResult)
  /-- In `update({ state: 'result_received' })`. -/
  | received (request : ValidatedRequest) (result : SuccessfulResult)
  /-- In `update({ state: 'fetching' })`. -/
  | fetching (request : ValidatedRequest) (result : SuccessfulResult)
  /-- In `update({ proofAttempt })`. -/
  | fetchAttempting (request : ValidatedRequest) (result : SuccessfulResult) (attempt : ℕ)
  /-- Awaiting `fetchProofArtifact`, with the signal it was given and whether it listens to it. -/
  | fetch (request : ValidatedRequest) (result : SuccessfulResult) (attempt signal : ℕ)
      (listening : Bool)
  | fetchDelay (request : ValidatedRequest) (result : SuccessfulResult) (attempt : ℕ) (delay : Delay)
  /-- In `update({ state: 'verifying' })`. -/
  | verifying (request : ValidatedRequest) (result : SuccessfulResult) (proofBytes : ProofBytes)
  /-- Awaiting the verifier. -/
  | verify (request : ValidatedRequest) (result : SuccessfulResult) (proofBytes : ProofBytes)
  /-- In `update({ state: 'verified', verified })`. -/
  | verified (job : VerifiedJob)
  /-- In the `update` of `fail`, called by the `catch` of `run`. -/
  | failing (error : JsError)
  | settled (outcome : Except JsError VerifiedJob)
  deriving DecidableEq

/-- The calls of `run` to the transport, the server and the verifier. -/
inductive Effect where
  | publish (event : Event)
  | subscribe (kind : ℕ) (authors : List JsString) (id : JsString)
  | fetch (proof : ProofDescriptor)
  | verify (proofBytes : ProofBytes) (programHash : JsString) (statement : Text)
  deriving DecidableEq

/-- How the code goes on: it updates the snapshot, awaits something, throws inside the `try` of `run`,
    or settles the promise of `run`. -/
inductive Outcome where
  | update (patch : Patch) (point : Point)
  | await (point : Point) (effect : Option Effect)
  | throws (error : JsError)
  | settles (outcome : Except JsError VerifiedJob)
  deriving DecidableEq

/-- What the environment answers to an awaited promise. -/
inductive Completion (Answer : Type) where
  | signed (answer : Answer) (now : ℕ)
  | published
  | publishFailed (error : JsError)
  /-- The timer of a delay or of `waitForResult`. -/
  | timer
  | event (event : Event) (now : ℕ)
  /-- `transport.subscribe` throws, which rejects the promise of `waitForResult`. -/
  | subscribeFailed (error : JsError)
  /-- The code goes on after a delay or a wait that is settled. -/
  | resumed
  | fetched (answer : FetchAnswer) (timedOut : Bool)
  /-- The verifier shares the buffer with `run`: `left` is what it holds when the answer is there. -/
  | verified (answer : Option Bool) (left : ProofBytes)

section
variable (C : SoulNostrClient) (options : JobOptions) (a : Aborts)

/-- `assertActive`, then the rest. -/
def assertActive (rest : Outcome) : Outcome := if a.active then rest else .throws cancelled

/-- A turn of the loop of `publishWithRetry`. -/
def publishTurn (request : ValidatedRequest) (attempt : ℕ) : Outcome :=
  assertActive a (.update (.publishAttempt attempt) (.attempting request attempt))

/-- A turn of the loop of `fetchWithRetry`. -/
def fetchTurn (request : ValidatedRequest) (result : SuccessfulResult) (attempt : ℕ) : Outcome :=
  assertActive a (.update (.proofAttempt attempt) (.fetchAttempting request result attempt))

/-- The `catch` in the loop of `fetchWithRetry`. -/
def fetchCatch (request : ValidatedRequest) (result : SuccessfulResult) (attempt : ℕ)
    (error : JsError) : Outcome :=
  let delayed := Outcome.await (.fetchDelay request result attempt ⟨a.listen, .pending⟩) none
  match error with
  | .soulWire _ _ retryable =>
    if !retryable ∨ attempt > options.proofRetries then .throws error else delayed
  | _ => if attempt ≤ options.proofRetries then delayed else .throws error

/-- The code after an `update`. -/
def afterUpdate : Point → Option Outcome
  | .publishing template => some (.await (.signing template) none)
  | .requested request => some (publishTurn a request 1)
  | .attempting request attempt =>
    -- `signed` is the event of the validated request
    some (.await (.publish request attempt) (some (.publish request.event)))
  | .awaiting request =>
    some (.await (.waiting request a.listen .start) (some (.subscribe
      (getResultKind request.content.service) C.trustedProviderPubkeys request.event.id)))
  | .resulted request result =>
    match result.content with
    | .error r => some (.throws (.provider (providerFailure r.error)))
    | .success r => some (.update (.state .resultReceived) (.received request ⟨result.event, r⟩))
  | .received request result =>
    if result.content.proof.program_hash ≠ C.trustedProgramHash then some (.throws untrustedProgram)
    else some (.update (.state .fetching) (.fetching request result))
  | .fetching request result => some (fetchTurn a request result 1)
  | .fetchAttempting request result attempt =>
    some (.await (.fetch request result attempt a.controller a.active)
      (some (.fetch result.content.proof)))
  | .verifying request result proofBytes =>
    match checkProgram result.content C.trustedProgramHash with
    | .error e => some (.throws e)
    | .ok () =>
      some (.await (.verify request result proofBytes) (some (.verify proofBytes
        C.trustedProgramHash (serializeProofStatement result.content.statement))))
  | .verified job => some (.settles (.ok job))
  | .failing error => some (.settles (.error error))
  | _ => none

/-- The code after an answer. -/
def complete : Point → Completion C.signer.Answer → Option Outcome
  | .signing template, .signed answer now =>
    match C.signer.signEvent template answer with
    | .error e => some (.throws e)
    | .ok signed =>
      some (assertActive a (match validateRequestEvent C.platform signed now with
        | .error e => .throws e
        | .ok request => .update (.request request) (.requested request)))
  | .publish request _, .published =>
    some (assertActive a (.update (.state .awaitingResult) (.awaiting request)))
  | .publish request attempt, .publishFailed error =>
    if attempt ≤ options.publishRetries then
      some (.await (.publishDelay request attempt ⟨a.listen, .pending⟩) none)
    else some (.throws (publishFailed error))
  | .publishDelay request attempt delay, .timer =>
    some (.await (.publishDelay request attempt
      { delay with promise := delay.promise.settle (.ok ()) }) none)
  | .publishDelay request attempt delay, .resumed =>
    match delay.promise with
    | .pending => none
    | .rejected e => some (.throws e)
    | .resolved () => some (publishTurn a request (attempt + 1))
  | .waiting request signal wait, .event event now =>
    some (.await (.waiting request signal (wait.onEvent C request event now)) none)
  | .waiting request signal wait, .timer =>
    some (.await (.waiting request signal
      { wait with promise := wait.promise.settle (.error resultTimeout) }) none)
  | .waiting request signal wait, .subscribeFailed error =>
    some (.await (.waiting request signal
      { wait with promise := wait.promise.settle (.error error) }) none)
  | .waiting request _ wait, .resumed =>
    match wait.promise with
    | .pending => none
    | .rejected e => some (.throws e)
    | .resolved result => some (assertActive a (.update (.result result) (.resulted request result)))
  | .fetch request result attempt signal listening, .fetched answer timedOut =>
    let signals : FetchSignals :=
      ⟨signal ∈ a.aborted, timedOut || (listening && decide (signal ∈ a.aborted))⟩
    match fetchProofArtifact C.platform C.sha256 result.content.proof signals answer with
    | .error e => some (fetchCatch options a request result attempt e)
    | .ok proofBytes =>
      some (assertActive a (.update (.state .verifying) (.verifying request result proofBytes)))
  | .fetchDelay request result attempt delay, .timer =>
    some (.await (.fetchDelay request result attempt
      { delay with promise := delay.promise.settle (.ok ()) }) none)
  | .fetchDelay request result attempt delay, .resumed =>
    match delay.promise with
    | .pending => none
    | .rejected e => some (.throws e)
    | .resolved () => some (fetchTurn a request result (attempt + 1))
  | .verify request result _, .verified answer left =>
    match judge answer with
    | .error e => some (.throws e)
    | .ok () =>
      -- `proofBytes` is the buffer that the verifier was given, not a copy
      some (assertActive a (.update (.verified ⟨request, result, left⟩)
        (.verified ⟨request, result, left⟩)))
  | _, _ => none

end

/-- The abort of a controller rejects what listens to it. -/
def Point.abort (controller : ℕ) : Point → Point
  | .publishDelay request attempt delay =>
    if delay.signal = some controller then
      .publishDelay request attempt
        { delay with promise := delay.promise.settle (.error cancelled) }
    else .publishDelay request attempt delay
  | .waiting request signal wait =>
    if signal = some controller then
      .waiting request signal { wait with promise := wait.promise.settle (.error cancelled) }
    else .waiting request signal wait
  | .fetchDelay request result attempt delay =>
    if delay.signal = some controller then
      .fetchDelay request result attempt
        { delay with promise := delay.promise.settle (.error cancelled) }
    else .fetchDelay request result attempt delay
  | p => p

/-- An abort is not seen by what does not look into delays and waits. -/
theorem Point.abort_congr {β : Type} (f : Point → β) (controller : ℕ) (p : Point)
    (hpublish : ∀ request attempt delay delay',
      f (.publishDelay request attempt delay) = f (.publishDelay request attempt delay'))
    (hwait : ∀ request signal wait wait',
      f (.waiting request signal wait) = f (.waiting request signal wait'))
    (hfetch : ∀ request result attempt delay delay',
      f (.fetchDelay request result attempt delay) = f (.fetchDelay request result attempt delay')) :
    f (p.abort controller) = f p := by
  cases p with
  | publishDelay request attempt delay =>
    rw [abort]
    split
    · exact hpublish ..
    · rfl
  | waiting request signal wait =>
    rw [abort]
    split
    · exact hwait ..
    · rfl
  | fetchDelay request result attempt delay =>
    rw [abort]
    split
    · exact hfetch ..
    · rfl
  | _ => rfl

/-! ### Everything an execution can do -/

/-- How an execution goes on from a point. Any point can lead to a `throws`. -/
inductive Continues (C : SoulNostrClient) (options : JobOptions) (a : Aborts) : Point → Outcome → Prop
  | throws {p : Point} (error : JsError) : Continues C options a p (.throws error)
  | sign {template : EventTemplate} :
      Continues C options a (.publishing template) (.await (.signing template) none)
  | signed {template : EventTemplate} {answer : C.signer.Answer} {signed : Event} {now : ℕ}
      {request : ValidatedRequest} (hactive : a.active = true)
      (hsigned : C.signer.signEvent template answer = .ok signed)
      (hvalid : validateRequestEvent C.platform signed now = .ok request) :
      Continues C options a (.signing template) (.update (.request request) (.requested request))
  | firstAttempt {request : ValidatedRequest} (hactive : a.active = true) :
      Continues C options a (.requested request)
        (.update (.publishAttempt 1) (.attempting request 1))
  | publish {request : ValidatedRequest} {attempt : ℕ} :
      Continues C options a (.attempting request attempt)
        (.await (.publish request attempt) (some (.publish request.event)))
  | published {request : ValidatedRequest} {attempt : ℕ} (hactive : a.active = true) :
      Continues C options a (.publish request attempt)
        (.update (.state .awaitingResult) (.awaiting request))
  | publishFailed {request : ValidatedRequest} {attempt : ℕ} (h : attempt ≤ options.publishRetries) :
      Continues C options a (.publish request attempt)
        (.await (.publishDelay request attempt ⟨a.listen, .pending⟩) none)
  | publishTimer {request : ValidatedRequest} {attempt : ℕ} {delay : Delay} :
      Continues C options a (.publishDelay request attempt delay)
        (.await (.publishDelay request attempt
          { delay with promise := delay.promise.settle (.ok ()) }) none)
  | nextAttempt {request : ValidatedRequest} {attempt : ℕ} {delay : Delay}
      (hactive : a.active = true) :
      Continues C options a (.publishDelay request attempt delay)
        (.update (.publishAttempt (attempt + 1)) (.attempting request (attempt + 1)))
  | subscribe {request : ValidatedRequest} :
      Continues C options a (.awaiting request) (.await (.waiting request a.listen .start)
        (some (.subscribe (getResultKind request.content.service) C.trustedProviderPubkeys
          request.event.id)))
  | event {request : ValidatedRequest} {signal : Option ℕ} {wait : ResultWait} (event : Event)
      (now : ℕ) :
      Continues C options a (.waiting request signal wait)
        (.await (.waiting request signal (wait.onEvent C request event now)) none)
  | waitFailed {request : ValidatedRequest} {signal : Option ℕ} {wait : ResultWait}
      (error : JsError) :
      Continues C options a (.waiting request signal wait) (.await (.waiting request signal
        { wait with promise := wait.promise.settle (.error error) }) none)
  | result {request : ValidatedRequest} {signal : Option ℕ} {wait : ResultWait}
      {result : ValidatedResult} (hactive : a.active = true)
      (hresult : wait.promise = .resolved result) :
      Continues C options a (.waiting request signal wait)
        (.update (.result result) (.resulted request result))
  | received {request : ValidatedRequest} {result : ValidatedResult}
      {content : SuccessfulJobResult} (hcontent : result.content = .success content) :
      Continues C options a (.resulted request result)
        (.update (.state .resultReceived) (.received request ⟨result.event, content⟩))
  | fetching {request : ValidatedRequest} {result : SuccessfulResult}
      (hprogram : result.content.proof.program_hash = C.trustedProgramHash) :
      Continues C options a (.received request result)
        (.update (.state .fetching) (.fetching request result))
  | firstFetch {request : ValidatedRequest} {result : SuccessfulResult} (hactive : a.active = true) :
      Continues C options a (.fetching request result)
        (.update (.proofAttempt 1) (.fetchAttempting request result 1))
  | fetch {request : ValidatedRequest} {result : SuccessfulResult} {attempt : ℕ} :
      Continues C options a (.fetchAttempting request result attempt)
        (.await (.fetch request result attempt a.controller a.active)
          (some (.fetch result.content.proof)))
  | fetchFailed {request : ValidatedRequest} {result : SuccessfulResult} {attempt signal : ℕ}
      {listening : Bool} (h : attempt ≤ options.proofRetries) :
      Continues C options a (.fetch request result attempt signal listening)
        (.await (.fetchDelay request result attempt ⟨a.listen, .pending⟩) none)
  | fetchTimer {request : ValidatedRequest} {result : SuccessfulResult} {attempt : ℕ}
      {delay : Delay} :
      Continues C options a (.fetchDelay request result attempt delay)
        (.await (.fetchDelay request result attempt
          { delay with promise := delay.promise.settle (.ok ()) }) none)
  | nextFetch {request : ValidatedRequest} {result : SuccessfulResult} {attempt : ℕ} {delay : Delay}
      (hactive : a.active = true) :
      Continues C options a (.fetchDelay request result attempt delay)
        (.update (.proofAttempt (attempt + 1)) (.fetchAttempting request result (attempt + 1)))
  | fetched {request : ValidatedRequest} {result : SuccessfulResult} {attempt signal : ℕ}
      {listening : Bool} {signals : FetchSignals} {answer : FetchAnswer} {proofBytes : ProofBytes}
      (hactive : a.active = true)
      (hbytes : fetchProofArtifact C.platform C.sha256 result.content.proof signals answer =
        .ok proofBytes) :
      Continues C options a (.fetch request result attempt signal listening)
        (.update (.state .verifying) (.verifying request result proofBytes))
  | verify {request : ValidatedRequest} {result : SuccessfulResult} {proofBytes : ProofBytes}
      (hprogram : checkProgram result.content C.trustedProgramHash = .ok ()) :
      Continues C options a (.verifying request result proofBytes)
        (.await (.verify request result proofBytes) (some (.verify proofBytes C.trustedProgramHash
          (serializeProofStatement result.content.statement))))
  | verified {request : ValidatedRequest} {result : SuccessfulResult} {proofBytes left : ProofBytes}
      (hactive : a.active = true) :
      Continues C options a (.verify request result proofBytes)
        (.update (.verified ⟨request, result, left⟩) (.verified ⟨request, result, left⟩))
  | returns {job : VerifiedJob} : Continues C options a (.verified job) (.settles (.ok job))
  | rethrows {error : JsError} : Continues C options a (.failing error) (.settles (.error error))

section
variable {C : SoulNostrClient} {options : JobOptions} {a : Aborts} {p : Point} {o rest : Outcome}

/-- `assertActive` lets the code go on, or throws. -/
theorem continues_assertActive (h : a.active = true → Continues C options a p rest) :
    Continues C options a p (assertActive a rest) := by
  rw [assertActive]
  split
  · rename_i hactive
    exact h hactive
  · exact .throws _

theorem continues_of_afterUpdate (h : afterUpdate C a p = some o) : Continues C options a p o := by
  cases p with
  | publishing template => cases h; exact .sign
  | requested request => cases h; exact continues_assertActive .firstAttempt
  | attempting request attempt => cases h; exact .publish
  | awaiting request => cases h; exact .subscribe
  | resulted request result =>
    rw [afterUpdate] at h
    split at h
    · cases h; exact .throws _
    · rename_i hcontent
      cases h; exact .received hcontent
  | received request result =>
    rw [afterUpdate] at h
    split at h
    · cases h; exact .throws _
    · rename_i hprogram
      cases h; exact .fetching (not_not.mp hprogram)
  | fetching request result => cases h; exact continues_assertActive .firstFetch
  | fetchAttempting request result attempt => cases h; exact .fetch
  | verifying request result proofBytes =>
    rw [afterUpdate] at h
    split at h
    · cases h; exact .throws _
    · rename_i hprogram
      cases h; exact .verify hprogram
  | verified job => cases h; exact .returns
  | failing error => cases h; exact .rethrows
  | _ => cases h

theorem continues_fetchCatch {request : ValidatedRequest} {result : SuccessfulResult}
    {attempt signal : ℕ} {listening : Bool} (error : JsError) :
    Continues C options a (.fetch request result attempt signal listening)
      (fetchCatch options a request result attempt error) := by
  rw [fetchCatch.eq_def]
  dsimp only
  split
  · split
    · exact .throws _
    · rename_i hretry
      rw [not_or, not_lt] at hretry
      exact .fetchFailed hretry.2
  · split
    · rename_i hretry
      exact .fetchFailed hretry
    · exact .throws _

theorem continues_of_complete {c : Completion C.signer.Answer}
    (h : complete C options a p c = some o) : Continues C options a p o := by
  rw [complete.eq_def] at h
  split at h
  · rename_i template answer now
    split at h
    · cases h; exact .throws _
    · rename_i signed hsigned
      cases h
      refine continues_assertActive fun hactive => ?_
      split
      · exact .throws _
      · rename_i request hvalid
        exact .signed hactive hsigned hvalid
  · cases h; exact continues_assertActive .published
  · split at h
    · rename_i hretry
      cases h; exact .publishFailed hretry
    · cases h; exact .throws _
  · cases h; exact .publishTimer
  · split at h
    · cases h
    · cases h; exact .throws _
    · cases h; exact continues_assertActive .nextAttempt
  · cases h; exact .event _ _
  · cases h; exact .waitFailed _
  · cases h; exact .waitFailed _
  · split at h
    · cases h
    · cases h; exact .throws _
    · rename_i result hresult
      cases h; exact continues_assertActive fun hactive => .result hactive hresult
  · dsimp only at h
    split at h
    · cases h; exact continues_fetchCatch _
    · rename_i proofBytes hbytes
      cases h; exact continues_assertActive fun hactive => .fetched hactive hbytes
  · cases h; exact .fetchTimer
  · split at h
    · cases h
    · cases h; exact .throws _
    · cases h; exact continues_assertActive .nextFetch
  · split at h
    · cases h; exact .throws _
    · cases h; exact continues_assertActive .verified
  · cases h

end

end SoulSociety.Session
