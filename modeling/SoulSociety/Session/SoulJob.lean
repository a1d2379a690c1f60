import SoulSociety.Lib.Run
import SoulSociety.Session.Run

/-! A job and everything that runs on it: executions of `run`, calls of `retry` that wait for one, and
    the listeners, which may call back into the job. JavaScript runs one piece of code at a time; the
    stack holds the broadcasts that are under way, the innermost first. A label names the next thing
    that happens: a call from outside or from a running listener, a step of a broadcast, or, while
    nothing runs, an awaited promise that is settled. -/

namespace SoulSociety.Session
open Lib Sdk

/-- Who called `update`. -/
inductive Caller where
  | run (execution : ℕ)
  | cancel
  | retry
  deriving DecidableEq

/-- Code that waits for a listener: the loop of `update`, with the position of the next listener and
    the one that runs, or the call in `subscribe`. -/
inductive Frame where
  | broadcast (snapshot : JobSnapshot) (next : ℕ) (running : Option ℕ) (caller : Caller)
  | greeting (listener : ℕ)
  deriving DecidableEq

/-- The code of a listener runs on top of the frame. -/
def Frame.listening : Frame → Bool
  | .broadcast _ _ running _ => running.isSome
  | .greeting _ => true

/-- A call of `run`. The job holds its promise in `running` once its synchronous part is over;
    `finalized` is its `finally`. -/
structure Execution where
  createdAt : ℕ
  point : Point
  held : Bool
  finalized : Bool
  deriving DecidableEq

/-- What can be seen of a run. -/
inductive Observation where
  | heard (listener : ℕ) (snapshot : JobSnapshot)
  | effect (execution : ℕ) (effect : Effect)
  /-- The verifier answered a call, and left `left` in the buffer it was given. -/
  | answered (execution : ℕ) (proofBytes : ProofBytes) (programHash : JsString) (statement : Text)
      (answer : Option Bool) (left : ProofBytes)
  | settled (execution : ℕ) (outcome : Except JsError VerifiedJob)
  deriving DecidableEq

/-- The fields of a `SoulJob`, its executions, the calls of `retry` that wait, each for an execution,
    the stack, and what was seen. A removed listener keeps its place in the set. -/
structure SoulJob where
  snapshot : JobSnapshot
  listeners : List (ℕ × Bool)
  aborts : Aborts
  running : Option ℕ
  executions : List Execution
  retries : List (Option ℕ)
  stack : List Frame
  log : List Observation
  deriving DecidableEq

/-- What can happen to a job: a call from outside, a listener that goes on, or an answer. -/
inductive Label (Answer : Type) where
  | start (now : ℕ)
  | retry
  | cancel
  | subscribe (listener : ℕ)
  | unsubscribe (listener : ℕ)
  /-- The loop of the innermost `update` goes to the next listener. -/
  | deliver
  | returns
  | throws (error : JsError)
  /-- The innermost `update` returns, and its caller goes on. -/
  | proceed (now : ℕ)
  | complete (execution : ℕ) (completion : Completion Answer)
  | finalize (execution : ℕ)
  /-- The code of `retry` after its `await`. -/
  | resume (retry : ℕ)

namespace SoulJob

/-- A draft. -/
def new (input : JobInput) : SoulJob where
  snapshot := {
    state := .draft
    input := canonicalizeInput input
    request := none
    result := none
    verified := none
    failure := none
    publishAttempt := 0
    proofAttempt := 0
    revision := 0 }
  listeners := []
  aborts := ⟨0, []⟩
  running := none
  executions := []
  retries := []
  stack := []
  log := []

/-- Code outside `update` and `run` can call the job. -/
def callable (s : SoulJob) : Bool :=
  match s.stack with
  | [] => true
  | frame :: _ => frame.listening

/-- `update`, up to its first listener. -/
def update (s : SoulJob) (patch : Patch) (caller : Caller) : SoulJob :=
  { s with
    snapshot := patch.apply s.snapshot
    stack := .broadcast (patch.apply s.snapshot) 0 none caller :: s.stack }

/-- An execution goes to a point. -/
def setPoint (s : SoulJob) (j : ℕ) (point : Point) : SoulJob :=
  { s with executions := s.executions.modify j fun e => { e with point := point } }

/-- `run` returned its promise. Where this ends its synchronous part, `start` stores the promise. -/
def hold (s : SoulJob) (j : ℕ) : SoulJob :=
  match s.executions[j]? with
  | some e =>
    if e.held then s
    else
      { s with
        running := some j
        executions := s.executions.modify j fun e => { e with held := true } }
  | none => s

/-- More is seen. -/
def observe (s : SoulJob) (seen : List Observation) : SoulJob := { s with log := s.log ++ seen }

/-- The promise of an execution is settled. -/
def settle (s : SoulJob) (j : ℕ) (outcome : Except JsError VerifiedJob) : SoulJob :=
  ((s.setPoint j (.settled outcome)).hold j).observe [.settled j outcome]

/-- The `catch` of `run`: the first failure counts. -/
def raise (s : SoulJob) (j : ℕ) (error : JsError) : SoulJob :=
  if s.snapshot.state = .failed then s.settle j (.error error)
  else (s.setPoint j (.failing error)).update (.failed (failureFor error)) (.run j)

/-- An execution goes on. -/
def perform (s : SoulJob) (j : ℕ) : Outcome → SoulJob
  | .update patch point => (s.setPoint j point).update patch (.run j)
  | .await point effect => ((s.setPoint j point).hold j).observe (effect.map (.effect j)).toList
  | .throws error => s.raise j error
  | .settles outcome => s.settle j outcome

/-- A job that runs keeps its promise; only a draft starts. -/
def start (options : JobOptions) (s : SoulJob) (now : ℕ) : SoulJob :=
  if s.running.isSome then s
  -- the promise that is returned is rejected
  else if s.snapshot.state ≠ .draft then s
  else
    let execution (point : Point) : SoulJob :=
      { s with executions := s.executions ++ [⟨now, point, false, false⟩] }
    match requestTemplate options s.snapshot.input now with
    | .ok template =>
      (execution (.publishing template)).update (.state .publishing) (.run s.executions.length)
    | .error error =>
      (execution (.failing error)).update (.failed (failureFor error)) (.run s.executions.length)

/-- The failure can be retried. -/
def retryable (s : SoulJob) : Prop :=
  s.snapshot.state = .failed ∧ ∃ failure ∈ s.snapshot.failure, failure.retryable = true

instance (s : SoulJob) : Decidable s.retryable := by unfold retryable; infer_instance

/-- `retry` from its new `AbortController` on. -/
def redraft (s : SoulJob) : SoulJob :=
  { s with aborts := { s.aborts with controller := s.aborts.controller + 1 } }.update .draft .retry

/-- The call waits for the promise that is running, if there is one. -/
def retry (s : SoulJob) : SoulJob :=
  if s.retryable then
    match s.running with
    | some j => { s with retries := s.retries ++ [some j] }
    | none => s.redraft
  else s

/-- The abort of the current controller. -/
def abort (s : SoulJob) : SoulJob :=
  { s with
    aborts := { s.aborts with aborted := s.aborts.controller :: s.aborts.aborted }
    executions := s.executions.map fun e =>
      { e with point := e.point.abort s.aborts.controller } }

/-- A terminal state stays. -/
def cancel (s : SoulJob) : SoulJob :=
  if s.snapshot.state = .verified ∨ s.snapshot.state = .failed then s
  else s.abort.update (.failed cancelledFailure) .cancel

/-- `listeners.add`. A listener that is in the set stays where it is. -/
def addListener (s : SoulJob) (listener : ℕ) : SoulJob :=
  if (listener, true) ∈ s.listeners then s
  else { s with listeners := s.listeners ++ [(listener, true)] }

/-- A listener is added, and hears the current snapshot at once. -/
def subscribe (s : SoulJob) (listener : ℕ) : SoulJob :=
  ({ s.addListener listener with stack := .greeting listener :: s.stack }).observe
    [.heard listener s.snapshot]

/-- A listener is removed; a loop that is under way skips it. -/
def unsubscribe (s : SoulJob) (listener : ℕ) : SoulJob :=
  { s with listeners := s.listeners.map fun l => if l = (listener, true) then (listener, false) else l }

/-- What the verifier answered is seen. -/
def answered (C : SoulNostrClient) (j : ℕ) :
    Point → Completion C.signer.Answer → List Observation
  | .verify _ result proofBytes, .verified answer left =>
    [.answered j proofBytes C.trustedProgramHash
      (serializeProofStatement result.content.statement) answer left]
  | _, _ => []

variable (C : SoulNostrClient) (options : JobOptions)

/-- The caller of `update` goes on. -/
def proceed (s : SoulJob) (now : ℕ) : Caller → Option SoulJob
  | .run j => do
    let e ← s.executions[j]?
    let outcome ← afterUpdate C s.aborts e.point
    return s.perform j outcome
  | .cancel => some s
  | .retry => some (s.start options now)

/-- An error of a listener leaves `update`. -/
def unwind (s : SoulJob) (error : JsError) : Caller → Option SoulJob
  | .run j => do
    let e ← s.executions[j]?
    match e.point with
    | .failing _ => return s.settle j (.error error)
    | _ => return s.raise j error
  | .cancel => some s
  | .retry => some s

/-- One step of the job. -/
def step (s : SoulJob) : Label C.signer.Answer → Option SoulJob
  | .start now => if s.callable then some (s.start options now) else none
  | .retry => if s.callable then some s.retry else none
  | .cancel => if s.callable then some s.cancel else none
  | .subscribe listener => if s.callable then some (s.subscribe listener) else none
  | .unsubscribe listener => if s.callable then some (s.unsubscribe listener) else none
  | .deliver =>
    match s.stack with
    | .broadcast snapshot next none caller :: rest =>
      match s.listeners[next]? with
      | some (listener, true) =>
        some (({ s with stack := .broadcast snapshot (next + 1) (some listener) caller :: rest
          }).observe [.heard listener snapshot])
      | some (_, false) =>
        some { s with stack := .broadcast snapshot (next + 1) none caller :: rest }
      | none => none
    | _ => none
  | .returns =>
    match s.stack with
    | .broadcast snapshot next (some _) caller :: rest =>
      some { s with stack := .broadcast snapshot next none caller :: rest }
    | .greeting _ :: rest => some { s with stack := rest }
    | _ => none
  | .throws error =>
    match s.stack with
    | .broadcast _ _ (some _) caller :: rest => ({ s with stack := rest }).unwind error caller
    | .greeting _ :: rest => some { s with stack := rest }
    | _ => none
  | .proceed now =>
    match s.stack with
    | .broadcast _ next none caller :: rest =>
      if next < s.listeners.length then none
      else ({ s with stack := rest }).proceed C options now caller
    | _ => none
  | .complete j completion =>
    if s.stack = [] then do
      let e ← s.executions[j]?
      let outcome ← Session.complete C options s.aborts e.point completion
      return (s.observe (answered C j e.point completion)).perform j outcome
    else none
  | .finalize j =>
    match s.stack, s.executions[j]? with
    | [], some ⟨_, .settled _, _, false⟩ =>
      some { s with
        running := none
        executions := s.executions.modify j fun e => { e with finalized := true } }
    | _, _ => none
  | .resume k =>
    match s.stack, s.retries[k]? with
    | [], some (some j) =>
      if ∃ e ∈ s.executions[j]?, e.finalized = true then
        some ({ s with retries := s.retries.set k none }).redraft
      else none
    | _, _ => none

/-! ### What a step does -/

/-- The branches of `step`. -/
inductive Acts (C : SoulNostrClient) (options : JobOptions) (s : SoulJob) :
    Label C.signer.Answer → SoulJob → Prop
  | started (now : ℕ) : Acts C options s (.start now) (s.start options now)
  | retried : Acts C options s .retry s.retry
  | cancelled : Acts C options s .cancel s.cancel
  | subscribed (listener : ℕ) : Acts C options s (.subscribe listener) (s.subscribe listener)
  | unsubscribed (listener : ℕ) : Acts C options s (.unsubscribe listener) (s.unsubscribe listener)
  | called {snapshot : JobSnapshot} {next listener : ℕ} {caller : Caller} {rest : List Frame}
      (hstack : s.stack = .broadcast snapshot next none caller :: rest)
      (hlistener : s.listeners[next]? = some (listener, true)) :
      Acts C options s .deliver
        (({ s with stack := .broadcast snapshot (next + 1) (some listener) caller :: rest
          } : SoulJob).observe [.heard listener snapshot])
  | passed {snapshot : JobSnapshot} {next listener : ℕ} {caller : Caller} {rest : List Frame}
      (hstack : s.stack = .broadcast snapshot next none caller :: rest)
      (hlistener : s.listeners[next]? = some (listener, false)) :
      Acts C options s .deliver { s with stack := .broadcast snapshot (next + 1) none caller :: rest }
  | returned {snapshot : JobSnapshot} {next listener : ℕ} {caller : Caller} {rest : List Frame}
      (hstack : s.stack = .broadcast snapshot next (some listener) caller :: rest) :
      Acts C options s .returns { s with stack := .broadcast snapshot next none caller :: rest }
  | greeted {listener : ℕ} {rest : List Frame} (hstack : s.stack = .greeting listener :: rest) :
      Acts C options s .returns { s with stack := rest }
  | threw {snapshot : JobSnapshot} {next listener : ℕ} {caller : Caller} {rest : List Frame}
      {error : JsError} {s' : SoulJob}
      (hstack : s.stack = .broadcast snapshot next (some listener) caller :: rest)
      (hunwind : ({ s with stack := rest } : SoulJob).unwind error caller = some s') :
      Acts C options s (.throws error) s'
  | threwGreeting {listener : ℕ} {rest : List Frame} {error : JsError}
      (hstack : s.stack = .greeting listener :: rest) :
      Acts C options s (.throws error) { s with stack := rest }
  | proceeded {snapshot : JobSnapshot} {next now : ℕ} {caller : Caller} {rest : List Frame}
      {s' : SoulJob}
      (hstack : s.stack = .broadcast snapshot next none caller :: rest)
      (hnext : s.listeners.length ≤ next)
      (hproceed : ({ s with stack := rest } : SoulJob).proceed C options now caller = some s') :
      Acts C options s (.proceed now) s'
  | completed {j : ℕ} {e : Execution} {completion : Completion C.signer.Answer} {o : Outcome}
      (hstack : s.stack = []) (he : s.executions[j]? = some e)
      (ho : Session.complete C options s.aborts e.point completion = some o) :
      Acts C options s (.complete j completion)
        ((s.observe (answered C j e.point completion)).perform j o)
  | finalized (j : ℕ) : Acts C options s (.finalize j) { s with
      running := none
      executions := s.executions.modify j fun e => { e with finalized := true } }
  | resumed {k j : ℕ} (hretry : s.retries[k]? = some (some j)) :
      Acts C options s (.resume k) ({ s with retries := s.retries.set k none } : SoulJob).redraft

variable {C options} {s s' : SoulJob}

theorem acts_of_step : ∀ {l : Label C.signer.Answer}, step C options s l = some s' →
    Acts C options s l s'
  | .start now, h | .retry, h | .cancel, h | .subscribe _, h | .unsubscribe _, h => by
    obtain ⟨-, h⟩ := Option.ite_none_right_eq_some.mp h
    obtain rfl := Option.some.inj h
    constructor
  | .deliver, h => by
    rw [step] at h
    split at h
    · rename_i hstack
      split at h
      · rename_i hlistener
        obtain rfl := Option.some.inj h
        exact .called hstack hlistener
      · rename_i hlistener
        obtain rfl := Option.some.inj h
        exact .passed hstack hlistener
      · cases h
    · cases h
  | .returns, h => by
    rw [step] at h
    split at h
    · rename_i hstack
      obtain rfl := Option.some.inj h
      exact .returned hstack
    · rename_i hstack
      obtain rfl := Option.some.inj h
      exact .greeted hstack
    · cases h
  | .throws error, h => by
    rw [step] at h
    split at h
    · rename_i hstack
      exact .threw hstack h
    · rename_i hstack
      obtain rfl := Option.some.inj h
      exact .threwGreeting hstack
    · cases h
  | .proceed now, h => by
    rw [step] at h
    split at h
    · rename_i hstack
      obtain ⟨hnext, h⟩ := Option.ite_none_left_eq_some.mp h
      exact .proceeded hstack (Nat.not_lt.mp hnext) h
    · cases h
  | .complete j completion, h => by
    obtain ⟨hstack, h⟩ := Option.ite_none_right_eq_some.mp h
    obtain ⟨e, he, h⟩ := Option.bind_eq_some_iff.mp h
    obtain ⟨o, ho, h⟩ := Option.bind_eq_some_iff.mp h
    obtain rfl := Option.some.inj h
    exact .completed hstack he ho
  | .finalize j, h => by
    rw [step] at h
    split at h
    · obtain rfl := Option.some.inj h
      exact .finalized j
    · cases h
  | .resume k, h => by
    rw [step] at h
    split at h
    · rename_i hretry
      obtain ⟨-, h⟩ := Option.ite_none_right_eq_some.mp h
      obtain rfl := Option.some.inj h
      exact .resumed hretry
    · cases h

end SoulJob

end SoulSociety.Session
