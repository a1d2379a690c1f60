import SoulSociety.Session.Points
import SoulSociety.Session.Soundness

/-! What the executions of a job ask of the relays, the server and the verifier. Each of them publishes
    one event a bounded number of times, subscribes once to the answers to it, downloads one proof a
    bounded number of times, and has it verified once, in this order; it may stop anywhere. One that
    resolves does so after the verifier said yes. -/

namespace SoulSociety.Session
open Lib Sdk

variable (C : SoulNostrClient) (options : JobOptions)

def publishes (request : ValidatedRequest) (k : ℕ) : List Act :=
  List.replicate k (.asks (.publish request.event))

def subscribes (request : ValidatedRequest) (k : ℕ) : List Act :=
  publishes request k ++ [.asks (.subscribe (getResultKind request.content.service)
    C.trustedProviderPubkeys request.event.id)]

def fetches (request : ValidatedRequest) (result : SuccessfulResult) (k n : ℕ) : List Act :=
  subscribes C request k ++ List.replicate n (.asks (.fetch result.content.proof))

def verifies (request : ValidatedRequest) (result : SuccessfulResult) (proofBytes : ProofBytes)
    (k n : ℕ) : List Act :=
  fetches C request result k n ++ [.asks (.verify proofBytes C.trustedProgramHash
    (serializeProofStatement result.content.statement))]

def judged (request : ValidatedRequest) (result : SuccessfulResult) (proofBytes : ProofBytes)
    (answer : Option Bool) (left : ProofBytes) (k n : ℕ) : List Act :=
  verifies C request result proofBytes k n ++ [.answered proofBytes C.trustedProgramHash
    (serializeProofStatement result.content.statement) answer left]

/-- What may have been asked for, in order, within the retries of the options. -/
inductive InOrder : List Act → Prop
  | nothing : InOrder []
  | publishes (request : ValidatedRequest) {k : ℕ} (hk : k ≤ options.publishRetries + 1) :
      InOrder (publishes request k)
  | subscribes (request : ValidatedRequest) {k : ℕ} (hk : k ≤ options.publishRetries + 1) :
      InOrder (subscribes C request k)
  | fetches (request : ValidatedRequest) (result : SuccessfulResult) {k n : ℕ}
      (hk : k ≤ options.publishRetries + 1) (hn : n ≤ options.proofRetries + 1) :
      InOrder (fetches C request result k n)
  | verifies (request : ValidatedRequest) (result : SuccessfulResult) (proofBytes : ProofBytes)
      {k n : ℕ} (hk : k ≤ options.publishRetries + 1) (hn : n ≤ options.proofRetries + 1) :
      InOrder (verifies C request result proofBytes k n)
  | judged (request : ValidatedRequest) (result : SuccessfulResult) (proofBytes : ProofBytes)
      (answer : Option Bool) (left : ProofBytes) {k n : ℕ} (hk : k ≤ options.publishRetries + 1)
      (hn : n ≤ options.proofRetries + 1) :
      InOrder (judged C request result proofBytes answer left k n)

variable {C options} {es : List Act} {a : Aborts} {p q : Point} {o : Outcome}

/-- What the execution has asked for, with the answers of the verifier. -/
def SoulJob.acts (s : SoulJob) (j : ℕ) : List Act := s.log.filterMap (·.actOf j)

end SoulSociety.Session
