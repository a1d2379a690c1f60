import SoulSociety.Core.NostrEvents

/-! Proof execution, request binding, and artifact publication
    (`provider/src/processor.rs`, and the base URL policy of `config.rs`).

    `process` is a function of what its environment answers: whether a proving slot is free, what the
    blocking worker returns, and what the artifact store makes of the bytes. -/

namespace SoulSociety.Provider
open Lib SoulSociety.Core

/-- What the provider takes from the `url` crate. -/
structure UrlLibrary where
  parse : Text → Option Url
  join : Url → Text → Option Url
  toText : Url → Text

/-! ### Base URL -/

/-- Absolute HTTPS, or loopback HTTP, without credentials, query, or fragment. -/
def baseUrlAllowed (url : Url) : Bool :=
  (url.scheme = text "http" || url.scheme = text "https") && url.host.isSome &&
    url.username = [] && url.password.isNone && url.query.isNone && url.fragment.isNone &&
    !(url.scheme = text "http" && !isLoopbackHost url)

/-- `url.set_path` with a slash at the end. -/
def withSlash (url : Url) : Url :=
  if url.path.getLast? = some '/' then url else { url with path := url.path ++ ['/'] }

/-- `validate_public_base_url`. -/
def validatePublicBaseUrl (U : UrlLibrary) (value : Text) : Option Url :=
  (U.parse value).bind fun url => if baseUrlAllowed url then some (withSlash url) else none

/-- `v1/proofs/{sha256}.json`. -/
def artifactPath (sha256 : Text) : Text := text "v1/proofs/" ++ sha256 ++ text ".json"

/-- What the provider relies on: the parser writes domains in lower case and never empty, a relative
    path is appended to a base that ends in a slash, and what was joined reads back from its text. -/
structure UrlLibrary.Lawful (U : UrlLibrary) : Prop where
  domain_lower : ∀ value url name, U.parse value = some url →
    url.scheme = text "http" ∨ url.scheme = text "https" → url.host = some (.domain name) →
      name ≠ [] ∧ name.map Char.toLower = name
  join_artifactPath : ∀ value base sha256, validatePublicBaseUrl U value = some base →
    isLowerHex sha256 64 = true →
      U.join base (artifactPath sha256) = some { base with path := base.path ++ artifactPath sha256 }
  parse_toText : ∀ value base path url, validatePublicBaseUrl U value = some base →
    U.join base path = some url → U.parse (U.toText url) = some url

/-! ### Processing -/

/-- What the proof engine returns after native verification. -/
structure VerifiedProofArtifact where
  proof_bytes : List UInt8
  statement : ProofStatement
  program_hash : FeltHex
  metrics : JobMetrics
  deriving DecidableEq

/-- Metadata returned after an artifact is durably stored. -/
structure StoredArtifact where
  sha256 : Text
  byte_size : ℕ
  deriving DecidableEq, Repr

inductive ArtifactError where
  | invalidSize
  | digestCollisionOrCorruption
  | io
  deriving DecidableEq, Repr

inductive ProcessingError where
  | busy
  | worker
  | proving
  | requestBinding
  | artifact (e : ArtifactError)
  | descriptor
  deriving DecidableEq, Repr

namespace ProcessingError

def publicCode : ProcessingError → ErrorCode
  | .busy => .busy
  | .artifact _ => .artifactUnavailable
  | .proving | .requestBinding => .provingFailed
  | .worker | .descriptor => .internal

def publicMessage : ProcessingError → Text
  | .busy => text "provider is at proof capacity; retry later"
  | .artifact _ => text "proof artifact is temporarily unavailable"
  | .proving | .requestBinding => text "proof generation failed"
  | .worker | .descriptor => text "provider could not complete the request"

end ProcessingError

/-- What one call of `process` meets: a slot or none, the worker's outcome (`none` when the worker
    terminated), and the store's answer to the proof bytes. -/
structure Answers where
  slot : Bool
  worker : Option (Except Text VerifiedProofArtifact)
  put : List UInt8 → Except ArtifactError StoredArtifact

/-- Every proving slot is taken. -/
def busyAnswers : Answers := ⟨false, none, fun _ => .error .io⟩

/-- The public projection of an input, which a statement has to carry. -/
def publicInput : JobInput → List FeltHex
  | .fibonacci n => [FeltHex.fromU64 n]
  | .hashVerify hash _ => [hash]
  | .merkleProof root leaf _ index => [root, leaf, FeltHex.fromU64 index]

def statementMatchesRequest (statement : ProofStatement) (input : JobInput) : Bool :=
  if statement.service ≠ input.service then false
  else
    match input with
    | .fibonacci n => statement.public_input = [FeltHex.fromU64 n]
    | .hashVerify hash _ => statement.public_input = [hash]
    | .merkleProof root leaf _ index =>
      statement.public_input = [root, leaf, FeltHex.fromU64 index]

/-- The reference to a stored artifact. -/
def descriptorFor (U : UrlLibrary) (base : Url) (stored : StoredArtifact) (program_hash : FeltHex) :
    Option ProofDescriptor :=
  (U.join base (artifactPath stored.sha256)).map fun url => {
    format := proofFormat
    media_type := proofMediaType
    url := U.toText url
    sha256 := stored.sha256
    byte_size := stored.byte_size
    program_hash := program_hash
    channel := proofChannel }

/-- Produce a result ready for event publication. -/
def process (U : UrlLibrary) (base : Url) (answers : Answers) (request : JobRequest) :
    Except ProcessingError JobResultContent := do
  rejectIf (¬ answers.slot) .busy
  let outcome ← orReject answers.worker .worker
  let artifact ← mapReject outcome fun _ => .proving
  rejectIf (¬ statementMatchesRequest artifact.statement request.input) .requestBinding
  let stored ← mapReject (answers.put artifact.proof_bytes) .artifact
  let descriptor ← orReject (descriptorFor U base stored artifact.program_hash) .descriptor
  mapReject (descriptor.validate U.parse) fun _ => .descriptor
  let result := JobResultContent.newSuccess request.id artifact.statement descriptor artifact.metrics
  mapReject (result.validate U.parse) fun _ => .descriptor
  return result

/-- The result to publish: the success, or a sanitized error about the same request. -/
def resultFor (request : JobRequest) : Except ProcessingError JobResultContent → JobResultContent
  | .ok result => result
  | .error e => .newError request.id e.publicCode e.publicMessage

theorem statementMatchesRequest_iff {s : ProofStatement} {i : JobInput} :
    statementMatchesRequest s i = true ↔ s.service = i.service ∧ s.public_input = publicInput i := by
  unfold statementMatchesRequest
  by_cases hs : s.service = i.service
  · rw [if_neg (not_not.mpr hs)]
    cases i <;> simp [hs, publicInput]
  · rw [if_pos hs]
    simp [hs]

/-- A success has passed every check, and is about the request it answers. -/
theorem process_eq_ok {U : UrlLibrary} {base : Url} {answers : Answers} {request : JobRequest}
    {result : JobResultContent} (h : process U base answers request = .ok result) :
    ∃ artifact stored descriptor, answers.worker = some (.ok artifact) ∧
      answers.put artifact.proof_bytes = .ok stored ∧
      descriptorFor U base stored artifact.program_hash = some descriptor ∧
      statementMatchesRequest artifact.statement request.input = true ∧
      result = .newSuccess request.id artifact.statement descriptor artifact.metrics ∧
      result.validate U.parse = .ok () := by
  simp only [process, bind_eq_ok, rejectIf_eq_ok, orReject_eq_ok, mapReject_eq_ok, pure_eq_ok,
    exists_unit, not_not] at h
  obtain ⟨-, outcome, hworker, artifact, rfl, hbound, stored, hput, descriptor, hdescriptor, -,
    hvalid, rfl⟩ := h
  exact ⟨artifact, stored, descriptor, hworker, hput, hdescriptor, hbound, rfl, hvalid⟩

/-- Every public message passes the check that clients make. -/
theorem messageOk_publicMessage (e : ProcessingError) :
    JobError.MessageOk (JobError.new e.publicCode e.publicMessage).message := by
  have hp : 'p' ∈ e.publicMessage := by
    cases e <;> exact List.elem_iff.mp rfl
  exact JobError.messageOk_new _ ⟨'p', hp, by decide⟩

end SoulSociety.Provider
