import SoulSociety.Core.Results

/-! Values of the SDK (`soul-sdk/src/types.ts`, `constants.ts`, `canonical.ts`, `errors.ts`).

    Strings are `JsString`, so a value read from JSON can hold an unpaired surrogate. The closed
    enumerations and the metrics are those of `soul-core`; every other type has its own form here,
    because a field element or a string has no invariant before the SDK has checked it. -/

namespace SoulSociety.Sdk
open Lib SoulSociety.Core

/-- A string literal of the source. -/
abbrev js (s : String) : JsString := key s

/-- An event of `nostr-tools`: any strings, any numbers. -/
abbrev Event := SignedEvent JsString Number

/-- An event to be signed. Its numbers are the ones the job chose. -/
structure EventTemplate where
  kind : ℕ
  created_at : ℕ
  tags : List (List JsString)
  content : JsString
  deriving DecidableEq, Repr

/-- A value of `ServiceType`. -/
def serviceValue : ServiceType → JsString
  | .fibonacci => js "fibonacci"
  | .hashVerify => js "hash_verify"
  | .merkleProof => js "merkle_proof"

/-- A value of `ErrorCode`. -/
def errorCodeValue : ErrorCode → JsString
  | .invalidRequest => js "invalid_request"
  | .unsupportedService => js "unsupported_service"
  | .expired => js "expired"
  | .duplicate => js "duplicate"
  | .busy => js "busy"
  | .provingFailed => js "proving_failed"
  | .artifactUnavailable => js "artifact_unavailable"
  | .internal => js "internal"

/-- The kind of a request event for the service. -/
def getRequestKind : ServiceType → ℕ
  | .fibonacci => 5601
  | .hashVerify => 5602
  | .merkleProof => 5603

/-- A result kind is its request kind plus 1000. -/
def getResultKind (service : ServiceType) : ℕ := getRequestKind service + 1000

/-- The service of a request kind or of a result kind. -/
def serviceFromKind : Number → Option ServiceType
  | .nat 5601 | .nat 6601 => some .fibonacci
  | .nat 5602 | .nat 6602 => some .hashVerify
  | .nat 5603 | .nat 6603 => some .merkleProof
  | _ => none

/-! ### Values -/

/-- An input as the caller or the JSON gives it. Hashes and field elements are still strings. -/
inductive JobInput where
  | fibonacci (n : ℕ)
  | hashVerify (hash preimage : JsString)
  | merkleProof (root leaf : JsString) (proof : List JsString) (index : ℕ)
  deriving DecidableEq, Repr

/-- `input.type`. -/
def serviceForInput : JobInput → ServiceType
  | .fibonacci _ => .fibonacci
  | .hashVerify _ _ => .hashVerify
  | .merkleProof _ _ _ _ => .merkleProof

/-- The content of a request event. -/
structure JobRequestContent where
  protocol : JsString
  service : ServiceType
  input : JobInput
  expires_at : Option ℕ
  deriving DecidableEq, Repr

/-- What the Cairo program reports, by service. -/
inductive JobOutput where
  | fibonacci (result : JsString)
  | hashVerify (valid : Bool)
  | merkleProof (valid : Bool)
  deriving DecidableEq, Repr

/-- `output.type`. -/
def JobOutput.type : JobOutput → ServiceType
  | .fibonacci _ => .fibonacci
  | .hashVerify _ => .hashVerify
  | .merkleProof _ => .merkleProof

/-- What is proved: the public values of one run of the Cairo program, raw and typed. -/
structure ProofStatement where
  service : ServiceType
  program : JsString
  public_input : List JsString
  public_output : List JsString
  output : JobOutput
  deriving DecidableEq, Repr

/-- Where the proof is, and what its bytes have to be. -/
structure ProofDescriptor where
  format : JsString
  media_type : JsString
  url : JsString
  sha256 : JsString
  byte_size : ℕ
  program_hash : JsString
  channel : JsString
  deriving DecidableEq, Repr

/-- What a provider says when it has no proof. -/
structure JobError where
  code : ErrorCode
  message : JsString
  deriving DecidableEq, Repr

/-- `SuccessfulJobResult`. -/
structure SuccessfulJobResult where
  protocol : JsString
  request_id : JsString
  statement : ProofStatement
  proof : ProofDescriptor
  metrics : JobMetrics
  deriving DecidableEq, Repr

/-- `FailedJobResult`. -/
structure FailedJobResult where
  protocol : JsString
  request_id : JsString
  error : JobError
  deriving DecidableEq, Repr

/-- The content of a result event, told apart by `status`. -/
inductive JobResult where
  | success (result : SuccessfulJobResult)
  | error (result : FailedJobResult)
  deriving DecidableEq, Repr

namespace JobResult

/-- The request that the result answers. -/
def requestId : JobResult → JsString
  | .success r => r.request_id
  | .error r => r.request_id

/-- The `status` member, which the `status` tag repeats. -/
def status : JobResult → JsString
  | .success _ => js "success"
  | .error _ => js "error"

end JobResult

/-- A request event that passed `validateRequestEvent`, with its content read. -/
structure ValidatedRequest where
  event : Event
  content : JobRequestContent
  canonicalContent : JsString
  deriving DecidableEq, Repr

/-- A result event that passed `validateResultEvent`, with its content read. -/
structure ValidatedResult where
  event : Event
  content : JobResult
  deriving DecidableEq, Repr

/-! ### Canonical encoders -/

/-- `canonicalizeInput`: the same fields in a fixed order, which a constructor has anyway. -/
def canonicalizeInput : JobInput → JobInput
  | .fibonacci n => .fibonacci n
  | .hashVerify hash preimage => .hashVerify hash preimage
  | .merkleProof root leaf proof index => .merkleProof root leaf proof index

/-- The content of a request for the input, without `expires_at` if there is none. -/
def buildRequestContent (input : JobInput) (expiresAt : Option ℕ) : JobRequestContent where
  protocol := ofText soulWireProtocol
  service := serviceForInput input
  input := canonicalizeInput input
  expires_at := expiresAt

/-- An input as an object, its members in the order of `canonicalizeInput`. -/
def inputJson : JobInput → Json
  | .fibonacci n => .obj [(js "type", .str (serviceValue .fibonacci)), (js "n", jsonNat n)]
  | .hashVerify hash preimage =>
    .obj [(js "type", .str (serviceValue .hashVerify)), (js "hash", .str hash),
      (js "preimage", .str preimage)]
  | .merkleProof root leaf proof index =>
    .obj [(js "type", .str (serviceValue .merkleProof)), (js "root", .str root),
      (js "leaf", .str leaf), (js "proof", .arr (proof.map .str)), (js "index", jsonNat index)]

/-- The content of a request as an object, its members in canonical order. -/
def requestContentJson (c : JobRequestContent) : Json :=
  .obj ([(js "protocol", .str c.protocol), (js "service", .str (serviceValue c.service)),
    (js "input", inputJson c.input)] ++
      (c.expires_at.map fun e => (js "expires_at", jsonNat e)).toList)

/-- The canonical text of a request. It is rebuilt from the input, so that `service` follows it. -/
def serializeRequestContent (content : JobRequestContent) : Text :=
  Json.stringify (requestContentJson (buildRequestContent content.input content.expires_at))

/-- The same fields in a fixed order. -/
def canonicalizeOutput : JobOutput → JobOutput
  | .fibonacci result => .fibonacci result
  | .hashVerify valid => .hashVerify valid
  | .merkleProof valid => .merkleProof valid

/-- The same fields in a fixed order, under the one name of the program. -/
def canonicalizeStatement (s : ProofStatement) : ProofStatement where
  service := s.service
  program := ofText cairoProgram
  public_input := s.public_input
  public_output := s.public_output
  output := canonicalizeOutput s.output

/-- An output as an object. -/
def outputJson : JobOutput → Json
  | .fibonacci result => .obj [(js "type", .str (serviceValue .fibonacci)), (js "result", .str result)]
  | .hashVerify valid => .obj [(js "type", .str (serviceValue .hashVerify)), (js "valid", .bool valid)]
  | .merkleProof valid =>
    .obj [(js "type", .str (serviceValue .merkleProof)), (js "valid", .bool valid)]

/-- A statement as an object. -/
def statementJson (s : ProofStatement) : Json :=
  .obj [(js "service", .str (serviceValue s.service)), (js "program", .str s.program),
    (js "public_input", .arr (s.public_input.map .str)),
    (js "public_output", .arr (s.public_output.map .str)), (js "output", outputJson s.output)]

/-- The canonical text of a statement, which the verifier is given. -/
def serializeProofStatement (s : ProofStatement) : Text :=
  Json.stringify (statementJson (canonicalizeStatement s))

/-- The same fields in a fixed order, under the names of the one format and channel. -/
def canonicalizeProofDescriptor (p : ProofDescriptor) : ProofDescriptor where
  format := ofText proofFormat
  media_type := ofText proofMediaType
  url := p.url
  sha256 := p.sha256
  byte_size := p.byte_size
  program_hash := p.program_hash
  channel := ofText proofChannel

/-- A descriptor as an object. -/
def descriptorJson (p : ProofDescriptor) : Json :=
  .obj [(js "format", .str p.format), (js "media_type", .str p.media_type), (js "url", .str p.url),
    (js "sha256", .str p.sha256), (js "byte_size", jsonNat p.byte_size),
    (js "program_hash", .str p.program_hash), (js "channel", .str p.channel)]

/-- The metrics as an object. -/
def metricsJson (m : JobMetrics) : Json :=
  .obj [(js "execution_ms", jsonNat m.execution_ms), (js "proving_ms", jsonNat m.proving_ms),
    (js "verification_ms", jsonNat m.verification_ms)]

/-- The same fields in a fixed order, under the name of the protocol. -/
def canonicalizeResult : JobResult → JobResult
  | .error r => .error { r with protocol := ofText soulWireProtocol }
  | .success r =>
    .success { r with
      protocol := ofText soulWireProtocol
      statement := canonicalizeStatement r.statement
      proof := canonicalizeProofDescriptor r.proof }

/-- A result as an object, `status` first. -/
def resultJson : JobResult → Json
  | .error r =>
    .obj [(js "status", .str (js "error")), (js "protocol", .str r.protocol),
      (js "request_id", .str r.request_id),
      (js "error", .obj [(js "code", .str (errorCodeValue r.error.code)),
        (js "message", .str r.error.message)])]
  | .success r =>
    .obj [(js "status", .str (js "success")), (js "protocol", .str r.protocol),
      (js "request_id", .str r.request_id), (js "statement", statementJson r.statement),
      (js "proof", descriptorJson r.proof), (js "metrics", metricsJson r.metrics)]

/-- The canonical text of a result. -/
def serializeResult (result : JobResult) : Text :=
  Json.stringify (resultJson (canonicalizeResult result))

/-! ### Errors -/

/-- A value of `LocalFailureCode`: what goes wrong on the side of the client. -/
inductive LocalFailureCode where
  | cancelled
  | publishFailed
  | resultTimeout
  | invalidResult
  | proofFetchFailed
  | proofHashMismatch
  | untrustedProgram
  | verificationFailed
  | verifierUnavailable
  deriving DecidableEq, Repr

/-- The code in a failed snapshot: the one the provider sent, or one of the SDK. -/
inductive FailureCode where
  | provider (code : ErrorCode)
  | sdk (code : LocalFailureCode)
  deriving DecidableEq, Repr

/-- What a failed snapshot shows. -/
structure JobFailure where
  code : FailureCode
  message : JsString
  retryable : Bool
  deriving DecidableEq, Repr

/-- What SDK code throws, and what it lets through from the platform. -/
inductive JsError where
  | wireValidation (message : String)
  | soulWire (code : LocalFailureCode) (message : JsString) (retryable : Bool)
  | provider (failure : JobFailure)
  | other (message : JsString)
  deriving DecidableEq, Repr

/-- `errorMessage`. -/
def errorMessage : JsError → JsString
  | .wireValidation message => js message
  | .soulWire _ message _ => message
  | .provider failure => failure.message
  | .other message => message

/-- `invalid(message)`. -/
abbrev invalid (message : String) : JsError := .wireValidation message

end SoulSociety.Sdk
