import SoulSociety.Core.Types

/-! Typed results of a job (`soul-core/src/types.rs`, second half): outputs, the statement that a
    proof binds, the reference to the proof artifact, timings, and the versioned result content. -/

namespace SoulSociety.Core
open Lib

/-- Typed service output. -/
inductive JobOutput where
  | fibonacci (result : FeltHex)
  | hashVerify (valid : Bool)
  | merkleProof (valid : Bool)
  deriving DecidableEq

namespace JobOutput

/-- Service encoded by this output variant. -/
def service : JobOutput → ServiceType
  | .fibonacci _ => .fibonacci
  | .hashVerify _ => .hashVerify
  | .merkleProof _ => .merkleProof

def toJson : JobOutput → Json
  | .fibonacci result =>
    .obj [(key "type", jsonText (text "fibonacci")), (key "result", result.toJson)]
  | .hashVerify valid =>
    .obj [(key "type", jsonText (text "hash_verify")), (key "valid", .bool valid)]
  | .merkleProof valid =>
    .obj [(key "type", jsonText (text "merkle_proof")), (key "valid", .bool valid)]

end JobOutput

/-- Public facts bound by the STWO proof and the trusted Cairo program. -/
structure ProofStatement where
  service : ServiceType
  program : Text
  public_input : List FeltHex
  public_output : List FeltHex
  output : JobOutput
  deriving DecidableEq

namespace ProofStatement

/-- `u64::from(valid)`. -/
def boolU64 (valid : Bool) : ℕ := if valid then 1 else 0

/-- The arity of the public input and the raw form of the typed output. -/
def layoutMatches (s : ProofStatement) : Bool :=
  match s.service, s.output with
  | .fibonacci, .fibonacci result => s.public_input.length = 1 && s.public_output = [result]
  | .hashVerify, .hashVerify valid =>
    s.public_input.length = 1 && s.public_output = [FeltHex.fromU64 (boolU64 valid)]
  | .merkleProof, .merkleProof valid =>
    s.public_input.length = 3 && s.public_output = [FeltHex.fromU64 (boolU64 valid)]
  | _, _ => false

/-- Validate program, output service, and statement size. -/
def validate (s : ProofStatement) : Except ValidationError Unit := do
  rejectIf (s.program ≠ cairoProgram ∨ utf8Len s.program > 64 ∨ s.service ≠ s.output.service)
    .invalidStatement
  rejectIf (s.public_input.length > maxMerkleDepth + 4 ∨
    s.public_output.length > maxMerkleDepth + 8) .invalidStatement
  rejectIf (¬ s.layoutMatches) .invalidStatement

def toJson (s : ProofStatement) : Json :=
  .obj [(key "service", jsonText s.service.asStr), (key "program", jsonText s.program),
    (key "public_input", .arr (s.public_input.map FeltHex.toJson)),
    (key "public_output", .arr (s.public_output.map FeltHex.toJson)),
    (key "output", s.output.toJson)]

/-- The size bounds and the service comparison follow from the program name and the layout. -/
theorem validate_iff {s : ProofStatement} {u : Unit} :
    s.validate = .ok u ↔ s.program = cairoProgram ∧ s.layoutMatches = true := by
  simp only [validate, bind_eq_ok, rejectIf_eq_ok, exists_unit, not_or, not_not]
  constructor
  · rintro ⟨⟨hprogram, -⟩, -, hlayout⟩
    exact ⟨hprogram, hlayout⟩
  · rintro ⟨hprogram, hlayout⟩
    obtain ⟨service, program, public_input, public_output, output⟩ := s
    have hlong : ¬ utf8Len cairoProgram > 64 := by decide
    refine ⟨⟨hprogram, hprogram ▸ hlong, ?_⟩, ?_, hlayout⟩
    · cases service <;> cases output <;> first | rfl | cases hlayout
    · cases service <;> cases output <;>
        simp_all [layoutMatches, maxMerkleDepth]

end ProofStatement

/-- Content-addressed reference to a proof artifact. -/
structure ProofDescriptor where
  format : Text
  media_type : Text
  url : Text
  sha256 : Text
  byte_size : ℕ
  program_hash : FeltHex
  channel : Text
  deriving DecidableEq

/-- `localhost`, in any case, or a loopback address. -/
def isLoopbackHost (url : Url) : Bool :=
  match url.host with
  | some (.domain name) => name.map Char.toLower = text "localhost"
  | some host => host.isLoopback
  | none => false

namespace ProofDescriptor

/-- The metadata checks of `validate`, which come before the digest and the URL. -/
def MetadataOk (d : ProofDescriptor) : Prop :=
  d.format = proofFormat ∧ d.media_type = proofMediaType ∧ d.channel = proofChannel ∧
    d.byte_size ≠ 0 ∧ d.byte_size ≤ maxProofBytes

instance (d : ProofDescriptor) : Decidable d.MetadataOk := by unfold MetadataOk; infer_instance

/-- HTTPS with a host, or HTTP on a loopback host. -/
def urlAllowed (url : Url) : Bool :=
  (url.scheme = text "http" || url.scheme = text "https") && url.host.isSome &&
    !(url.scheme = text "http" && !isLoopbackHost url)

/-- Validate immutable proof metadata before a client performs a fetch. -/
def validate (parseUrl : Text → Option Url) (d : ProofDescriptor) : Except ValidationError Unit := do
  rejectIf (¬ d.MetadataOk) .invalidProofDescriptor
  rejectIf (¬ isLowerHex d.sha256 64) .invalidProofDescriptor
  let url ← orReject (parseUrl d.url) .invalidProofDescriptor
  rejectIf (¬ urlAllowed url) .invalidProofDescriptor

/-- The URL policy of `validate`. -/
def UrlOk (parseUrl : Text → Option Url) (d : ProofDescriptor) : Prop :=
  ∃ url, parseUrl d.url = some url ∧ urlAllowed url = true

def toJson (d : ProofDescriptor) : Json :=
  .obj [(key "format", jsonText d.format), (key "media_type", jsonText d.media_type),
    (key "url", jsonText d.url), (key "sha256", jsonText d.sha256),
    (key "byte_size", jsonNat d.byte_size), (key "program_hash", d.program_hash.toJson),
    (key "channel", jsonText d.channel)]

theorem validate_iff {parseUrl : Text → Option Url} {d : ProofDescriptor} {u : Unit} :
    d.validate parseUrl = .ok u ↔
      d.MetadataOk ∧ isLowerHex d.sha256 64 = true ∧ d.UrlOk parseUrl := by
  simp [validate, UrlOk]

end ProofDescriptor

/-- Provider-side timings. Values are measurements, not proof claims. -/
structure JobMetrics where
  execution_ms : ℕ
  proving_ms : ℕ
  verification_ms : ℕ
  deriving DecidableEq, Repr

namespace JobMetrics

/-- Wire numbers are exactly representable by JavaScript clients. -/
def Safe (m : JobMetrics) : Prop :=
  m.execution_ms ≤ maxSafeInteger ∧ m.proving_ms ≤ maxSafeInteger ∧
    m.verification_ms ≤ maxSafeInteger

/-- Keep wire numbers exactly representable by JavaScript clients. -/
def validate (m : JobMetrics) : Except ValidationError Unit :=
  rejectIf ([m.execution_ms, m.proving_ms, m.verification_ms].any fun v => v > maxSafeInteger)
    .invalidResult

def toJson (m : JobMetrics) : Json :=
  .obj [(key "execution_ms", jsonNat m.execution_ms), (key "proving_ms", jsonNat m.proving_ms),
    (key "verification_ms", jsonNat m.verification_ms)]

theorem validate_iff {m : JobMetrics} {u : Unit} : m.validate = .ok u ↔ m.Safe := by
  simp [validate, Safe]

/-- The timings are of the kind. -/
def Numbers (ok : ℕ → Prop) (m : JobMetrics) : Prop :=
  ok m.execution_ms ∧ ok m.proving_ms ∧ ok m.verification_ms

end JobMetrics

/-- Stable public error categories. -/
inductive ErrorCode where
  | invalidRequest
  | unsupportedService
  | expired
  | duplicate
  | busy
  | provingFailed
  | artifactUnavailable
  | internal
  deriving DecidableEq, Repr

/-- Wire name of an error category. -/
def ErrorCode.asStr : ErrorCode → Text
  | .invalidRequest => text "invalid_request"
  | .unsupportedService => text "unsupported_service"
  | .expired => text "expired"
  | .duplicate => text "duplicate"
  | .busy => text "busy"
  | .provingFailed => text "proving_failed"
  | .artifactUnavailable => text "artifact_unavailable"
  | .internal => text "internal"

theorem ErrorCode.asStr_injective : ∀ {a b : ErrorCode}, a.asStr = b.asStr → a = b := by
  intro a b h
  cases a <;> cases b <;> first | rfl | exact absurd h (by decide)

/-- `char::is_control`: the Unicode category `Cc`. -/
def isControl (c : Char) : Bool := c.toNat < 0x20 || (0x7f ≤ c.toNat && c.toNat < 0xa0)

/-- Sanitized error safe to publish on a public relay. -/
structure JobError where
  code : ErrorCode
  message : Text
  deriving DecidableEq, Repr

namespace JobError

/-- Construct a stable, bounded public message. -/
def new (code : ErrorCode) (message : Text) : JobError where
  code := code
  message := (message.filter fun c => !isControl c).take 160

/-- What `JobResultContent::validate` asks of a message. -/
def MessageOk (message : Text) : Prop :=
  message ≠ [] ∧ message.length ≤ 160 ∧ message.any isControl = false

instance (message : Text) : Decidable (MessageOk message) := by unfold MessageOk; infer_instance

def toJson (e : JobError) : Json :=
  .obj [(key "code", jsonText e.code.asStr), (key "message", jsonText e.message)]

end JobError

/-- Versioned result content. -/
inductive JobResultContent where
  | success (protocol request_id : Text) (statement : ProofStatement) (proof : ProofDescriptor)
      (metrics : JobMetrics)
  | error (protocol request_id : Text) (error : JobError)
  deriving DecidableEq

/-- `validate_result_header`. -/
def validateResultHeader (protocol request_id : Text) : Except ValidationError Unit :=
  rejectIf (protocol ≠ soulWireProtocol ∨ ¬ isLowerHex request_id 64) .invalidResult

namespace JobResultContent

/-- Construct a successful result. -/
def newSuccess (request_id : Text) (statement : ProofStatement) (proof : ProofDescriptor)
    (metrics : JobMetrics) : JobResultContent :=
  .success soulWireProtocol request_id statement proof metrics

/-- Construct a safe error result. -/
def newError (request_id : Text) (code : ErrorCode) (message : Text) : JobResultContent :=
  .error soulWireProtocol request_id (JobError.new code message)

/-- Request event ID bound by this result. -/
def requestId : JobResultContent → Text
  | .success _ request_id _ _ _ | .error _ request_id _ => request_id

/-- Soul Wire status tag value. -/
def status : JobResultContent → Text
  | .success _ _ _ _ _ => text "success"
  | .error _ _ _ => text "error"

/-- Validate all nested public values. -/
def validate (parseUrl : Text → Option Url) : JobResultContent → Except ValidationError Unit
  | .success protocol request_id statement proof metrics => do
    validateResultHeader protocol request_id
    statement.validate
    proof.validate parseUrl
    metrics.validate
  | .error protocol request_id err => do
    validateResultHeader protocol request_id
    rejectIf (¬ JobError.MessageOk err.message) .invalidResult

def toJson : JobResultContent → Json
  | .success protocol request_id statement proof metrics =>
    .obj [(key "status", jsonText (text "success")), (key "protocol", jsonText protocol),
      (key "request_id", jsonText request_id), (key "statement", statement.toJson),
      (key "proof", proof.toJson), (key "metrics", metrics.toJson)]
  | .error protocol request_id err =>
    .obj [(key "status", jsonText (text "error")), (key "protocol", jsonText protocol),
      (key "request_id", jsonText request_id), (key "error", err.toJson)]

/-- `serde_json::to_string(&result)`. -/
def toText (c : JobResultContent) : Text := Json.stringify c.toJson

/-- Everything `validate` asks for except the URL policy. -/
def Shaped : JobResultContent → Prop
  | .success protocol request_id statement proof metrics =>
    protocol = soulWireProtocol ∧ isLowerHex request_id 64 = true ∧
      (statement.program = cairoProgram ∧ statement.layoutMatches = true) ∧
      (proof.MetadataOk ∧ isLowerHex proof.sha256 64 = true) ∧ metrics.Safe
  | .error protocol request_id err =>
    protocol = soulWireProtocol ∧ isLowerHex request_id 64 = true ∧
      JobError.MessageOk err.message

/-- The URL policy, where there is a URL. -/
def UrlOk (parseUrl : Text → Option Url) : JobResultContent → Prop
  | .success _ _ _ proof _ => proof.UrlOk parseUrl
  | .error _ _ _ => True

theorem validate_iff {parseUrl : Text → Option Url} {c : JobResultContent} {u : Unit} :
    c.validate parseUrl = .ok u ↔ c.Shaped ∧ c.UrlOk parseUrl := by
  cases c with
  | success protocol request_id statement proof metrics =>
    simp only [validate, validateResultHeader, bind_eq_ok, rejectIf_eq_ok, exists_unit,
      ProofStatement.validate_iff, ProofDescriptor.validate_iff, JobMetrics.validate_iff, Shaped,
      UrlOk, not_or, not_not]
    tauto
  | error protocol request_id err =>
    simp only [validate, validateResultHeader, bind_eq_ok, rejectIf_eq_ok, exists_unit, Shaped,
      UrlOk, not_or, not_not]
    tauto

/-- The integers of a result are of the kind. -/
def Numbers (ok : ℕ → Prop) : JobResultContent → Prop
  | .success _ _ _ proof metrics => ok proof.byte_size ∧ metrics.Numbers ok
  | .error _ _ _ => True

/-- The checks leave safe integers only. -/
theorem numbers_of_shaped {ok : ℕ → Prop} (hok : ∀ n ≤ maxSafeInteger, ok n) :
    ∀ {c : JobResultContent}, c.Shaped → c.Numbers ok
  | .success _ _ _ _ _, ⟨_, _, _, ⟨⟨_, _, _, _, hsize⟩, _⟩, hexecution, hproving, hverification⟩ =>
    ⟨hok _ (Nat.le_trans hsize (by decide)), hok _ hexecution, hok _ hproving, hok _ hverification⟩
  | .error _ _ _, _ => trivial

end JobResultContent

/-- A sanitized message passes the message check unless nothing is left of it. -/
theorem JobError.messageOk_new (code : ErrorCode) {message : Text}
    (h : ∃ c ∈ message, isControl c = false) : MessageOk (JobError.new code message).message := by
  obtain ⟨c, hc, hctl⟩ := h
  have hmem : c ∈ message.filter fun c => !isControl c := by simp [hc, hctl]
  refine ⟨?_, List.length_take_le _ _, ?_⟩
  · intro hnil
    rw [JobError.new, List.take_eq_nil_iff] at hnil
    rcases hnil with h | h
    · exact absurd h (by decide)
    · rw [h] at hmem; cases hmem
  · rw [List.any_eq_false]
    intro d hd
    have hd' := List.mem_of_mem_take hd
    simp only [List.mem_filter, Bool.not_eq_true'] at hd'
    rw [hd'.2]
    exact Bool.false_ne_true

end SoulSociety.Core
