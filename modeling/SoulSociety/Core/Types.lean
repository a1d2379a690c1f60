import SoulSociety.Core.Constants
import SoulSociety.Lib.Check
import SoulSociety.Lib.Json
import SoulSociety.Lib.Url

/-! Typed Soul Wire request, statement, proof, and result values (`soul-core/src/types.rs`).

    A field element carries its canonical form, so no later check repeats it. Encoders give the
    document that `serde_json::to_string` writes for the derived `Serialize`; fields stand in the
    order of their declaration. The URL parser is a parameter. -/

namespace SoulSociety.Core
open Lib

inductive ValidationError where
  | invalidFelt
  | unsupportedProtocol
  | serviceMismatch
  | fibonacciOutOfRange
  | merkleDepthOutOfRange
  | merkleIndexOutOfRange
  | expired
  | invalidExpiry
  | invalidStatement
  | invalidProofDescriptor
  | invalidResult
  deriving DecidableEq, Repr

/-! ### Field elements -/

/-- What `FeltHex::parse` accepts: `0x`, 64 lowercase hexadecimal digits, below the modulus. -/
def isFelt : Text → Bool
  | '0' :: 'x' :: digits => isLowerHex digits 64 && decide (digits < cairoPrimeHex)
  | _ => false

/-- A canonical Cairo field element. -/
structure FeltHex where
  value : Text
  canonical : isFelt value = true
  deriving DecidableEq

namespace FeltHex

/-- Parse and validate a canonical field element. -/
def parse (value : Text) : Except ValidationError FeltHex :=
  if h : isFelt value = true then .ok ⟨value, h⟩ else .error .invalidFelt

theorem ext_value {a b : FeltHex} (h : a.value = b.value) : a = b := by
  cases a; cases b; cases h; rfl

@[simp] theorem value_inj {a b : FeltHex} : a.value = b.value ↔ a = b :=
  ⟨ext_value, fun h => h ▸ rfl⟩

/-- `{value:064x}`: hexadecimal, padded with zeros to 64 digits. -/
def hex64 (value : ℕ) : Text := List.leftpad 64 '0' (Nat.toDigits 16 value)

theorem isLowerHexDigit_digitChar : ∀ n < 16, isLowerHexDigit (Nat.digitChar n) = true := by decide

theorem all_toDigits_sixteen (n : ℕ) : (Nat.toDigits 16 n).all isLowerHexDigit = true := by
  induction n using Nat.strongRecOn with
  | ind n ih =>
    rw [Nat.toDigits_eq_if (by decide)]
    split
    · rename_i hn
      rw [List.all_cons, isLowerHexDigit_digitChar n hn]; rfl
    · rename_i hn
      rw [List.all_append, ih (n / 16) (by omega), List.all_cons,
        isLowerHexDigit_digitChar (n % 16) (Nat.mod_lt _ (by decide))]
      rfl

/-- A `u64` leaves at least 48 zeros in front. -/
theorem hex64_eq {n : ℕ} (h : n < 2 ^ 64) : ∃ ds, hex64 n = '0' :: '0' :: ds ∧ ds.length = 62 ∧
    ds.all isLowerHexDigit = true := by
  have hlen : (Nat.toDigits 16 n).length ≤ 16 :=
    (Nat.length_toDigits_le_iff (by decide) (by decide)).mpr (by omega)
  have hpad : 64 - (Nat.toDigits 16 n).length = (62 - (Nat.toDigits 16 n).length) + 1 + 1 := by
    omega
  refine ⟨List.replicate (62 - (Nat.toDigits 16 n).length) '0' ++ Nat.toDigits 16 n, ?_, ?_, ?_⟩
  · rw [hex64, List.leftpad, hpad, List.replicate_succ, List.replicate_succ]; rfl
  · rw [List.length_append, List.length_replicate]; omega
  · rw [List.all_append, all_toDigits_sixteen, Bool.and_true, List.all_eq_true]
    intro c hc
    rw [List.eq_of_mem_replicate hc]
    decide

theorem isFelt_hex64 {n : ℕ} (h : n < 2 ^ 64) : isFelt ('0' :: 'x' :: hex64 n) = true := by
  obtain ⟨ds, hds, hlen, hall⟩ := hex64_eq h
  have hlower : isLowerHex ('0' :: '0' :: ds) 64 = true := by
    refine isLowerHex_iff.mpr ⟨by simp [hlen], ?_⟩
    rw [List.all_cons, List.all_cons, hall]; decide
  have hlt : '0' :: '0' :: ds < cairoPrimeHex := by
    refine List.cons_lt_cons_iff.mpr (Or.inr ⟨rfl, List.cons_lt_cons_iff.mpr (Or.inl ?_)⟩)
    decide
  rw [hds, isFelt, hlower, decide_eq_true hlt]
  rfl

/-- Construct a field element from a `u64`. -/
def fromU64 (value : ℕ) : FeltHex :=
  ⟨'0' :: 'x' :: hex64 (value % 2 ^ 64), isFelt_hex64 (Nat.mod_lt _ (by decide))⟩

/-- `String::from(felt)` as a JSON value. -/
def toJson (f : FeltHex) : Json := .str (ofText f.value)

end FeltHex

/-- A `String` as a JSON value. -/
def jsonText (t : Text) : Json := .str (ofText t)

/-- An unsigned integer as a JSON value. -/
def jsonNat (n : ℕ) : Json := .num (.nat n)

/-- A field name. -/
def key (s : String) : JsString := ofText (text s)

/-! ### Services and inputs -/

/-- Stable service identifier used by event kinds, JSON, Cairo dispatch, and proof statements. -/
inductive ServiceType where
  | fibonacci
  | hashVerify
  | merkleProof
  deriving DecidableEq, Repr

namespace ServiceType

/-- Stable wire name. -/
def asStr : ServiceType → Text
  | .fibonacci => text "fibonacci"
  | .hashVerify => text "hash_verify"
  | .merkleProof => text "merkle_proof"

/-- Soul Wire request event kind. -/
def requestKind : ServiceType → ℕ
  | .fibonacci => fibonacciRequest
  | .hashVerify => hashVerifyRequest
  | .merkleProof => merkleProofRequest

/-- Soul Wire result event kind. -/
def resultKind : ServiceType → ℕ
  | .fibonacci => fibonacciResult
  | .hashVerify => hashVerifyResult
  | .merkleProof => merkleProofResult

/-- Resolve either a request or result event kind. -/
def fromKind (kind : ℕ) : Option ServiceType :=
  if kind = fibonacciRequest ∨ kind = fibonacciResult then some .fibonacci
  else if kind = hashVerifyRequest ∨ kind = hashVerifyResult then some .hashVerify
  else if kind = merkleProofRequest ∨ kind = merkleProofResult then some .merkleProof
  else none

/-- Whether this is one of Soul Wire's request kinds. -/
def isRequestKind (kind : ℕ) : Bool :=
  kind = fibonacciRequest || kind = hashVerifyRequest || kind = merkleProofRequest

theorem asStr_injective : ∀ {a b : ServiceType}, a.asStr = b.asStr → a = b := by
  intro a b h
  cases a <;> cases b <;> first | rfl | exact absurd h (by decide)

/-- The request kinds are exactly those of the services. -/
theorem request_kind_iff {kind : ℕ} {s : ServiceType} :
    isRequestKind kind = true ∧ fromKind kind = some s ↔ kind = s.requestKind := by
  constructor
  · rintro ⟨hreq, hkind⟩
    simp only [isRequestKind, Bool.or_eq_true, decide_eq_true_eq] at hreq
    rcases hreq with (rfl | rfl) | rfl <;> cases hkind <;> rfl
  · rintro rfl
    cases s <;> decide

end ServiceType

/-- Service-specific input. -/
inductive JobInput where
  | fibonacci (n : ℕ)
  | hashVerify (hash preimage : FeltHex)
  | merkleProof (root leaf : FeltHex) (proof : List FeltHex) (index : ℕ)
  deriving DecidableEq

namespace JobInput

/-- Service encoded by this input variant. -/
def service : JobInput → ServiceType
  | .fibonacci _ => .fibonacci
  | .hashVerify _ _ => .hashVerify
  | .merkleProof _ _ _ _ => .merkleProof

/-- Validate bounds which would otherwise make proving expensive or ambiguous. -/
def validate : JobInput → Except ValidationError Unit
  | .fibonacci n => rejectIf (n > maxFibonacciN) .fibonacciOutOfRange
  | .merkleProof _ _ proof index => do
    rejectIf (proof.length > maxMerkleDepth) .merkleDepthOutOfRange
    rejectIf (¬ if proof = [] then index = 0 else index < 1 <<< proof.length) .merkleIndexOutOfRange
  | .hashVerify _ _ => .ok ()

def toJson : JobInput → Json
  | .fibonacci n => .obj [(key "type", jsonText (text "fibonacci")), (key "n", jsonNat n)]
  | .hashVerify hash preimage =>
    .obj [(key "type", jsonText (text "hash_verify")), (key "hash", hash.toJson),
      (key "preimage", preimage.toJson)]
  | .merkleProof root leaf proof index =>
    .obj [(key "type", jsonText (text "merkle_proof")), (key "root", root.toJson),
      (key "leaf", leaf.toJson), (key "proof", .arr (proof.map FeltHex.toJson)),
      (key "index", jsonNat index)]

/-- The empty path is no special case: `1 << 0` leaves index `0` only. -/
theorem validate_iff {i : JobInput} {u : Unit} : i.validate = .ok u ↔
    match i with
    | .fibonacci n => n ≤ maxFibonacciN
    | .hashVerify _ _ => True
    | .merkleProof _ _ proof index => proof.length ≤ maxMerkleDepth ∧ index < 2 ^ proof.length := by
  cases i with
  | fibonacci n => simp [validate]
  | hashVerify _ _ => simp [validate]
  | merkleProof root leaf proof index =>
    simp only [validate, bind_eq_ok, rejectIf_eq_ok, Nat.one_shiftLeft, not_not, gt_iff_lt]
    cases proof with
    | nil => simp
    | cons p ps => simp

/-- The integers of an input are of the kind. -/
def Numbers (ok : ℕ → Prop) : JobInput → Prop
  | .fibonacci n => ok n
  | .hashVerify _ _ => True
  | .merkleProof _ _ _ index => ok index

instance {ok : ℕ → Prop} [DecidablePred ok] : ∀ i : JobInput, Decidable (i.Numbers ok)
  | .fibonacci n => inferInstanceAs (Decidable (ok n))
  | .hashVerify _ _ => isTrue trivial
  | .merkleProof _ _ _ index => inferInstanceAs (Decidable (ok index))

/-- The bounds leave small integers only. -/
theorem numbers_of_valid {ok : ℕ → Prop} (hok : ∀ n ≤ 2 ^ 32, ok n) {i : JobInput}
    (h : i.validate = .ok ()) : i.Numbers ok := by
  have h := validate_iff.mp h
  cases i with
  | fibonacci n => exact hok n (Nat.le_trans h (by decide))
  | hashVerify _ _ => exact trivial
  | merkleProof root leaf proof index =>
    have hpow : 2 ^ proof.length ≤ 2 ^ 32 := Nat.pow_le_pow_right (by decide) h.1
    exact hok index (Nat.le_trans (Nat.le_of_lt h.2) hpow)

end JobInput

/-- Canonical request content. -/
structure JobRequestContent where
  protocol : Text
  service : ServiceType
  input : JobInput
  expires_at : Option ℕ
  deriving DecidableEq

namespace JobRequestContent

/-- Construct a request using the current protocol identifier. -/
def new (input : JobInput) (expires_at : Option ℕ) : JobRequestContent where
  protocol := soulWireProtocol
  service := input.service
  input := input
  expires_at := expires_at

/-- Validate protocol, variant binding, expiry, and service-specific bounds. -/
def validate (c : JobRequestContent) (created_at now : ℕ) : Except ValidationError Unit := do
  rejectIf (c.protocol ≠ soulWireProtocol) .unsupportedProtocol
  rejectIf (c.service ≠ c.input.service) .serviceMismatch
  c.input.validate
  match c.expires_at with
  | some expires_at => do
    rejectIf (expires_at ≤ now) .expired
    rejectIf (expires_at < created_at ∨ expires_at - created_at > maxRequestTtlSecs) .invalidExpiry
  | none => return

def toJson (c : JobRequestContent) : Json :=
  .obj ([(key "protocol", jsonText c.protocol), (key "service", jsonText c.service.asStr),
    (key "input", c.input.toJson)] ++ (c.expires_at.map fun e => (key "expires_at", jsonNat e)).toList)

/-- Stable compact JSON used as both content and `i` tag value. -/
def canonicalJson (c : JobRequestContent) : Text := Json.stringify c.toJson

/-- The integers of a content are of the kind. -/
def Numbers (ok : ℕ → Prop) (c : JobRequestContent) : Prop :=
  c.input.Numbers ok ∧ ∀ e ∈ c.expires_at, ok e

instance {ok : ℕ → Prop} [DecidablePred ok] (c : JobRequestContent) : Decidable (c.Numbers ok) := by
  unfold Numbers; infer_instance

/-- The expiry is after the clock and within an hour of the request. -/
def ExpiryOk (expires_at : Option ℕ) (created_at now : ℕ) : Prop :=
  ∀ e, expires_at = some e → now < e ∧ created_at ≤ e ∧ e - created_at ≤ maxRequestTtlSecs

theorem validate_iff {c : JobRequestContent} {created_at now : ℕ} {u : Unit} :
    c.validate created_at now = .ok u ↔
      c = new c.input c.expires_at ∧ c.input.validate = .ok () ∧
        ExpiryOk c.expires_at created_at now := by
  obtain ⟨protocol, service, input, expires_at⟩ := c
  have hnew : (⟨protocol, service, input, expires_at⟩ : JobRequestContent) =
      new input expires_at ↔ protocol = soulWireProtocol ∧ service = input.service := by
    simp [new]
  rw [hnew]
  cases expires_at with
  | none => simp [validate, ExpiryOk, and_assoc]
  | some e => simp [validate, ExpiryOk, and_assoc]

/-- A validated content declares the service of its input. -/
theorem service_of_validate {c : JobRequestContent} {created_at now : ℕ}
    (h : c.validate created_at now = .ok ()) : c.service = c.input.service :=
  congrArg service (validate_iff.mp h).1

end JobRequestContent

/-- A validated request plus authenticated Nostr metadata. -/
structure JobRequest where
  id : Text
  service : ServiceType
  input : JobInput
  bid_msats : ℕ
  customer_pubkey : Text
  created_at : ℕ
  expires_at : Option ℕ
  canonical_input : Text
  serialized_event : Text
  deriving DecidableEq

end SoulSociety.Core
