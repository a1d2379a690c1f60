import SoulSociety.Sdk.Validation

/-! The values of `soul-core` as values of the SDK. Every Rust value has an SDK form with the same
    document; a field element that passed the check of the SDK is the form of a `FeltHex`. -/

namespace SoulSociety
open Lib SoulSociety.Core

/-! ### Field elements -/

/-- On hexadecimal text the UTF-16 order is the character order. -/
theorem Sdk.codeUnits_ofText : ∀ {t : Text}, (∀ c ∈ t, c.toNat < 0x10000) →
    Sdk.codeUnits (ofText t) = t.map Char.toNat
  | [], _ => rfl
  | c :: t, h => by
    have ht : Sdk.codeUnits (ofText t) = t.map Char.toNat :=
      Sdk.codeUnits_ofText fun d hd => h d (List.mem_cons_of_mem _ hd)
    have hc : c.toNat < 0x10000 := h c (List.mem_cons_self ..)
    rw [Sdk.codeUnits] at ht ⊢
    rw [ofText_cons, List.flatMap_cons, ht]
    simp [hc]

theorem Char.toNat_lt_iff {c d : Char} : c.toNat < d.toNat ↔ c < d := Iff.rfl

theorem map_toNat_lt_iff : ∀ {s t : Text}, s.map Char.toNat < t.map Char.toNat ↔ s < t
  | _, [] => by simp
  | [], _ :: _ => by simp
  | c :: s, d :: t => by
    rw [List.map_cons, List.map_cons, List.cons_lt_cons_iff, List.cons_lt_cons_iff,
      map_toNat_lt_iff, Char.toNat_lt_iff, Char.toNat_inj]

theorem toNat_lt_of_isLowerHexDigit {c : Char} (h : isLowerHexDigit c = true) :
    c.toNat < 0x10000 := by
  have hsize := utf8Size_of_isLowerHexDigit h
  rw [Char.utf8Size_eq_one_iff, UInt32.le_iff_toNat_le] at hsize
  exact Nat.lt_of_le_of_lt hsize (by decide)

theorem Sdk.isHexString_ofText (n : ℕ) (t : Text) :
    Sdk.isHexString n (ofText t) = isLowerHex t n := by
  have hall : (ofText t).all Sdk.isHexUnit = t.all isLowerHexDigit := by
    rw [ofText, List.all_map]; rfl
  rw [Bool.eq_iff_iff, isLowerHex_iff, Sdk.isHexString, Bool.and_eq_true, decide_eq_true_eq, hall,
    ofText, List.length_map]

/-- Hexadecimal strings are Unicode text. -/
theorem Sdk.isText_of_all_isHexUnit : ∀ {s : JsString}, s.all Sdk.isHexUnit = true → IsText s
  | [], _ => ⟨[], rfl⟩
  | .scalar c :: s, h => by
    rw [List.all_cons, Bool.and_eq_true] at h
    obtain ⟨t, rfl⟩ := Sdk.isText_of_all_isHexUnit h.2
    exact ⟨c :: t, rfl⟩
  | .lone _ :: _, h => by simp [Sdk.isHexUnit] at h

theorem Sdk.isText_of_isHexString {n : ℕ} {s : JsString} (h : Sdk.isHexString n s = true) :
    IsText s := by
  rw [Sdk.isHexString, Bool.and_eq_true] at h
  exact Sdk.isText_of_all_isHexUnit h.2

theorem Sdk.isFieldElement_ofText (t : Text) : Sdk.isFieldElement (ofText t) = isFelt t := by
  match t with
  | [] => rfl
  | [c] => by_cases hc : c = '0' <;> simp [Sdk.isFieldElement, isFelt, ofText]
  | c :: d :: ds =>
    by_cases hc : c = '0'
    · by_cases hd : d = 'x'
      · subst hc hd
        rw [isFelt, ofText_cons, ofText_cons, Sdk.isFieldElement, Sdk.isHexString_ofText]
        cases hhex : isLowerHex ds 64 with
        | false => rfl
        | true =>
          have hds := (isLowerHex_iff.mp hhex).2
          rw [List.all_eq_true] at hds
          have hprime : ∀ c ∈ cairoPrimeHex, c.toNat < 0x10000 := by
            simpa using (by decide : cairoPrimeHex.all (fun c => c.toNat < 0x10000) = true)
          rw [Sdk.codeUnits_ofText fun c hc => toNat_lt_of_isLowerHexDigit (hds c hc),
            Sdk.codeUnits_ofText hprime, Bool.true_and, Bool.true_and, decide_eq_decide]
          exact map_toNat_lt_iff
      · simp [Sdk.isFieldElement, isFelt, hd]
    · simp [Sdk.isFieldElement, isFelt, hc]

/-- The string of a field element. -/
def Core.FeltHex.toSdk (f : FeltHex) : JsString := ofText f.value

@[simp] theorem Core.FeltHex.toSdk_inj {a b : FeltHex} : a.toSdk = b.toSdk ↔ a = b := by
  rw [FeltHex.toSdk, FeltHex.toSdk, ofText_inj, FeltHex.value_inj]

theorem Core.FeltHex.toSdk_injective : Function.Injective FeltHex.toSdk :=
  fun _ _ h => FeltHex.toSdk_inj.mp h

/-- The field elements of the SDK are those of `soul-core`. -/
theorem Sdk.isFieldElement_iff {s : JsString} :
    Sdk.isFieldElement s = true ↔ ∃ f : FeltHex, f.toSdk = s := by
  constructor
  · intro h
    have htext : IsText s := by
      rw [Sdk.isFieldElement.eq_def] at h
      split at h
      · rw [Bool.and_eq_true] at h
        obtain ⟨t, rfl⟩ := Sdk.isText_of_isHexString h.1
        exact ⟨'0' :: 'x' :: t, rfl⟩
      · cases h
    obtain ⟨t, rfl⟩ := htext
    rw [Sdk.isFieldElement_ofText] at h
    exact ⟨⟨t, h⟩, rfl⟩
  · rintro ⟨f, rfl⟩
    rw [FeltHex.toSdk, Sdk.isFieldElement_ofText]
    exact f.canonical

@[simp] theorem Core.FeltHex.isFieldElement_toSdk (f : FeltHex) :
    Sdk.isFieldElement f.toSdk = true := Sdk.isFieldElement_iff.mpr ⟨f, rfl⟩

/-- Both constructors of a field element from an integer write the same digits. -/
theorem Sdk.feltFromNumber_eq {n : ℕ} (h : n ≤ maxSafeInteger) :
    Sdk.feltFromNumber n = .ok (FeltHex.fromU64 n).toSdk := by
  have hmod : n % 2 ^ 64 = n := by
    rw [maxSafeInteger] at h
    exact Nat.mod_eq_of_lt (by omega)
  have hvalue : (FeltHex.fromU64 n).toSdk = ofText ('0' :: 'x' :: FeltHex.hex64 n) := by
    rw [FeltHex.toSdk, FeltHex.fromU64]
    exact congrArg (fun m => ofText ('0' :: 'x' :: FeltHex.hex64 m)) hmod
  rw [hvalue]
  simp only [Sdk.feltFromNumber, rejectIf, if_neg (Nat.not_lt.mpr h)]
  rfl

/-! ### Typed values -/

namespace Core

theorem serviceValue_eq : ∀ s : ServiceType, Sdk.serviceValue s = ofText s.asStr
  | .fibonacci | .hashVerify | .merkleProof => rfl

theorem errorCodeValue_eq : ∀ c : ErrorCode, Sdk.errorCodeValue c = ofText c.asStr
  | .invalidRequest | .unsupportedService | .expired | .duplicate | .busy | .provingFailed
  | .artifactUnavailable | .internal => rfl

def JobInput.toSdk : JobInput → Sdk.JobInput
  | .fibonacci n => .fibonacci n
  | .hashVerify hash preimage => .hashVerify hash.toSdk preimage.toSdk
  | .merkleProof root leaf proof index =>
    .merkleProof root.toSdk leaf.toSdk (proof.map FeltHex.toSdk) index

def JobRequestContent.toSdk (c : JobRequestContent) : Sdk.JobRequestContent where
  protocol := ofText c.protocol
  service := c.service
  input := c.input.toSdk
  expires_at := c.expires_at

def JobOutput.toSdk : JobOutput → Sdk.JobOutput
  | .fibonacci result => .fibonacci result.toSdk
  | .hashVerify valid => .hashVerify valid
  | .merkleProof valid => .merkleProof valid

def ProofStatement.toSdk (s : ProofStatement) : Sdk.ProofStatement where
  service := s.service
  program := ofText s.program
  public_input := s.public_input.map FeltHex.toSdk
  public_output := s.public_output.map FeltHex.toSdk
  output := s.output.toSdk

def ProofDescriptor.toSdk (d : ProofDescriptor) : Sdk.ProofDescriptor where
  format := ofText d.format
  media_type := ofText d.media_type
  url := ofText d.url
  sha256 := ofText d.sha256
  byte_size := d.byte_size
  program_hash := d.program_hash.toSdk
  channel := ofText d.channel

def JobResultContent.toSdk : JobResultContent → Sdk.JobResult
  | .success protocol request_id statement proof metrics =>
    .success ⟨ofText protocol, ofText request_id, statement.toSdk, proof.toSdk, metrics⟩
  | .error protocol request_id err =>
    .error ⟨ofText protocol, ofText request_id, ⟨err.code, ofText err.message⟩⟩

/-- An unsigned integer as a JavaScript number. Beyond `2 ^ 53` it may lose digits. -/
def natToSdk (n : ℕ) : Number := if n < 2 ^ 53 then .nat n else .other

def tagsToSdk (tags : List (List Text)) : List (List JsString) := tags.map (List.map ofText)

def Event.toSdk (e : Event) : Sdk.Event where
  id := ofText e.id
  pubkey := ofText e.pubkey
  created_at := natToSdk e.created_at
  kind := natToSdk e.kind
  tags := tagsToSdk e.tags
  content := ofText e.content
  sig := ofText e.sig

theorem tagsToSdk_injective : Function.Injective tagsToSdk :=
  List.map_injective_iff.mpr (List.map_injective_iff.mpr ofText_injective)

theorem JobOutput.toSdk_injective : Function.Injective JobOutput.toSdk := by
  intro a b h
  cases a <;> cases b <;> simp only [toSdk, reduceCtorEq, Sdk.JobOutput.fibonacci.injEq,
    Sdk.JobOutput.hashVerify.injEq, Sdk.JobOutput.merkleProof.injEq, FeltHex.toSdk_inj] at h <;>
    rw [h]

theorem ProofStatement.toSdk_injective : Function.Injective ProofStatement.toSdk := by
  rintro ⟨service, program, inputs, outputs, output⟩ ⟨service', program', inputs', outputs', output'⟩ h
  have hmap : Function.Injective (List.map FeltHex.toSdk) :=
    List.map_injective_iff.mpr FeltHex.toSdk_injective
  simp only [toSdk, Sdk.ProofStatement.mk.injEq, ofText_inj, hmap.eq_iff,
    JobOutput.toSdk_injective.eq_iff] at h
  obtain ⟨rfl, rfl, rfl, rfl, rfl⟩ := h
  rfl

/-! ### The documents agree -/

theorem map_toJson_eq (fs : List FeltHex) :
    (fs.map FeltHex.toSdk).map Json.str = fs.map FeltHex.toJson := by
  rw [List.map_map]; rfl

theorem inputJson_toSdk : ∀ i : JobInput, Sdk.inputJson i.toSdk = i.toJson
  | .fibonacci _ => rfl
  | .hashVerify _ _ => rfl
  | .merkleProof root leaf proof index => by
    simp only [JobInput.toSdk, Sdk.inputJson, JobInput.toJson, map_toJson_eq]; rfl

theorem requestContentJson_toSdk (c : JobRequestContent) :
    Sdk.requestContentJson c.toSdk = c.toJson := by
  simp only [Sdk.requestContentJson, JobRequestContent.toSdk, JobRequestContent.toJson,
    inputJson_toSdk, serviceValue_eq]
  rfl

theorem outputJson_toSdk : ∀ o : JobOutput, Sdk.outputJson o.toSdk = o.toJson
  | .fibonacci _ => rfl
  | .hashVerify _ => rfl
  | .merkleProof _ => rfl

theorem statementJson_toSdk (s : ProofStatement) : Sdk.statementJson s.toSdk = s.toJson := by
  simp only [Sdk.statementJson, ProofStatement.toSdk, ProofStatement.toJson, map_toJson_eq,
    outputJson_toSdk, serviceValue_eq]
  rfl

theorem resultJson_toSdk : ∀ c : JobResultContent, Sdk.resultJson c.toSdk = c.toJson
  | .success protocol request_id statement proof metrics => by
    simp only [JobResultContent.toSdk, Sdk.resultJson, JobResultContent.toJson,
      statementJson_toSdk]
    rfl
  | .error protocol request_id err => by
    simp only [JobResultContent.toSdk, Sdk.resultJson, JobResultContent.toJson, errorCodeValue_eq]
    rfl

theorem service_toSdk : ∀ i : JobInput, Sdk.serviceForInput i.toSdk = i.service
  | .fibonacci _ | .hashVerify _ _ | .merkleProof _ _ _ _ => rfl

theorem type_toSdk : ∀ o : JobOutput, o.toSdk.type = o.service
  | .fibonacci _ | .hashVerify _ | .merkleProof _ => rfl

theorem canonicalizeInput_eq : ∀ i : Sdk.JobInput, Sdk.canonicalizeInput i = i
  | .fibonacci _ | .hashVerify _ _ | .merkleProof _ _ _ _ => rfl

theorem canonicalizeOutput_eq : ∀ o : Sdk.JobOutput, Sdk.canonicalizeOutput o = o
  | .fibonacci _ | .hashVerify _ | .merkleProof _ => rfl

theorem buildRequestContent_toSdk (i : JobInput) (expires_at : Option ℕ) :
    Sdk.buildRequestContent i.toSdk expires_at = (JobRequestContent.new i expires_at).toSdk := by
  rw [Sdk.buildRequestContent, canonicalizeInput_eq, service_toSdk]; rfl

/-- On current requests the SDK writes the bytes that `soul-core` writes. -/
theorem serializeRequestContent_toSdk (i : JobInput) (expires_at : Option ℕ) :
    Sdk.serializeRequestContent (JobRequestContent.new i expires_at).toSdk =
      (JobRequestContent.new i expires_at).canonicalJson := by
  have hbuild : Sdk.buildRequestContent (JobRequestContent.new i expires_at).toSdk.input
      (JobRequestContent.new i expires_at).toSdk.expires_at =
      (JobRequestContent.new i expires_at).toSdk := buildRequestContent_toSdk i expires_at
  rw [Sdk.serializeRequestContent, hbuild, requestContentJson_toSdk]; rfl

end Core

end SoulSociety
