import SoulSociety.Sdk.Correspondence

/-! What the decoders of the SDK accept. Each decoder undoes the encoder on values that pass the
    checks of `soul-core`, and returns only such values: the two directions of a codec, once for
    each shape. Error messages and URLs may hold surrogates that no Rust string can, so results are
    described by predicates on SDK values. -/

namespace SoulSociety.Sdk
open Lib SoulSociety.Core

/-! ### Guards -/

theorem safeNumber_eq_some {x : Number} {n : ℕ} :
    safeNumber x = some n ↔ x = .nat n ∧ n ≤ maxSafeInteger := by
  cases x with
  | nat m =>
    simp only [safeNumber, Option.ite_none_right_eq_some, Option.some.injEq, Number.nat.injEq]
    constructor
    · rintro ⟨h, rfl⟩; exact ⟨rfl, h⟩
    · rintro ⟨rfl, h⟩; exact ⟨h, rfl⟩
  | other => simp [safeNumber]

theorem plainRecord_eq_some {v : Option Json} {ms : List (JsString × Json)} :
    plainRecord v = some ms ↔ v = some (.obj ms) := by
  unfold plainRecord
  split <;> simp_all

theorem asString_eq_some {v : Option Json} {s : JsString} :
    asString v = some s ↔ v = some (.str s) := by
  unfold asString
  split <;> simp_all

theorem asArray_eq_some {v : Option Json} {xs : List Json} :
    asArray v = some xs ↔ v = some (.arr xs) := by
  unfold asArray
  split <;> simp_all

theorem hex64_eq_some {v : Option Json} {s : JsString} :
    hex64 v = some s ↔ v = some (.str s) ∧ isHex64 s = true := by
  rw [hex64, Option.filter_eq_some_iff, asString_eq_some]

theorem safeInteger_eq_some {v : Option Json} {n : ℕ} :
    safeInteger v = some n ↔ v = some (jsonNat n) ∧ n ≤ maxSafeInteger := by
  unfold safeInteger
  split
  · rw [safeNumber_eq_some, jsonNat, Option.some.injEq, Json.num.injEq]
  · rename_i h
    simp only [reduceCtorEq, false_iff, not_and]
    intro hv
    exact absurd hv (h _)

theorem safeInteger_jsonNat {n : ℕ} (h : n ≤ maxSafeInteger) :
    safeInteger (some (jsonNat n)) = some n := safeInteger_eq_some.mpr ⟨rfl, h⟩

theorem safeInteger_le {v : Option Json} {n : ℕ} (h : safeInteger v = some n) :
    n ≤ maxSafeInteger := (safeInteger_eq_some.mp h).2

theorem fieldElement_toJson (f : FeltHex) : fieldElement (some f.toJson) = some f.toSdk := by
  rw [fieldElement]
  exact Option.filter_eq_some_iff.mpr ⟨rfl, f.isFieldElement_toSdk⟩

theorem exists_of_fieldElement {v : Option Json} {s : JsString} (h : fieldElement v = some s) :
    ∃ f : FeltHex, f.toSdk = s :=
  isFieldElement_iff.mp (Option.filter_eq_some_iff.mp h).2

theorem fieldElements_toJson : ∀ fs : List FeltHex,
    fieldElements (fs.map FeltHex.toJson) = some (fs.map FeltHex.toSdk)
  | [] => rfl
  | f :: fs => by
    have ih := fieldElements_toJson fs
    rw [fieldElements] at ih ⊢
    rw [List.map_cons, List.mapM_cons, fieldElement_toJson, ih]
    rfl

theorem exists_of_fieldElements : ∀ {vs : List Json} {ss : List JsString},
    fieldElements vs = some ss → ss.length = vs.length ∧ ∃ fs : List FeltHex, fs.map FeltHex.toSdk = ss
  | [], ss, h => by
    cases h; exact ⟨rfl, [], rfl⟩
  | v :: vs, ss, h => by
    rw [fieldElements, List.mapM_cons] at h
    simp only [bind, Option.bind_eq_some_iff, pure, Option.some.injEq] at h
    obtain ⟨s, hs, ss', hss, rfl⟩ := h
    obtain ⟨f, rfl⟩ := exists_of_fieldElement hs
    obtain ⟨hlen, fs, rfl⟩ := exists_of_fieldElements hss
    exact ⟨by rw [List.length_cons, List.length_cons, hlen], f :: fs, rfl⟩

theorem serviceOf_serviceValue : ∀ s : ServiceType, serviceOf (serviceValue s) = some s
  | .fibonacci | .hashVerify | .merkleProof => by decide

theorem errorCodeOf_errorCodeValue : ∀ c : ErrorCode, errorCodeOf (errorCodeValue c) = some c
  | .invalidRequest | .unsupportedService | .expired | .duplicate | .busy | .provingFailed
  | .artifactUnavailable | .internal => by decide

/-! ### Inputs -/

/-- The decoder of inputs undoes the encoder. -/
theorem validateJobInput_toJson {i : Core.JobInput} (h : i.validate = .ok ()) :
    validateJobInput (some i.toJson) = .ok i.toSdk := by
  rw [Core.JobInput.validate_iff] at h
  cases i with
  | fibonacci n =>
    change validateFibonacciInput [(js "type", jsonText (text "fibonacci")), (js "n", jsonNat n)] = _
    have hbound : n ≤ 363 := h
    have hsafe : n ≤ maxSafeInteger := by rw [maxSafeInteger]; omega
    simp only [validateFibonacciInput, bind_eq_ok, rejectIf_eq_ok, orReject_eq_ok, pure_eq_ok,
      exists_unit, not_not]
    exact ⟨rfl, n, safeInteger_jsonNat hsafe, Nat.not_lt.mpr h, rfl⟩
  | hashVerify hash preimage =>
    change validateHashInput [(js "type", jsonText (text "hash_verify")), (js "hash", hash.toJson),
      (js "preimage", preimage.toJson)] = _
    simp only [validateHashInput, bind_eq_ok, rejectIf_eq_ok, orReject_eq_ok, pure_eq_ok,
      exists_unit, not_not]
    exact ⟨rfl, _, fieldElement_toJson hash, _, fieldElement_toJson preimage, rfl⟩
  | merkleProof root leaf proof index =>
    change validateMerkleInput [(js "type", jsonText (text "merkle_proof")), (js "root", root.toJson),
      (js "leaf", leaf.toJson), (js "proof", .arr (proof.map FeltHex.toJson)),
      (js "index", jsonNat index)] = _
    obtain ⟨hdepth, hindex⟩ := h
    have hsafe : index ≤ maxSafeInteger := by
      have hpow : 2 ^ proof.length ≤ 2 ^ 32 := Nat.pow_le_pow_right (by decide) hdepth
      rw [maxSafeInteger]
      omega
    simp only [validateMerkleInput, bind_eq_ok, rejectIf_eq_ok, orReject_eq_ok, pure_eq_ok,
      exists_unit, not_not]
    refine ⟨rfl, _, fieldElement_toJson root, _, fieldElement_toJson leaf, _, rfl, ?_, _,
      fieldElements_toJson proof, index, safeInteger_jsonNat hsafe, ?_, rfl⟩
    · rw [List.length_map]; exact Nat.not_lt.mpr hdepth
    · rw [List.length_map]
      split
      · rename_i hzero; rw [hzero] at hindex; omega
      · omega

/-- What the decoder of inputs returns passes the bounds of `soul-core`. -/
theorem validateJobInput_sound {v : Option Json} {i : JobInput} (h : validateJobInput v = .ok i) :
    ∃ c : Core.JobInput, c.validate = .ok () ∧ c.toSdk = i := by
  simp only [validateJobInput, bind_eq_ok, orReject_eq_ok] at h
  obtain ⟨ms, -, ty, -, h⟩ := h
  split at h
  · simp only [validateFibonacciInput, bind_eq_ok, rejectIf_eq_ok, orReject_eq_ok, pure_eq_ok,
      exists_unit, not_not] at h
    obtain ⟨-, n, -, hn, rfl⟩ := h
    exact ⟨.fibonacci n, Core.JobInput.validate_iff.mpr (Nat.not_lt.mp hn), rfl⟩
  · simp only [validateHashInput, bind_eq_ok, rejectIf_eq_ok, orReject_eq_ok, pure_eq_ok,
      exists_unit, not_not] at h
    obtain ⟨-, hash, hhash, preimage, hpreimage, rfl⟩ := h
    obtain ⟨f, rfl⟩ := exists_of_fieldElement hhash
    obtain ⟨g, rfl⟩ := exists_of_fieldElement hpreimage
    exact ⟨.hashVerify f g, rfl, rfl⟩
  · simp only [validateMerkleInput, bind_eq_ok, rejectIf_eq_ok, orReject_eq_ok, pure_eq_ok,
      exists_unit, not_not] at h
    obtain ⟨-, root, hroot, leaf, hleaf, path, -, hdepth, proof, hproof, index, -, hindex, rfl⟩ := h
    obtain ⟨r, rfl⟩ := exists_of_fieldElement hroot
    obtain ⟨l, rfl⟩ := exists_of_fieldElement hleaf
    obtain ⟨hlen, fs, rfl⟩ := exists_of_fieldElements hproof
    rw [List.length_map] at hlen
    refine ⟨.merkleProof r l fs index, Core.JobInput.validate_iff.mpr ⟨?_, ?_⟩, rfl⟩
    · rw [hlen]; exact Nat.not_lt.mp hdepth
    · rw [hlen]
      split at hindex
      · rename_i hzero; rw [hzero]; omega
      · omega
  · cases h

/-! ### Request content -/

theorem parseExpiry_toJson {c : Core.JobRequestContent} {created_at now : ℕ}
    (hnow : created_at ≤ now + maxFutureSkewSecs) (hclock : now < 2 ^ 53 - 4000)
    (h : Core.JobRequestContent.ExpiryOk c.expires_at created_at now) :
    parseExpiry ([(js "protocol", jsonText c.protocol), (js "service", jsonText c.service.asStr),
      (js "input", c.input.toJson)] ++
        (c.expires_at.map fun e => (js "expires_at", jsonNat e)).toList) created_at now =
      .ok c.expires_at := by
  cases he : c.expires_at with
  | none => rfl
  | some e =>
    obtain ⟨hafter, hfrom, httl⟩ := h e he
    rw [maxRequestTtlSecs] at httl
    rw [maxFutureSkewSecs] at hnow
    have hsafe : e ≤ maxSafeInteger := by rw [maxSafeInteger]; omega
    change (do
      let expiresAt ← orReject (safeInteger (some (jsonNat e)))
        (invalid "The request expiry is invalid.")
      rejectIf (expiresAt ≤ now ∨ expiresAt < created_at ∨ expiresAt - created_at > 60 * 60)
        (invalid expiryMessage)
      return some expiresAt : Except JsError (Option ℕ)) = _
    simp only [bind_eq_ok, orReject_eq_ok, rejectIf_eq_ok, pure_eq_ok, exists_unit]
    exact ⟨e, safeInteger_jsonNat hsafe, by omega, rfl⟩

theorem parseExpiry_sound {value : List (JsString × Json)} {created_at now : ℕ}
    {expires_at : Option ℕ} (h : parseExpiry value created_at now = .ok expires_at) :
    Core.JobRequestContent.ExpiryOk expires_at created_at now := by
  intro e he
  rw [parseExpiry] at h
  split at h
  · cases h; cases he
  · simp only [bind_eq_ok, orReject_eq_ok, rejectIf_eq_ok, pure_eq_ok, exists_unit] at h
    obtain ⟨e', -, hbounds, rfl⟩ := h
    cases he
    rw [maxRequestTtlSecs]
    omega

/-- The decoder of request content undoes the encoder. -/
theorem parseRequestContent_toJson {c : Core.JobRequestContent} {created_at now : ℕ}
    (hnow : created_at ≤ now + maxFutureSkewSecs) (hclock : now < 2 ^ 53 - 4000)
    (h : c.validate created_at now = .ok ()) :
    parseRequestContent c.toJson created_at now = .ok c.toSdk := by
  obtain ⟨hnew, hinput, hexpiry⟩ := Core.JobRequestContent.validate_iff.mp h
  have hservice : serviceOf (ofText c.service.asStr) = some c.service := by
    rw [← serviceValue_eq]; exact serviceOf_serviceValue _
  have hbuild : buildRequestContent c.input.toSdk c.expires_at = c.toSdk := by
    rw [buildRequestContent_toSdk, ← hnew]
  have hprotocol : c.protocol = soulWireProtocol := by rw [hnew]; rfl
  have hdeclared : c.service = c.input.service := by
    conv_lhs => rw [hnew]
    rfl
  have hread := parseExpiry_toJson hnow hclock hexpiry
  rw [parseRequestContent, Core.JobRequestContent.toJson]
  simp only [plainRecord, bind_eq_ok, orReject_eq_ok, rejectIf_eq_ok, pure_eq_ok, exists_unit,
    Option.some.injEq, exists_eq_left', not_and_or, not_not]
  refine ⟨?_, ?_, _, validateJobInput_toJson hinput, c.service, ?_, ?_, c.expires_at, hread, hbuild⟩
  · cases c.expires_at
    · exact Or.inl rfl
    · exact Or.inr rfl
  · exact congrArg (fun p => some (ofText p)) hprotocol
  · simp only [parseService, bind_eq_ok, orReject_eq_ok]
    exact ⟨_, rfl, hservice⟩
  · rw [service_toSdk, hdeclared]

/-- What the decoder of request content returns is content that `soul-core` validates. -/
theorem parseRequestContent_sound {v : Json} {c : JobRequestContent} {created_at now : ℕ}
    (h : parseRequestContent v created_at now = .ok c) :
    ∃ r : Core.JobRequestContent, r.validate created_at now = .ok () ∧ r.toSdk = c := by
  simp only [parseRequestContent, bind_eq_ok, orReject_eq_ok, rejectIf_eq_ok, pure_eq_ok,
    exists_unit] at h
  obtain ⟨ms, -, -, -, input, hinput, service, -, -, expires_at, hexpiry, rfl⟩ := h
  obtain ⟨i, hi, rfl⟩ := validateJobInput_sound hinput
  refine ⟨Core.JobRequestContent.new i expires_at, ?_, (buildRequestContent_toSdk i expires_at).symm⟩
  exact Core.JobRequestContent.validate_iff.mpr ⟨rfl, hi, parseExpiry_sound hexpiry⟩

end SoulSociety.Sdk
