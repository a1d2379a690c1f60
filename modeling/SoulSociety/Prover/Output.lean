import SoulSociety.Core.Felt
import SoulSociety.Core.Results

/-! The decoder of the Cairo output segment. `soul-prover` and `soul-wasm` each have a copy; the two
    differ in the width of `usize` and in their errors, which a `Dialect` collects. The decoder
    threads a cursor through the segment, and what it accepts is a grammar: the service id, the
    public input and the public output, each list behind its length. -/

namespace SoulSociety.Prover
open Lib SoulSociety.Core

variable {ε : Type}

/-- The word size of a copy, and its errors. -/
structure Dialect (ε : Type) where
  usizeBits : ℕ
  invalidOutput : String → ε
  notCanonical : String
  invalidStatement : ValidationError → ε
  disagreement : ε

/-- `to_bytes_be`. -/
def toBytesBe (value : Felt) : List ℕ := Numeral.digits 256 32 value.val

/-- `hex::encode`. -/
def hexEncode (bytes : List ℕ) : Text :=
  bytes.flatMap fun byte => [hexDigit (byte / 16), hexDigit (byte % 16)]

namespace Dialect

variable (D : Dialect ε)

def fieldToFelt (value : Felt) : Except (Fault ε) FeltHex :=
  mapReject (FeltHex.parse (text "0x" ++ hexEncode (toBytesBe value))) fun _ =>
    .err (D.invalidOutput D.notCanonical)

/-- `*cursor += 1`, which must not overflow. -/
def advance (cursor : ℕ) : Except (Fault ε) ℕ := do
  rejectIf (cursor + 1 ≥ 2 ^ D.usizeBits) .panic
  return cursor + 1

/-- The integer at the cursor. The last eight bytes are always there to convert. -/
def takeU64 (output : List Felt) (cursor : ℕ) (error : String) : Except (Fault ε) (ℕ × ℕ) := do
  let value ← orReject output[cursor]? (.err (D.invalidOutput error))
  let cursor ← D.advance cursor
  let bytes := toBytesBe value
  rejectIf ((bytes.take 24).any fun byte => byte ≠ 0)
    (.err (D.invalidOutput "integer output does not fit u64"))
  return (Numeral.value 256 (bytes.drop 24), cursor)

def takeLen (output : List Felt) (cursor : ℕ) (error : String) : Except (Fault ε) (ℕ × ℕ) := do
  let (value, cursor) ← D.takeU64 output cursor error
  rejectIf (value ≥ 2 ^ D.usizeBits) (.err (D.invalidOutput "array length is too large"))
  return (value, cursor)

/-- The next `len` values, as canonical felts. `output.get(cursor..end)` fails past the end. -/
def takeFelts (output : List Felt) (cursor len : ℕ) (error : String) :
    Except (Fault ε) (List FeltHex × ℕ) := do
  rejectIf (cursor + len ≥ 2 ^ D.usizeBits) (.err (D.invalidOutput "array length overflow"))
  rejectIf (cursor + len > output.length) (.err (D.invalidOutput error))
  let values ← ((output.drop cursor).take len).mapM D.fieldToFelt
  return (values, cursor + len)

def decodeBoolean (value : FeltHex) : Except (Fault ε) Bool :=
  if value = FeltHex.fromU64 0 then .ok false
  else if value = FeltHex.fromU64 1 then .ok true
  else .error (.err (D.invalidOutput "boolean output must be zero or one"))

/-- `public_output[0]`, which panics on an empty list. -/
def head (values : List FeltHex) : Except (Fault ε) FeltHex := orReject values[0]? .panic

/-- The service and the typed output, by service id and arity. -/
def typedOutput (service_id : ℕ) (public_input public_output : List FeltHex) :
    Except (Fault ε) (ServiceType × JobOutput) :=
  let arity := .error (.err (D.invalidOutput "service input/output arity mismatch"))
  match service_id with
  | 1 =>
    if public_input.length = 1 ∧ public_output.length = 1 then do
      return (.fibonacci, .fibonacci (← head public_output))
    else arity
  | 2 =>
    if public_input.length = 1 ∧ public_output.length = 1 then do
      return (.hashVerify, .hashVerify (← D.decodeBoolean (← head public_output)))
    else arity
  | 3 =>
    if public_input.length = 3 ∧ public_output.length = 1 then do
      return (.merkleProof, .merkleProof (← D.decodeBoolean (← head public_output)))
    else arity
  | _ => .error (.err (D.invalidOutput "unsupported service id"))

/-- The core check, and once more the layout. -/
def validateStatement (statement : ProofStatement) : Except (Fault ε) Unit := do
  mapReject statement.validate fun e => .err (D.invalidStatement e)
  rejectIf (¬ statement.layoutMatches) (.err D.disagreement)

/-- Decode the Cairo executable return value from the proof's output segment. -/
def decodeStatement (output : List Felt) : Except (Fault ε) ProofStatement := do
  let (service_id, cursor) ← D.takeU64 output 0 "missing service"
  let (public_input_len, cursor) ← D.takeLen output cursor "missing public input length"
  let (public_input, cursor) ←
    D.takeFelts output cursor public_input_len "truncated public input"
  let (public_output_len, cursor) ← D.takeLen output cursor "missing public output length"
  let (public_output, cursor) ←
    D.takeFelts output cursor public_output_len "truncated public output"
  rejectIf (cursor ≠ output.length) (.err (D.invalidOutput "trailing output values"))
  let (service, output) ← D.typedOutput service_id public_input public_output
  let statement : ProofStatement :=
    { service := service
      program := cairoProgram
      public_input := public_input
      public_output := public_output
      output := output }
  D.validateStatement statement
  return statement

end Dialect

/-! ### The grammar -/

/-- The id of a service in the output. -/
def serviceId : ServiceType → ℕ
  | .fibonacci => 1
  | .hashVerify => 2
  | .merkleProof => 3

/-- An unsigned integer as a field element. -/
def feltOfNat (n : ℕ) : Felt := Fin.ofNat _ n

/-- The output segment of a statement: the service id, and the two lists behind their lengths. -/
def flatten (s : ProofStatement) : List Felt :=
  feltOfNat (serviceId s.service) :: feltOfNat s.public_input.length ::
    (s.public_input.map FeltHex.toFelt ++
      feltOfNat s.public_output.length :: s.public_output.map FeltHex.toFelt)

/-! ### One value -/

/-- Bytes in hexadecimal are the digits of width 64. -/
theorem hexEncode_toBytesBe (v : Felt) :
    hexEncode (toBytesBe v) = hexText (Numeral.digits 16 64 v.val) := by
  have hdigits := Numeral.flatMap_digits (b := 16) 32 v.val
  rw [show 2 * 32 = 64 from rfl] at hdigits
  rw [hexEncode, toBytesBe, ← hdigits, hexText, List.map_flatMap]
  rfl

namespace Dialect

variable {D : Dialect ε}

/-- Every field element has a canonical text. -/
theorem fieldToFelt_eq (v : Felt) : D.fieldToFelt v = .ok (FeltHex.ofFelt v) := by
  have hvalue : text "0x" ++ hexEncode (toBytesBe v) = (FeltHex.ofFelt v).value := by
    rw [hexEncode_toBytesBe]; rfl
  rw [fieldToFelt, hvalue, FeltHex.parse, dif_pos (FeltHex.ofFelt v).canonical]
  rfl

theorem mapM_fieldToFelt : ∀ vs : List Felt,
    vs.mapM D.fieldToFelt = .ok (vs.map FeltHex.ofFelt)
  | [] => rfl
  | v :: vs => by
    rw [List.mapM_cons, fieldToFelt_eq, mapM_fieldToFelt vs]
    rfl

theorem felt_lt_bytes (v : Felt) : v.val < 256 ^ (24 + 8) :=
  Nat.lt_trans v.isLt (by decide)

theorem fits_u64_iff (v : Felt) :
    (¬ ((toBytesBe v).take 24).any fun byte => byte ≠ 0) ↔ v.val < 2 ^ 64 := by
  have h := Numeral.take_digits_eq_zero_iff (b := 256) (by decide) 24 (felt_lt_bytes v)
  rw [Bool.not_eq_true, List.any_eq_false]
  simpa [toBytesBe] using h

theorem value_drop_bytes {v : Felt} (h : v.val < 2 ^ 64) :
    Numeral.value 256 ((toBytesBe v).drop 24) = v.val := by
  have hdrop : (toBytesBe v).drop 24 = Numeral.digits 256 8 v.val :=
    Numeral.drop_digits (b := 256) 24 (w := 8)
  rw [hdrop, Numeral.value_digits, Nat.mod_eq_of_lt (Nat.lt_of_lt_of_le h (by decide))]

theorem takeU64_eq_ok {output : List Felt} {cursor : ℕ} {error : String} {n c : ℕ} :
    D.takeU64 output cursor error = .ok (n, c) ↔ ∃ v, output[cursor]? = some v ∧
      cursor + 1 < 2 ^ D.usizeBits ∧ v.val < 2 ^ 64 ∧ n = v.val ∧ c = cursor + 1 := by
  simp only [takeU64, advance, bind_eq_ok, orReject_eq_ok, rejectIf_eq_ok, exists_unit, pure_eq_ok,
    Prod.mk.injEq, fits_u64_iff, Nat.not_le, ge_iff_le]
  constructor
  · rintro ⟨v, hv, _, ⟨hcursor, rfl⟩, hfits, hn, rfl⟩
    exact ⟨v, hv, hcursor, hfits, hn.symm.trans (value_drop_bytes hfits), rfl⟩
  · rintro ⟨v, hv, hcursor, hfits, rfl, rfl⟩
    exact ⟨v, hv, _, ⟨hcursor, rfl⟩, hfits, value_drop_bytes hfits, rfl⟩

theorem takeLen_eq_ok {output : List Felt} {cursor : ℕ} {error : String} {n c : ℕ} :
    D.takeLen output cursor error = .ok (n, c) ↔
      D.takeU64 output cursor error = .ok (n, c) ∧ n < 2 ^ D.usizeBits := by
  simp only [takeLen, bind_eq_ok, rejectIf_eq_ok, exists_unit, pure_eq_ok, Prod.exists,
    Prod.mk.injEq, Nat.not_le, ge_iff_le]
  constructor
  · rintro ⟨m, c', htake, hm, rfl, rfl⟩
    exact ⟨htake, hm⟩
  · rintro ⟨htake, hn⟩
    exact ⟨n, c, htake, hn, rfl, rfl⟩

theorem takeFelts_eq_ok {output : List Felt} {cursor len : ℕ} {error : String}
    {fs : List FeltHex} {c : ℕ} :
    D.takeFelts output cursor len error = .ok (fs, c) ↔ cursor + len < 2 ^ D.usizeBits ∧
      cursor + len ≤ output.length ∧ fs = ((output.drop cursor).take len).map FeltHex.ofFelt ∧
        c = cursor + len := by
  simp only [takeFelts, bind_eq_ok, rejectIf_eq_ok, exists_unit, mapM_fieldToFelt, pure_eq_ok,
    Except.ok.injEq, exists_eq_left', Prod.mk.injEq, Nat.not_le, Nat.not_lt, ge_iff_le, gt_iff_lt]
  constructor
  · rintro ⟨hsum, hlen, rfl, rfl⟩
    exact ⟨hsum, hlen, rfl, rfl⟩
  · rintro ⟨hsum, hlen, rfl, rfl⟩
    exact ⟨hsum, hlen, rfl, rfl⟩

theorem fromU64_inj {m n : ℕ} (hm : m < 2 ^ 64) (hn : n < 2 ^ 64) :
    FeltHex.fromU64 m = FeltHex.fromU64 n ↔ m = n := by
  rw [FeltHex.fromU64_eq hm, FeltHex.fromU64_eq hn, FeltHex.ofFelt_inj, Fin.mk.injEq]

theorem decodeBoolean_eq_ok {value : FeltHex} {valid : Bool} :
    D.decodeBoolean value = .ok valid ↔ value = FeltHex.fromU64 (ProofStatement.boolU64 valid) := by
  have hne : FeltHex.fromU64 1 ≠ FeltHex.fromU64 0 := by
    rw [Ne, fromU64_inj (by decide) (by decide)]
    decide
  unfold decodeBoolean
  by_cases h₀ : value = FeltHex.fromU64 0
  · subst h₀
    cases valid with
    | false => simp [ProofStatement.boolU64]
    | true => simp [ProofStatement.boolU64, hne.symm]
  · by_cases h₁ : value = FeltHex.fromU64 1
    · subst h₁
      cases valid with
      | false => simp [ProofStatement.boolU64, hne]
      | true => simp [ProofStatement.boolU64, hne]
    · cases valid with
      | false => simp [ProofStatement.boolU64, h₀, h₁]
      | true => simp [ProofStatement.boolU64, h₀, h₁]

/-- The second look at the layout finds nothing new. -/
theorem validateStatement_eq_ok {s : ProofStatement} {u : Unit} :
    D.validateStatement s = .ok u ↔ s.validate = .ok () := by
  simp only [validateStatement, bind_eq_ok, mapReject_eq_ok, rejectIf_eq_ok, exists_unit, not_not,
    ProofStatement.validate_iff]
  constructor
  · rintro ⟨h, -⟩
    exact h
  · rintro ⟨hprogram, hlayout⟩
    exact ⟨⟨hprogram, hlayout⟩, hlayout⟩

/-! ### The whole segment -/

theorem if_ok {α : Type} {p : Prop} [Decidable p] {x : Except (Fault ε) α} {e : Fault ε} {a : α}
    (h : (if p then x else .error e) = .ok a) : p ∧ x = .ok a := by
  split at h
  · exact ⟨‹p›, h⟩
  · cases h

theorem head_eq_ok {values : List FeltHex} {f : FeltHex} :
    head (ε := ε) values = .ok f ↔ values[0]? = some f := orReject_eq_ok

theorem ofFelt_comp_toFelt : FeltHex.ofFelt ∘ FeltHex.toFelt = id :=
  Function.LeftInverse.comp_eq_id FeltHex.ofFelt_toFelt

theorem map_toFelt_ofFelt (vs : List Felt) :
    (vs.map FeltHex.ofFelt).map FeltHex.toFelt = vs := by
  rw [List.map_map, Function.LeftInverse.comp_eq_id FeltHex.toFelt_ofFelt, List.map_id]

/-- A typed output has the layout of its statement, and the service id says which. -/
theorem typedOutput_eq_ok {id : ℕ} {ins outs : List FeltHex} {service : ServiceType}
    {output : JobOutput} : D.typedOutput id ins outs = .ok (service, output) ↔
      id = serviceId service ∧
        ProofStatement.layoutMatches ⟨service, cairoProgram, ins, outs, output⟩ = true := by
  constructor
  · intro h
    rw [typedOutput.eq_def] at h
    split at h
    · obtain ⟨⟨hin, hout⟩, h⟩ := if_ok h
      obtain ⟨r, rfl⟩ := List.length_eq_one_iff.mp hout
      simp only [bind_eq_ok, head_eq_ok, pure_eq_ok, Prod.mk.injEq] at h
      obtain ⟨_, ⟨⟩, rfl, rfl⟩ := h
      exact ⟨rfl, by simp [ProofStatement.layoutMatches, hin]⟩
    · obtain ⟨⟨hin, hout⟩, h⟩ := if_ok h
      obtain ⟨r, rfl⟩ := List.length_eq_one_iff.mp hout
      simp only [bind_eq_ok, head_eq_ok, pure_eq_ok, Prod.mk.injEq, decodeBoolean_eq_ok] at h
      obtain ⟨_, ⟨⟩, valid, hr, rfl, rfl⟩ := h
      exact ⟨rfl, by simp [ProofStatement.layoutMatches, hin, hr]⟩
    · obtain ⟨⟨hin, hout⟩, h⟩ := if_ok h
      obtain ⟨r, rfl⟩ := List.length_eq_one_iff.mp hout
      simp only [bind_eq_ok, head_eq_ok, pure_eq_ok, Prod.mk.injEq, decodeBoolean_eq_ok] at h
      obtain ⟨_, ⟨⟩, valid, hr, rfl, rfl⟩ := h
      exact ⟨rfl, by simp [ProofStatement.layoutMatches, hin, hr]⟩
    · cases h
  · rintro ⟨rfl, hlayout⟩
    cases service with
    | fibonacci =>
      cases output with
      | fibonacci result =>
        simp only [ProofStatement.layoutMatches, Bool.and_eq_true, decide_eq_true_eq] at hlayout
        obtain ⟨hin, rfl⟩ := hlayout
        simp only [serviceId, typedOutput, if_pos (And.intro hin List.length_singleton), bind_eq_ok,
          head_eq_ok, pure_eq_ok]
        exact ⟨result, rfl, rfl⟩
      | hashVerify _ => cases hlayout
      | merkleProof _ => cases hlayout
    | hashVerify =>
      cases output with
      | fibonacci _ => cases hlayout
      | hashVerify valid =>
        simp only [ProofStatement.layoutMatches, Bool.and_eq_true, decide_eq_true_eq] at hlayout
        obtain ⟨hin, rfl⟩ := hlayout
        simp only [serviceId, typedOutput, if_pos (And.intro hin List.length_singleton), bind_eq_ok,
          head_eq_ok, pure_eq_ok]
        exact ⟨_, rfl, valid, decodeBoolean_eq_ok.mpr rfl, rfl⟩
      | merkleProof _ => cases hlayout
    | merkleProof =>
      cases output with
      | fibonacci _ => cases hlayout
      | hashVerify _ => cases hlayout
      | merkleProof valid =>
        simp only [ProofStatement.layoutMatches, Bool.and_eq_true, decide_eq_true_eq] at hlayout
        obtain ⟨hin, rfl⟩ := hlayout
        simp only [serviceId, typedOutput, if_pos (And.intro hin List.length_singleton), bind_eq_ok,
          head_eq_ok, pure_eq_ok]
        exact ⟨_, rfl, valid, decodeBoolean_eq_ok.mpr rfl, rfl⟩

/-- A segment in the order in which the cursor passes it. -/
theorem segment_eq {output : List Felt} {a b c : Felt} {n m : ℕ} (ha : output[0]? = some a)
    (hb : output[1]? = some b) (hc : output[2 + n]? = some c)
    (hlen : 2 + n + 1 + m = output.length) :
    output = a :: b :: ((output.drop 2).take n ++ c :: (output.drop (2 + n + 1)).take m) := by
  match output, ha, hb with
  | _ :: _ :: rest, ha, hb =>
    cases ha
    cases hb
    have hc : rest[n]? = some c := by
      rw [show 2 + n = n + 1 + 1 by omega] at hc
      exact hc
    obtain ⟨hn, rfl⟩ := List.getElem?_eq_some_iff.mp hc
    have hm : (rest.drop (n + 1)).length ≤ m := by
      rw [List.length_drop]
      rw [List.length_cons, List.length_cons] at hlen
      omega
    rw [show 2 + n + 1 = n + 1 + 1 + 1 by omega, List.drop_succ_cons, List.drop_succ_cons,
      List.drop_succ_cons, List.drop_succ_cons, List.drop_zero, List.take_of_length_le hm,
      ← List.drop_eq_getElem_cons hn, List.take_append_drop]

theorem val_feltOfNat {n : ℕ} (h : n < 2 ^ 64) : (feltOfNat n).val = n :=
  Nat.mod_eq_of_lt (Nat.lt_trans h (by decide))

theorem feltOfNat_val (v : Felt) : feltOfNat v.val = v := Fin.ext (Nat.mod_eq_of_lt v.isLt)

theorem serviceId_lt (s : ServiceType) : serviceId s < 2 ^ 64 := by
  cases s <;> decide

/-- The lists of a statement with the layout are short. -/
theorem length_le_of_layout {s : ProofStatement} (h : s.layoutMatches = true) :
    s.public_input.length ≤ 3 ∧ s.public_output.length = 1 := by
  obtain ⟨service, program, ins, outs, output⟩ := s
  cases service <;> cases output <;> simp_all [ProofStatement.layoutMatches]

/-- The decoder accepts exactly the segments of valid statements, and returns the statement. -/
theorem decodeStatement_eq_ok (hbits : 16 ≤ 2 ^ D.usizeBits) {output : List Felt}
    {s : ProofStatement} :
    D.decodeStatement output = .ok s ↔ s.validate = .ok () ∧ flatten s = output := by
  simp only [decodeStatement, bind_eq_ok, rejectIf_eq_ok, exists_unit, not_not, Prod.exists,
    pure_eq_ok, takeLen_eq_ok, takeU64_eq_ok, takeFelts_eq_ok, typedOutput_eq_ok,
    validateStatement_eq_ok, Nat.zero_add]
  constructor
  · rintro ⟨id, _, ⟨v₀, h₀, -, -, rfl, rfl⟩, n, _, ⟨⟨v₁, h₁, -, -, rfl, rfl⟩, -⟩, ins, _,
      ⟨-, hin, rfl, rfl⟩, m, _, ⟨⟨v₂, h₂, -, -, rfl, rfl⟩, -⟩, outs, _, ⟨-, hout, rfl, rfl⟩, hend,
      service, typed, ⟨hid, hlayout⟩, hvalid, rfl⟩
    refine ⟨hvalid, ?_⟩
    have hinlen : ((output.drop 2).take v₁.val).length = v₁.val := by
      rw [List.length_take, List.length_drop]; omega
    have houtlen : ((output.drop (2 + v₁.val + 1)).take v₂.val).length = v₂.val := by
      rw [List.length_take, List.length_drop]; omega
    conv_rhs => rw [segment_eq h₀ h₁ h₂ hend]
    rw [flatten, ← hid, List.length_map, List.length_map, map_toFelt_ofFelt, map_toFelt_ofFelt,
      hinlen, houtlen, feltOfNat_val, feltOfNat_val, feltOfNat_val]
  · rintro ⟨hvalid, rfl⟩
    obtain ⟨hprogram, hlayout⟩ := ProofStatement.validate_iff.mp hvalid
    obtain ⟨hin, hout⟩ := length_le_of_layout hlayout
    obtain ⟨service, program, ins, outs, typed⟩ := s
    obtain rfl : program = cairoProgram := hprogram
    have hin : ins.length ≤ 3 := hin
    have hout : outs.length = 1 := hout
    have hsmall : ∀ {n : ℕ}, n ≤ 3 → n < 2 ^ 64 := fun h => Nat.lt_of_le_of_lt h (by decide)
    have hvin := val_feltOfNat (hsmall hin)
    have hvout := val_feltOfNat (hsmall (Nat.le_trans (Nat.le_of_eq hout) (by decide)))
    have hlength : (flatten ⟨service, cairoProgram, ins, outs, typed⟩).length =
        2 + ins.length + 1 + outs.length := by
      simp only [flatten, List.length_cons, List.length_append, List.length_map]
      omega
    have hat : (flatten ⟨service, cairoProgram, ins, outs, typed⟩)[2 + ins.length]? =
        some (feltOfNat outs.length) := by
      rw [Nat.add_comm 2]
      simp [flatten]
    refine ⟨serviceId service, 1, ⟨_, rfl, by omega, ?_, (val_feltOfNat (serviceId_lt _)).symm, rfl⟩,
      ins.length, 2, ⟨⟨_, rfl, by omega, by rw [hvin]; exact hsmall hin, hvin.symm, rfl⟩, by omega⟩, ins, _,
      ⟨by omega, by omega, ?_, rfl⟩, outs.length, _,
      ⟨⟨_, hat, by omega, by rw [hvout]; exact hsmall (by omega), hvout.symm, rfl⟩, by omega⟩, outs, _,
      ⟨by omega, by omega, ?_, rfl⟩, by omega, service, typed, ⟨rfl, hlayout⟩, hvalid, rfl⟩
    · rw [val_feltOfNat (serviceId_lt _)]; exact serviceId_lt _
    · simp [flatten, ofFelt_comp_toFelt]
    · have hpast : ins.drop (ins.length + 1) = [] := List.drop_eq_nil_of_le (Nat.le_succ _)
      rw [Nat.add_comm 2, Nat.add_right_comm]
      simp [flatten, List.drop_append, ofFelt_comp_toFelt, hpast]

/-! ### Panics -/

section
variable {output : List Felt} (h : output.length < 2 ^ D.usizeBits)
include h

theorem takeU64_ne_panic (cursor : ℕ) (error : String) :
    D.takeU64 output cursor error ≠ .error .panic := by
  intro hp
  simp only [takeU64, advance, bind_eq_error, orReject_eq_error, rejectIf_eq_error,
    pure_ne_error, reduceCtorEq, and_false, or_false, exists_false, false_or] at hp
  obtain ⟨v, hv, hcursor, -⟩ := hp
  obtain ⟨hlt, -⟩ := List.getElem?_eq_some_iff.mp (orReject_eq_ok.mp hv)
  omega

theorem takeLen_ne_panic (cursor : ℕ) (error : String) :
    D.takeLen output cursor error ≠ .error .panic := by
  simp only [takeLen, ne_eq, bind_eq_error, rejectIf_eq_error, takeU64_ne_panic h, pure_ne_error,
    reduceCtorEq, and_false, or_false, exists_false, not_false_eq_true]

end

theorem takeFelts_ne_panic (output : List Felt) (cursor len : ℕ) (error : String) :
    D.takeFelts output cursor len error ≠ .error .panic := by
  simp only [takeFelts, ne_eq, bind_eq_error, rejectIf_eq_error, mapM_fieldToFelt, pure_ne_error,
    reduceCtorEq, and_false, or_false, exists_false, not_false_eq_true]

theorem decodeBoolean_ne_panic (value : FeltHex) : D.decodeBoolean value ≠ .error .panic := by
  unfold decodeBoolean
  split
  · simp
  · split <;> simp

/-- Each list is indexed only when it has the element. -/
theorem typedOutput_ne_panic (id : ℕ) (ins outs : List FeltHex) :
    D.typedOutput id ins outs ≠ .error .panic := by
  rw [typedOutput.eq_def]
  split <;> try (split; rotate_left)
  all_goals simp only [ne_eq, Except.error.injEq, reduceCtorEq, not_false_eq_true]
  all_goals
    rename_i harity
    obtain ⟨r, rfl⟩ := List.length_eq_one_iff.mp harity.2
    simp only [head, bind_eq_error, orReject_eq_error, decodeBoolean_ne_panic, pure_ne_error,
      List.getElem?_cons_zero, reduceCtorEq, false_and, and_false, exists_false, or_false,
      not_false_eq_true]

theorem validateStatement_ne_panic (s : ProofStatement) :
    D.validateStatement s ≠ .error .panic := by
  simp only [validateStatement, ne_eq, bind_eq_error, mapReject_eq_error, rejectIf_eq_error,
    reduceCtorEq, and_false, exists_false, or_false, not_false_eq_true]

/-- On a segment that fits the address space nothing panics. -/
theorem decodeStatement_ne_panic {output : List Felt} (h : output.length < 2 ^ D.usizeBits) :
    D.decodeStatement output ≠ .error .panic := by
  simp only [decodeStatement, ne_eq, bind_eq_error, rejectIf_eq_error, takeU64_ne_panic h,
    takeLen_ne_panic h, takeFelts_ne_panic, typedOutput_ne_panic, validateStatement_ne_panic,
    pure_ne_error, reduceCtorEq, and_false, exists_false, or_false, not_false_eq_true]

end Dialect

end SoulSociety.Prover
