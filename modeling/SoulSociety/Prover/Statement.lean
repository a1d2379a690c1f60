import SoulSociety.Prover.Output

/-! Encoding requests and decoding the Cairo public output (`soul-prover/src/statement.rs`). What the
    decoder takes is the Soul Cairo v1 grammar, and decoding and flattening undo each other. -/

namespace SoulSociety.Prover
open Lib SoulSociety.Core

/-- A malformed request, or a public output that does not match Soul Cairo v1. -/
inductive StatementError where
  | invalidInput (e : ValidationError)
  | invalidFelt
  | invalidOutput (reason : String)
  | invalidStatement (reason : String)
  deriving DecidableEq, Repr

/-- The copy of `soul-prover`, on 64-bit words. -/
def native : Dialect StatementError where
  usizeBits := 64
  invalidOutput := .invalidOutput
  notCanonical := "field element is not canonical"
  invalidStatement _ := .invalidStatement "core statement validation failed"
  disagreement :=
    .invalidStatement "service, arity, raw output, and typed output disagree"

def fieldToFelt : Felt → Except (Fault StatementError) FeltHex := native.fieldToFelt

def validateStatement : ProofStatement → Except (Fault StatementError) Unit :=
  native.validateStatement

def decodeStatement : List Felt → Except (Fault StatementError) ProofStatement :=
  native.decodeStatement

/-! ### Encoding -/

/-- `Felt252::from_hex`: hexadecimal digits behind `0x`, modulo the prime. -/
def feltFromHex : Text → Option Felt
  | '0' :: 'x' :: ds =>
    if ds.all fun c => (hexValue c).isSome then
      some (feltOfNat (Numeral.value 16 (ds.map digitValue)))
    else none
  | _ => none

def felt252 (value : FeltHex) : Except StatementError Felt :=
  orReject (feltFromHex value.value) .invalidFelt

/-- Flatten a validated request using the Cairo executable Serde ABI. -/
def encodeJob (input : JobInput) : Except StatementError (List Felt) := do
  mapReject input.validate .invalidInput
  match input with
  | .fibonacci n => return [feltOfNat 1, feltOfNat 1, feltOfNat n, feltOfNat 0]
  | .hashVerify hash preimage => do
    let hash ← felt252 hash
    let preimage ← felt252 preimage
    return [feltOfNat 2, feltOfNat 1, hash, feltOfNat 1, preimage]
  | .merkleProof root leaf proof index => do
    let root ← felt252 root
    let leaf ← felt252 leaf
    let path ← proof.mapM felt252
    return [feltOfNat 3, feltOfNat 3, root, leaf, feltOfNat index, feltOfNat proof.length] ++ path

/-- The public and the private arguments of a job. -/
def publicArgs : JobInput → List Felt
  | .fibonacci n => [feltOfNat n]
  | .hashVerify hash _ => [hash.toFelt]
  | .merkleProof root leaf _ index => [root.toFelt, leaf.toFelt, feltOfNat index]

def privateArgs : JobInput → List Felt
  | .fibonacci _ => []
  | .hashVerify _ preimage => [preimage.toFelt]
  | .merkleProof _ _ proof _ => proof.map FeltHex.toFelt

/-- `(service, public, private)` as Cairo Serde writes it. -/
def serializeArgs (service : ℕ) (public_input private_input : List Felt) : List Felt :=
  feltOfNat service :: feltOfNat public_input.length ::
    (public_input ++ feltOfNat private_input.length :: private_input)

theorem digitValue_isSome {d : ℕ} (h : d < 16) : (hexValue (hexDigit d)).isSome = true := by
  have hall : ∀ d < 16, (hexValue (hexDigit d)).isSome = true := by decide
  exact hall d h

/-- A canonical text reads as the number it stands for. -/
theorem felt252_eq (f : FeltHex) : felt252 f = .ok f.toFelt := by
  obtain ⟨ds, hvalue, -, hds, hlt⟩ := f.exists_digits
  have hsome : ((hexText ds).all fun c => (hexValue c).isSome) = true := by
    rw [List.all_eq_true]
    intro c hc
    obtain ⟨d, hd, rfl⟩ := List.mem_map.mp hc
    exact digitValue_isSome (hds d hd)
  have hread : feltFromHex f.value = some f.toFelt := by
    rw [hvalue, feltFromHex, if_pos hsome, map_digitValue_hexText hds,
      ← FeltHex.toFelt_val hvalue hds hlt, Dialect.feltOfNat_val]
  rw [felt252, hread]
  rfl

theorem mapM_felt252 : ∀ fs : List FeltHex, fs.mapM felt252 = .ok (fs.map FeltHex.toFelt)
  | [] => rfl
  | f :: fs => by
    rw [List.mapM_cons, felt252_eq, mapM_felt252 fs]
    rfl

/-- A valid job has an encoding: its service and arguments. -/
theorem encodeJob_eq_ok {i : JobInput} {fs : List Felt} : encodeJob i = .ok fs ↔
    i.validate = .ok () ∧ fs = serializeArgs (serviceId i.service) (publicArgs i) (privateArgs i) := by
  simp only [encodeJob, bind_eq_ok, mapReject_eq_ok, exists_unit]
  refine and_congr_right fun _ => ?_
  cases i with
  | fibonacci n => exact ⟨fun h => (Except.ok.inj h).symm, fun h => congrArg Except.ok h.symm⟩
  | hashVerify hash preimage =>
    simp only [felt252_eq, bind_eq_ok, Except.ok.injEq, exists_eq_left', pure_eq_ok]
    exact eq_comm
  | merkleProof root leaf proof index =>
    simp only [felt252_eq, mapM_felt252, bind_eq_ok, Except.ok.injEq, exists_eq_left', pure_eq_ok]
    rw [serializeArgs, privateArgs, List.length_map]
    exact eq_comm

/-! ### Decoding -/

/-- A slice of field elements. Its elements have 32 bytes, and fill at most `isize::MAX` of them. -/
structure FeltSlice where
  values : List Felt
  bounded : 32 * values.length < 2 ^ 63

/-- How many public inputs a service has. -/
def inputArity : ServiceType → ℕ
  | .fibonacci => 1
  | .hashVerify => 1
  | .merkleProof => 3

/-- The Soul Cairo v1 output: service id, public input and a single public output, each list behind
    its length. The two verification services answer with a boolean. -/
def OutputGrammar (output : List Felt) : Prop :=
  ∃ service ins result, output = feltOfNat (serviceId service) :: feltOfNat ins.length ::
      (ins ++ [feltOfNat 1, result]) ∧ ins.length = inputArity service ∧
    (service ≠ .fibonacci → result.val ≤ 1)

theorem toFelt_fromU64 {n : ℕ} (h : n < 2 ^ 64) : (FeltHex.fromU64 n).toFelt = feltOfNat n := by
  rw [FeltHex.fromU64_eq h, FeltHex.toFelt_ofFelt]
  exact Fin.ext (Dialect.val_feltOfNat h).symm

theorem boolU64_lt (valid : Bool) : ProofStatement.boolU64 valid < 2 ^ 64 := by
  cases valid <;> decide

theorem exists_boolU64 {v : Felt} (h : v.val ≤ 1) :
    ∃ valid, FeltHex.ofFelt v = FeltHex.fromU64 (ProofStatement.boolU64 valid) := by
  have hv : v.val = 0 ∨ v.val = 1 := by omega
  rcases hv with h₀ | h₁
  · refine ⟨false, ?_⟩
    rw [FeltHex.ofFelt_eq_iff, toFelt_fromU64 (boolU64_lt false), ← Dialect.feltOfNat_val v, h₀]
    rfl
  · refine ⟨true, ?_⟩
    rw [FeltHex.ofFelt_eq_iff, toFelt_fromU64 (boolU64_lt true), ← Dialect.feltOfNat_val v, h₁]
    rfl

/-- The segments of valid statements are those of the grammar. -/
theorem outputGrammar_iff {output : List Felt} :
    OutputGrammar output ↔ ∃ s : ProofStatement, s.validate = .ok () ∧ flatten s = output := by
  have hflat : ∀ service ins result typed, flatten ⟨service, cairoProgram, ins.map FeltHex.ofFelt,
      [FeltHex.ofFelt result], typed⟩ = feltOfNat (serviceId service) :: feltOfNat ins.length ::
        (ins ++ [feltOfNat 1, result]) := by
    intro service ins result typed
    rw [flatten, List.map_cons, List.map_nil, FeltHex.toFelt_ofFelt, Dialect.map_toFelt_ofFelt,
      List.length_map]
    rfl
  constructor
  · rintro ⟨service, ins, result, rfl, hin, hbool⟩
    cases service with
    | fibonacci =>
      refine ⟨_, ProofStatement.validate_iff.mpr ⟨rfl, ?_⟩,
        hflat _ ins result (.fibonacci (FeltHex.ofFelt result))⟩
      simpa [ProofStatement.layoutMatches, inputArity] using hin
    | hashVerify =>
      obtain ⟨valid, hvalid⟩ := exists_boolU64 (hbool (by decide))
      refine ⟨_, ProofStatement.validate_iff.mpr ⟨rfl, ?_⟩, hflat _ ins result (.hashVerify valid)⟩
      simpa [ProofStatement.layoutMatches, hvalid, inputArity] using hin
    | merkleProof =>
      obtain ⟨valid, hvalid⟩ := exists_boolU64 (hbool (by decide))
      refine ⟨_, ProofStatement.validate_iff.mpr ⟨rfl, ?_⟩, hflat _ ins result (.merkleProof valid)⟩
      simpa [ProofStatement.layoutMatches, hvalid, inputArity] using hin
  · rintro ⟨s, hvalid, rfl⟩
    obtain ⟨-, hlayout⟩ := ProofStatement.validate_iff.mp hvalid
    obtain ⟨service, program, ins, outs, typed⟩ := s
    have hbit : ∀ valid, (FeltHex.fromU64 (ProofStatement.boolU64 valid)).toFelt.val ≤ 1 := by
      intro valid
      rw [toFelt_fromU64 (boolU64_lt valid)]
      cases valid <;> decide
    have hins : (ins.map FeltHex.toFelt).length = ins.length := List.length_map ..
    cases service with
    | fibonacci =>
      cases typed with
      | fibonacci result =>
        simp only [ProofStatement.layoutMatches, Bool.and_eq_true, decide_eq_true_eq] at hlayout
        obtain ⟨hin, rfl⟩ := hlayout
        exact ⟨.fibonacci, _, _, by rw [hins]; rfl, hins.trans hin, fun h => absurd rfl h⟩
      | hashVerify _ => cases hlayout
      | merkleProof _ => cases hlayout
    | hashVerify =>
      cases typed with
      | fibonacci _ => cases hlayout
      | hashVerify valid =>
        simp only [ProofStatement.layoutMatches, Bool.and_eq_true, decide_eq_true_eq] at hlayout
        obtain ⟨hin, rfl⟩ := hlayout
        exact ⟨.hashVerify, _, _, by rw [hins]; rfl, hins.trans hin, fun _ => hbit valid⟩
      | merkleProof _ => cases hlayout
    | merkleProof =>
      cases typed with
      | fibonacci _ => cases hlayout
      | hashVerify _ => cases hlayout
      | merkleProof valid =>
        simp only [ProofStatement.layoutMatches, Bool.and_eq_true, decide_eq_true_eq] at hlayout
        obtain ⟨hin, rfl⟩ := hlayout
        exact ⟨.merkleProof, _, _, by rw [hins]; rfl, hins.trans hin, fun _ => hbit valid⟩

/-- The decoder never panics, accepts exactly the grammar, and returns the one valid statement whose
    flattening the segment is. -/
theorem decode_statement_grammar (output : FeltSlice) :
    decodeStatement output.values ≠ .error .panic ∧
      ((∃ s, decodeStatement output.values = .ok s) ↔ OutputGrammar output.values) ∧
      ∀ s, decodeStatement output.values = .ok s ↔ s.validate = .ok () ∧
        flatten s = output.values ∧
          ∀ s' : ProofStatement, s'.validate = .ok () → flatten s' = output.values → s' = s := by
  have hlen : output.values.length < 2 ^ native.usizeBits := by
    have h := output.bounded
    change output.values.length < 2 ^ 64
    omega
  have heq : ∀ s, decodeStatement output.values = .ok s ↔
      s.validate = .ok () ∧ flatten s = output.values := fun s =>
    Dialect.decodeStatement_eq_ok (by decide)
  refine ⟨Dialect.decodeStatement_ne_panic hlen, ?_, ?_⟩
  · rw [outputGrammar_iff]
    exact exists_congr heq
  · intro s
    constructor
    · intro h
      obtain ⟨hvalid, hflat⟩ := (heq s).mp h
      refine ⟨hvalid, hflat, ?_⟩
      intro s' hvalid' hflat'
      have h' := (heq s').mpr ⟨hvalid', hflat'⟩
      exact Except.ok.inj (h'.symm.trans h)
    · rintro ⟨hvalid, hflat, -⟩
      exact (heq s).mpr ⟨hvalid, hflat⟩

end SoulSociety.Prover
