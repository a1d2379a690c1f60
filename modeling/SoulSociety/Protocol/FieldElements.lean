import SoulSociety.Prover.Output
import SoulSociety.Sdk.Correspondence

/-! The wire form of a field element. `soul-core` and the SDK recognise the same strings, one for each
    number below the prime, and everything that produces a field element produces the string of its
    number. -/

namespace SoulSociety.Protocol
open Lib SoulSociety.Core Sdk Prover

/-- `0x` and the lowercase hexadecimal numeral with 64 digits. -/
def feltText (n : ℕ) : Text := text "0x" ++ hexText (Numeral.digits 16 64 n)

theorem ofFelt_value (v : Felt) : (FeltHex.ofFelt v).value = feltText v := rfl

theorem parse_eq_ok {s : Text} {f : FeltHex} : FeltHex.parse s = .ok f ↔ f.value = s := by
  rw [FeltHex.parse]
  constructor
  · intro h
    split at h
    · cases h
      rfl
    · cases h
  · rintro rfl
    rw [dif_pos f.canonical]

theorem exists_parse_iff {s : Text} :
    (∃ f, FeltHex.parse s = .ok f) ↔ ∃ v < cairoPrime, s = feltText v := by
  constructor
  · rintro ⟨f, hf⟩
    refine ⟨f.toFelt, f.toFelt.isLt, ?_⟩
    rw [← parse_eq_ok.mp hf, ← ofFelt_value, FeltHex.ofFelt_toFelt]
  · rintro ⟨v, hv, rfl⟩
    exact ⟨FeltHex.ofFelt ⟨v, hv⟩, parse_eq_ok.mpr rfl⟩

theorem ofFelt_bijective : Function.Bijective FeltHex.ofFelt :=
  ⟨FeltHex.ofFelt_injective, fun f => ⟨f.toFelt, f.ofFelt_toFelt⟩⟩

/-- Strings of field elements compare as the numbers. -/
theorem ofFelt_value_lt_iff {a b : Felt} :
    (FeltHex.ofFelt a).value < (FeltHex.ofFelt b).value ↔ a < b := by
  have hlt (v : Felt) : ∀ d ∈ Numeral.digits 16 64 v.val, d < 16 := fun _ hd => lt_sixteen hd
  change '0' :: 'x' :: hexText _ < '0' :: 'x' :: hexText _ ↔ _
  rw [List.cons_lt_cons_self, List.cons_lt_cons_self, hexText_lt_iff (hlt a) (hlt b),
    Numeral.lt_iff_value_lt (by simp) (hlt a) (hlt b), FeltHex.value_digits_felt,
    FeltHex.value_digits_felt]
  rfl

theorem isFieldElement_iff_parse {s : JsString} :
    isFieldElement s = true ↔ ∃ t, s = ofText t ∧ ∃ f, FeltHex.parse t = .ok f := by
  rw [isFieldElement_iff]
  constructor
  · rintro ⟨f, rfl⟩
    exact ⟨f.value, rfl, f, parse_eq_ok.mpr rfl⟩
  · rintro ⟨t, rfl, f, hf⟩
    exact ⟨f, congrArg ofText (parse_eq_ok.mp hf)⟩

theorem fromU64_value {n : ℕ} (h : n < 2 ^ 64) : (FeltHex.fromU64 n).value = feltText n := by
  rw [FeltHex.fromU64_eq h, ofFelt_value]

theorem feltFromNumber_value {n : ℕ} (h : n ≤ maxSafeInteger) :
    feltFromNumber n = .ok (ofText (feltText n)) := by
  have hn : n < 2 ^ 64 := Nat.lt_of_le_of_lt h (by decide)
  rw [feltFromNumber_eq h, FeltHex.toSdk, fromU64_value hn]

/-- Field elements have one wire form: the accepted strings are the numerals of the numbers below the
    prime, in their order; the SDK accepts the same strings; and all producers agree. -/
theorem field_elements_have_one_wire_form :
    (∀ s, (∃ f, FeltHex.parse s = .ok f) ↔ ∃ v < cairoPrime, s = feltText v) ∧
      Function.Bijective FeltHex.ofFelt ∧
      (∀ a b : Felt, (FeltHex.ofFelt a).value = feltText a ∧
        ((FeltHex.ofFelt a).value < (FeltHex.ofFelt b).value ↔ a < b) ∧
        (FeltHex.ofFelt a = FeltHex.ofFelt b ↔ a = b)) ∧
      (∀ s, isFieldElement s = true ↔ ∃ t, s = ofText t ∧ ∃ f, FeltHex.parse t = .ok f) ∧
      (∀ n < 2 ^ 64, (FeltHex.fromU64 n).value = feltText n) ∧
      (∀ n ≤ maxSafeInteger, feltFromNumber n = .ok (ofText (feltText n))) ∧
      ∀ (ε : Type) (D : Dialect ε) (v : Felt), D.fieldToFelt v = .ok (FeltHex.ofFelt v) :=
  ⟨fun _ => exists_parse_iff, ofFelt_bijective,
    fun a _ => ⟨ofFelt_value a, ofFelt_value_lt_iff, FeltHex.ofFelt_inj⟩,
    fun _ => isFieldElement_iff_parse, fun _ => fromU64_value, fun _ => feltFromNumber_value,
    fun _ _ => Dialect.fieldToFelt_eq⟩

end SoulSociety.Protocol
