import SoulSociety.Core.Types
import SoulSociety.Lib.Numeral

/-! Field elements as numbers. `FeltHex` is the wire form; the Cairo VM and the proof verifier have
    integers below the prime. The two are in bijection, and the order of the hexadecimal text is the
    order of the numbers. -/

namespace SoulSociety.Core
open Lib

/-- Cairo's prime. -/
def cairoPrime : ℕ := 2 ^ 251 + 17 * 2 ^ 192 + 1

instance : NeZero cairoPrime := ⟨by decide⟩

/-- `Felt252` and `FieldElement`: integers below the prime. -/
abbrev Felt := Fin cairoPrime

/-! ### Hexadecimal digits -/

/-- The number that a hexadecimal digit stands for. -/
def digitValue (c : Char) : ℕ := (hexValue c).getD 0

/-- Digits as lowercase hexadecimal text. -/
def hexText (ds : List ℕ) : Text := ds.map hexDigit

theorem digitValue_hexDigit : ∀ d < 16, digitValue (hexDigit d) = d := by decide

theorem isLowerHexDigit_hexDigit : ∀ d < 16, isLowerHexDigit (hexDigit d) = true := by decide

theorem hexDigit_lt_iff : ∀ d < 16, ∀ e < 16, (hexDigit d < hexDigit e ↔ d < e) := by decide

theorem hexDigit_inj : ∀ d < 16, ∀ e < 16, (hexDigit d = hexDigit e ↔ d = e) := by decide

theorem hexDigit_eq : ∀ d < 16, hexDigit d = Char.ofNat (if d < 10 then d + 48 else d + 87) := by
  decide

theorem exists_hexDigit {c : Char} (h : isLowerHexDigit c = true) : ∃ d < 16, hexDigit d = c := by
  simp only [isLowerHexDigit, Bool.or_eq_true, Bool.and_eq_true, decide_eq_true_eq] at h
  have hofNat : Char.ofNat c.toNat = c := Char.ofNat_toNat c
  rcases h with ⟨hlo, hhi⟩ | ⟨hlo, hhi⟩
  · have hlo : 48 ≤ c.toNat := hlo
    have hhi : c.toNat ≤ 57 := hhi
    have hback : c.toNat - 48 + 48 = c.toNat := by omega
    refine ⟨c.toNat - 48, by omega, ?_⟩
    rw [hexDigit_eq _ (by omega), if_pos (by omega), hback, hofNat]
  · have hlo : 97 ≤ c.toNat := hlo
    have hhi : c.toNat ≤ 102 := hhi
    have hback : c.toNat - 87 + 87 = c.toNat := by omega
    refine ⟨c.toNat - 87, by omega, ?_⟩
    rw [hexDigit_eq _ (by omega), if_neg (by omega), hback, hofNat]

theorem map_digitValue_hexText : ∀ {ds : List ℕ}, (∀ d ∈ ds, d < 16) →
    (hexText ds).map digitValue = ds
  | [], _ => rfl
  | d :: ds, h => by
    obtain ⟨hd, hds⟩ := List.forall_mem_cons.mp h
    have ih := map_digitValue_hexText hds
    rw [hexText] at ih ⊢
    rw [List.map_cons, List.map_cons, ih, digitValue_hexDigit d hd]

theorem hexText_lt_iff : ∀ {ds es : List ℕ}, (∀ d ∈ ds, d < 16) → (∀ e ∈ es, e < 16) →
    (hexText ds < hexText es ↔ ds < es)
  | _, [], _, _ => by simp [hexText]
  | [], _ :: _, _, _ => by simp [hexText]
  | d :: ds, e :: es, hds, hes => by
    obtain ⟨hd, hds⟩ := List.forall_mem_cons.mp hds
    obtain ⟨he, hes⟩ := List.forall_mem_cons.mp hes
    have ih := hexText_lt_iff hds hes
    rw [hexText, hexText] at ih ⊢
    rw [List.map_cons, List.map_cons, List.cons_lt_cons_iff, List.cons_lt_cons_iff, ih,
      hexDigit_lt_iff d hd e he, hexDigit_inj d hd e he]

/-- Lowercase hexadecimal text is the text of its digits. -/
theorem exists_hexText : ∀ {t : Text}, t.all isLowerHexDigit = true →
    ∃ ds, hexText ds = t ∧ ∀ d ∈ ds, d < 16
  | [], _ => ⟨[], rfl, by simp⟩
  | c :: t, h => by
    rw [List.all_cons, Bool.and_eq_true] at h
    obtain ⟨d, hd, rfl⟩ := exists_hexDigit h.1
    obtain ⟨ds, rfl, hds⟩ := exists_hexText h.2
    exact ⟨d :: ds, rfl, List.forall_mem_cons.mpr ⟨hd, hds⟩⟩

theorem isLowerHex_hexText {ds : List ℕ} (h : ∀ d ∈ ds, d < 16) :
    isLowerHex (hexText ds) ds.length = true := by
  refine isLowerHex_iff.mpr ⟨List.length_map .., List.all_eq_true.mpr ?_⟩
  intro c hc
  obtain ⟨d, hd, rfl⟩ := List.mem_map.mp hc
  exact isLowerHexDigit_hexDigit d (h d hd)

/-- The modulus in hexadecimal is the prime. -/
theorem cairoPrimeHex_eq : cairoPrimeHex = hexText (Numeral.digits 16 64 cairoPrime) := by
  decide +kernel

theorem lt_sixteen {w n d : ℕ} (h : d ∈ Numeral.digits 16 w n) : d < 16 :=
  Numeral.digit_lt (by decide) h

theorem cairoPrime_lt : cairoPrime < 16 ^ 64 := by decide

/-- The canonical text of a number is below the modulus when the number is. -/
theorem hexText_lt_cairoPrimeHex {ds : List ℕ} (hlen : ds.length = 64) (h : ∀ d ∈ ds, d < 16) :
    hexText ds < cairoPrimeHex ↔ Numeral.value 16 ds < cairoPrime := by
  have hp : ∀ d ∈ Numeral.digits 16 64 cairoPrime, d < 16 := fun d hd => lt_sixteen hd
  rw [cairoPrimeHex_eq, hexText_lt_iff h hp, Numeral.lt_iff_value_lt (by simp [hlen]) h hp,
    Numeral.value_digits, Nat.mod_eq_of_lt cairoPrime_lt]

/-! ### The bijection -/

namespace FeltHex

/-- A canonical string is `0x` and 64 digits of a number below the prime. -/
theorem exists_digits (f : FeltHex) : ∃ ds, f.value = '0' :: 'x' :: hexText ds ∧ ds.length = 64 ∧
    (∀ d ∈ ds, d < 16) ∧ Numeral.value 16 ds < cairoPrime := by
  obtain ⟨value, canonical⟩ := f
  rw [isFelt.eq_def] at canonical
  split at canonical
  · rw [Bool.and_eq_true, decide_eq_true_eq, isLowerHex_iff] at canonical
    obtain ⟨⟨hlen, hall⟩, hlt⟩ := canonical
    obtain ⟨ds, rfl, hds⟩ := exists_hexText hall
    rw [hexText, List.length_map] at hlen
    exact ⟨ds, rfl, hlen, hds, (hexText_lt_cairoPrimeHex hlen hds).mp hlt⟩
  · cases canonical

theorem isFelt_hexText {ds : List ℕ} (hlen : ds.length = 64) (h : ∀ d ∈ ds, d < 16)
    (hlt : Numeral.value 16 ds < cairoPrime) : isFelt ('0' :: 'x' :: hexText ds) = true := by
  rw [isFelt, Bool.and_eq_true, decide_eq_true_eq, ← hlen]
  exact ⟨isLowerHex_hexText h, (hexText_lt_cairoPrimeHex hlen h).mpr hlt⟩

/-- The number behind the text. -/
def toFelt (f : FeltHex) : Felt := Fin.ofNat _ (Numeral.value 16 ((f.value.drop 2).map digitValue))

theorem value_digits_felt (v : Felt) : Numeral.value 16 (Numeral.digits 16 64 v.val) = v.val := by
  rw [Numeral.value_digits, Nat.mod_eq_of_lt (Nat.lt_trans v.isLt cairoPrime_lt)]

/-- The canonical text of a number. -/
def ofFelt (v : Felt) : FeltHex where
  value := '0' :: 'x' :: hexText (Numeral.digits 16 64 v.val)
  canonical := isFelt_hexText (Numeral.length_digits _ _) (fun _ hd => lt_sixteen hd)
    (by rw [value_digits_felt]; exact v.isLt)

theorem toFelt_val {f : FeltHex} {ds : List ℕ} (hvalue : f.value = '0' :: 'x' :: hexText ds)
    (hds : ∀ d ∈ ds, d < 16) (hlt : Numeral.value 16 ds < cairoPrime) :
    f.toFelt.val = Numeral.value 16 ds := by
  rw [toFelt, Fin.val_ofNat, hvalue, List.drop_succ_cons, List.drop_succ_cons, List.drop_zero,
    map_digitValue_hexText hds, Nat.mod_eq_of_lt hlt]

theorem toFelt_ofFelt (v : Felt) : (ofFelt v).toFelt = v := by
  have hv := value_digits_felt v
  apply Fin.ext
  rw [toFelt_val rfl (fun _ hd => lt_sixteen hd) (hv.symm ▸ v.isLt), hv]

theorem ofFelt_toFelt (f : FeltHex) : ofFelt f.toFelt = f := by
  obtain ⟨ds, hvalue, hlen, hds, hlt⟩ := f.exists_digits
  have hdigits : Numeral.digits 16 64 f.toFelt.val = ds := by
    rw [toFelt_val hvalue hds hlt, ← hlen, Numeral.digits_value hds]
  apply ext_value
  change '0' :: 'x' :: hexText (Numeral.digits 16 64 f.toFelt.val) = f.value
  rw [hvalue, hdigits]

theorem ofFelt_injective : Function.Injective ofFelt :=
  Function.LeftInverse.injective toFelt_ofFelt

@[simp] theorem ofFelt_inj {a b : Felt} : ofFelt a = ofFelt b ↔ a = b := ofFelt_injective.eq_iff

theorem toFelt_injective : Function.Injective toFelt := Function.LeftInverse.injective ofFelt_toFelt

theorem ofFelt_eq_iff {v : Felt} {f : FeltHex} : ofFelt v = f ↔ v = f.toFelt := by
  constructor
  · rintro rfl; exact (toFelt_ofFelt v).symm
  · rintro rfl; exact ofFelt_toFelt f

/-- `{value:064x}` writes the digits of the numeral of width 64. -/
theorem leftpad_toDigits : ∀ {w n : ℕ}, n < 16 ^ (w + 1) →
    List.leftpad (w + 1) '0' (Nat.toDigits 16 n) = hexText (Numeral.digits 16 (w + 1) n)
  | 0, n, h => by
    rw [Nat.zero_add, Nat.pow_one] at h
    rw [Nat.toDigits_of_lt_base h, Numeral.digits_concat, Nat.mod_eq_of_lt h]
    rfl
  | w + 1, n, h => by
    by_cases hn : n < 16
    · rw [Nat.toDigits_of_lt_base hn, Numeral.digits_concat, Nat.div_eq_of_lt hn, Numeral.digits_zero,
        Nat.mod_eq_of_lt hn, hexText, List.map_append, List.map_replicate, List.leftpad]
      rfl
    · have hdiv : n / 16 < 16 ^ (w + 1) := by
        rw [Nat.pow_succ] at h
        exact Nat.div_lt_of_lt_mul (by rw [Nat.mul_comm]; exact h)
      have ih := leftpad_toDigits hdiv
      have hlen : w + 1 + 1 - ((Nat.toDigits 16 (n / 16)).length + 1) =
          w + 1 - (Nat.toDigits 16 (n / 16)).length := by omega
      rw [Nat.toDigits_of_base_le (by decide) (Nat.not_lt.mp hn), Numeral.digits_concat, hexText,
        List.map_append]
      rw [hexText, List.leftpad] at ih
      rw [← ih, List.leftpad, List.length_append, List.length_singleton, hlen, List.append_assoc]
      rfl

/-- A `u64` as a field element. -/
theorem fromU64_eq {n : ℕ} (h : n < 2 ^ 64) :
    fromU64 n = ofFelt ⟨n, Nat.lt_trans h (by decide)⟩ := by
  apply ext_value
  have hmod : n % 2 ^ 64 = n := Nat.mod_eq_of_lt h
  have hwidth : n < 16 ^ (63 + 1) := Nat.lt_trans h (by decide)
  change '0' :: 'x' :: hex64 (n % 2 ^ 64) = '0' :: 'x' :: hexText (Numeral.digits 16 64 n)
  rw [hmod, hex64, leftpad_toDigits hwidth]

end FeltHex

end SoulSociety.Core
