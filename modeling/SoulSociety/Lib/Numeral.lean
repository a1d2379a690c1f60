import Mathlib.Data.List.Lex
import Mathlib.Data.Nat.Notation
import Mathlib.Tactic.Ring

/-! Numerals of a fixed width, most significant digit first. Digits of one width compare as the
    numbers do, and a digit in base `b * c` is two digits, in base `b` and in base `c`: bytes and
    hexadecimal text are two spellings of the same numeral. -/

namespace SoulSociety.Lib.Numeral

/-- The last `w` digits of `n` in base `b`. -/
def digits (b : ℕ) : ℕ → ℕ → List ℕ
  | 0, _ => []
  | w + 1, n => n / b ^ w % b :: digits b w n

/-- The number that the digits stand for. -/
def value (b : ℕ) : List ℕ → ℕ
  | [] => 0
  | d :: ds => d * b ^ ds.length + value b ds

variable {b : ℕ}

@[simp] theorem length_digits : ∀ w n, (digits b w n).length = w
  | 0, _ => rfl
  | w + 1, n => by rw [digits, List.length_cons, length_digits w n]

theorem digit_lt (hb : 0 < b) : ∀ {w n d : ℕ}, d ∈ digits b w n → d < b
  | w + 1, n, d, h => by
    rcases List.mem_cons.mp h with rfl | h
    · exact Nat.mod_lt _ hb
    · exact digit_lt hb h

/-- The digits of a numeral give the number back, as far as the width reaches. -/
theorem value_digits : ∀ w n, value b (digits b w n) = n % b ^ w
  | 0, n => by simp [digits, value, Nat.mod_one]
  | w + 1, n => by
    rw [digits, value, length_digits, value_digits w n, Nat.pow_succ, Nat.mod_mul]
    ring

theorem value_lt : ∀ {ds : List ℕ}, (∀ d ∈ ds, d < b) → value b ds < b ^ ds.length
  | [], _ => Nat.one_pos
  | d :: ds, h => by
    obtain ⟨hd, hds⟩ := List.forall_mem_cons.mp h
    have hv := value_lt hds
    have hle : (d + 1) * b ^ ds.length ≤ b * b ^ ds.length := Nat.mul_le_mul_right _ hd
    rw [value, List.length_cons, Nat.pow_succ, Nat.mul_comm (b ^ _) b]
    rw [Nat.succ_mul] at hle
    omega

/-- Only the last `w` digits matter. -/
theorem digits_mod : ∀ w n, digits b w (n % b ^ w) = digits b w n
  | 0, _ => rfl
  | w + 1, n => by
    have htail : digits b w (n % b ^ (w + 1)) = digits b w n := by
      rw [← digits_mod w, Nat.mod_mod_of_dvd _ (Nat.pow_dvd_pow b (Nat.le_succ w)), digits_mod w]
    have hhead : n % b ^ (w + 1) / b ^ w % b = n / b ^ w % b := by
      rw [Nat.pow_succ, Nat.mod_mul_right_div_self, Nat.mod_mod]
    rw [digits, digits, htail, hhead]

/-- The number of a list of digits has those digits. -/
theorem digits_value : ∀ {ds : List ℕ}, (∀ d ∈ ds, d < b) → digits b ds.length (value b ds) = ds
  | [], _ => rfl
  | d :: ds, h => by
    obtain ⟨hd, hds⟩ := List.forall_mem_cons.mp h
    have hv := value_lt hds
    have hpos : 0 < b ^ ds.length := Nat.zero_lt_of_lt hv
    have hhead : (d * b ^ ds.length + value b ds) / b ^ ds.length % b = d := by
      rw [Nat.add_comm, Nat.add_mul_div_right _ _ hpos, Nat.div_eq_of_lt hv, Nat.zero_add,
        Nat.mod_eq_of_lt hd]
    have htail : digits b ds.length (d * b ^ ds.length + value b ds) = ds := by
      rw [← digits_mod, Nat.add_comm, Nat.add_mul_mod_self_right, digits_mod, digits_value hds]
    rw [List.length_cons, digits, value, hhead, htail]

/-- Digits of one length compare, as lists, as the numbers do. -/
theorem lt_iff_value_lt : ∀ {ds es : List ℕ}, ds.length = es.length → (∀ d ∈ ds, d < b) →
    (∀ e ∈ es, e < b) → (ds < es ↔ value b ds < value b es)
  | [], [], _, _, _ => by simp [value]
  | d :: ds, e :: es, hlen, hds, hes => by
    obtain ⟨-, hds⟩ := List.forall_mem_cons.mp hds
    obtain ⟨-, hes⟩ := List.forall_mem_cons.mp hes
    have hlen : ds.length = es.length := Nat.succ.inj hlen
    have hvd := value_lt hds
    have hve := value_lt hes
    rw [hlen] at hvd
    rw [List.cons_lt_cons_iff, lt_iff_value_lt hlen hds hes, value, value, hlen]
    constructor
    · rintro (hlt | ⟨rfl, hlt⟩)
      · have hle : (d + 1) * b ^ es.length ≤ e * b ^ es.length := Nat.mul_le_mul_right _ hlt
        rw [Nat.succ_mul] at hle
        omega
      · omega
    · intro hlt
      rcases Nat.lt_trichotomy d e with h | rfl | h
      · exact Or.inl h
      · exact Or.inr ⟨rfl, by omega⟩
      · have hle : (e + 1) * b ^ es.length ≤ d * b ^ es.length := Nat.mul_le_mul_right _ h
        rw [Nat.succ_mul] at hle
        omega

/-- The last digit by itself. -/
theorem digits_concat : ∀ w n, digits b (w + 1) n = digits b w (n / b) ++ [n % b]
  | 0, n => by simp [digits]
  | w + 1, n => by
    have hhead : n / b ^ (w + 1) % b = n / b / b ^ w % b := by
      rw [Nat.div_div_eq_div_mul, Nat.pow_succ, Nat.mul_comm (b ^ w) b]
    rw [digits, digits_concat w n, hhead]
    rfl

theorem digits_zero : ∀ w, digits b w 0 = List.replicate w 0
  | 0 => rfl
  | w + 1 => by rw [digits, digits_zero w, Nat.zero_div, Nat.zero_mod, List.replicate_succ]

/-- A digit in base `b * b` is a pair of digits in base `b`. -/
theorem flatMap_digits : ∀ w n, (digits (b * b) w n).flatMap (fun d => [d / b, d % b]) =
    digits b (2 * w) n
  | 0, _ => rfl
  | w + 1, n => by
    have hpow : (b * b) ^ w = b ^ (2 * w) := by rw [← Nat.pow_two, ← Nat.pow_mul]
    have hhigh : n / b ^ (2 * w) % (b * b) / b = n / b ^ (2 * w + 1) % b := by
      rw [Nat.mod_mul_right_div_self, Nat.div_div_eq_div_mul, ← Nat.pow_succ]
    have hlow : n / b ^ (2 * w) % (b * b) % b = n / b ^ (2 * w) % b := Nat.mod_mul_right_mod _ _ _
    have hw : 2 * (w + 1) = 2 * w + 1 + 1 := rfl
    rw [digits, List.flatMap_cons, flatMap_digits w n, hpow, hhigh, hlow, hw, digits, digits]
    rfl

/-- Leading digits are zero exactly when the number fits the rest. -/
theorem take_digits_eq_zero_iff (hb : 0 < b) : ∀ k {w n : ℕ}, n < b ^ (k + w) →
    ((∀ d ∈ (digits b (k + w) n).take k, d = 0) ↔ n < b ^ w)
  | 0, w, n, hn => by simpa using hn
  | k + 1, w, n, hn => by
    have hw : k + 1 + w = k + w + 1 := by omega
    have hpos : 0 < b ^ (k + w) := Nat.pow_pos hb
    rw [hw] at hn ⊢
    have hhead : n / b ^ (k + w) % b = n / b ^ (k + w) := by
      refine Nat.mod_eq_of_lt (Nat.div_lt_of_lt_mul ?_)
      rw [← Nat.pow_succ]
      exact hn
    rw [digits, List.take_succ_cons, List.forall_mem_cons, hhead, Nat.div_eq_zero_iff]
    constructor
    · rintro ⟨hsmall, hrest⟩
      exact (take_digits_eq_zero_iff hb k (hsmall.resolve_left (Nat.ne_of_gt hpos))).mp hrest
    · intro hlt
      have hle : b ^ w ≤ b ^ (k + w) := Nat.pow_le_pow_right hb (Nat.le_add_left w k)
      have hsmall : n < b ^ (k + w) := Nat.lt_of_lt_of_le hlt hle
      exact ⟨Or.inr hsmall, (take_digits_eq_zero_iff hb k hsmall).mpr hlt⟩

/-- The last digits are the numeral of the smaller width. -/
theorem drop_digits : ∀ k {w n : ℕ}, (digits b (k + w) n).drop k = digits b w n
  | 0, w, n => by rw [Nat.zero_add, List.drop_zero]
  | k + 1, w, n => by
    have hw : k + 1 + w = k + w + 1 := by omega
    rw [hw, digits, List.drop_succ_cons, drop_digits k]

end SoulSociety.Lib.Numeral
