import SoulSociety.Core.Felt
import SoulSociety.Core.Results

/-! How long the documents are. Every error result fits the bound on result content, whatever it says,
    and so does every success whose URL is not long. -/

namespace SoulSociety.Core
open Lib

/-! ### Values and members -/

theorem utf8Len_jsonText_le {t : Text} {n : ℕ} (h : t.length ≤ n) :
    utf8Len (Json.stringify (jsonText t)) ≤ 6 * n + 2 := by
  have hlen : (ofText t).length = t.length := List.length_map ..
  have hle := utf8Len_quote_le (ofText t)
  rw [hlen] at hle
  exact Nat.le_trans hle (Nat.add_le_add_right (Nat.mul_le_mul_left 6 h) 2)

theorem utf8Len_members_le {k : Text} {v : Json} {ms : List (JsString × Json)} {a b : ℕ}
    (hk : k.length ≤ 32) (hv : utf8Len (Json.stringify v) ≤ a)
    (hms : utf8Len (Json.stringifyMembers ms) ≤ b) :
    utf8Len (Json.stringifyMembers ((ofText k, v) :: ms)) ≤ 196 + a + b := by
  have hkey : utf8Len (quote (ofText k)) ≤ 6 * 32 + 2 := utf8Len_jsonText_le hk
  have hcomma : ','.utf8Size = 1 := rfl
  have hcolon : ':'.utf8Size = 1 := rfl
  rw [Json.stringifyMembers, utf8Len_cons, utf8Len_append, utf8Len_cons, utf8Len_append, hcomma,
    hcolon]
  omega

theorem utf8Len_obj_le {k : Text} {v : Json} {ms : List (JsString × Json)} {a b : ℕ}
    (hk : k.length ≤ 32) (hv : utf8Len (Json.stringify v) ≤ a)
    (hms : utf8Len (Json.stringifyMembers ms) ≤ b) :
    utf8Len (Json.stringify (.obj ((ofText k, v) :: ms))) ≤ 196 + a + b :=
  -- the brace takes the place of the comma
  utf8Len_members_le hk hv hms

theorem utf8Len_digits {t : Text} (h : ∀ c ∈ t, c.isDigit = true) : utf8Len t = t.length := by
  induction t with
  | nil => rfl
  | cons c t ih =>
    obtain ⟨hc, ht⟩ := List.forall_mem_cons.mp h
    have hsize : c.utf8Size = 1 := utf8Size_of_isLowerHexDigit (by
      simp only [Char.isDigit, Bool.and_eq_true, decide_eq_true_eq] at hc
      simp only [isLowerHexDigit, Bool.or_eq_true, Bool.and_eq_true, decide_eq_true_eq]
      exact .inl hc)
    rw [utf8Len_cons, ih ht, hsize, List.length_cons, Nat.add_comm]

theorem utf8Len_jsonNat_le {n k : ℕ} (hk : 0 < k) (h : n < 10 ^ k) :
    utf8Len (Json.stringify (jsonNat n)) ≤ k := by
  rw [jsonNat, Json.stringify, utf8Len_digits fun c hc => isDigit_of_mem_decimal hc, decimal]
  exact (Nat.length_toDigits_le_iff (by decide) hk).mpr h

theorem utf8Len_felt_le (f : FeltHex) : utf8Len (Json.stringify f.toJson) ≤ 398 := by
  obtain ⟨ds, hvalue, hlen, -, -⟩ := f.exists_digits
  have hlength : f.value.length ≤ 66 := by
    rw [hvalue, List.length_cons, List.length_cons, hexText, List.length_map, hlen]
  exact utf8Len_jsonText_le hlength

theorem utf8Len_tail_le {a : ℕ} : ∀ {xs : List Json}, (∀ x ∈ xs, utf8Len (Json.stringify x) ≤ a) →
    utf8Len (Json.stringifyTail xs) ≤ (a + 1) * xs.length + 1
  | [], _ => Nat.le_refl 1
  | x :: xs, h => by
    obtain ⟨hx, hxs⟩ := List.forall_mem_cons.mp h
    have ih := utf8Len_tail_le hxs
    have hcomma : ','.utf8Size = 1 := rfl
    rw [Json.stringifyTail, utf8Len_cons, utf8Len_append, hcomma, List.length_cons, Nat.mul_succ]
    omega

theorem utf8Len_arr_le {a : ℕ} {xs : List Json} (h : ∀ x ∈ xs, utf8Len (Json.stringify x) ≤ a) :
    utf8Len (Json.stringify (.arr xs)) ≤ (a + 1) * xs.length + 2 := by
  cases xs with
  | nil => exact Nat.le_refl 2
  | cons x xs =>
    -- the bracket takes the place of a comma
    have htail : utf8Len (Json.stringify (.arr (x :: xs))) =
        utf8Len (Json.stringifyTail (x :: xs)) := rfl
    rw [htail]
    exact Nat.le_succ_of_le (utf8Len_tail_le h)

theorem utf8Len_close_le : utf8Len (Json.stringifyMembers []) ≤ 1 := Nat.le_refl 1

theorem utf8Len_felts_le (fs : List FeltHex) :
    utf8Len (Json.stringify (.arr (fs.map FeltHex.toJson))) ≤ 399 * fs.length + 2 := by
  have hfelts : ∀ x ∈ fs.map FeltHex.toJson, utf8Len (Json.stringify x) ≤ 398 := by
    intro x hx
    obtain ⟨f, -, rfl⟩ := List.mem_map.mp hx
    exact utf8Len_felt_le f
  have hle := utf8Len_arr_le hfelts
  rw [List.length_map] at hle
  exact hle

/-! ### Results -/

/-- An error result fits the bound on result content, whatever it says. -/
theorem errorResult_fits {id : Text} (hid : id.length = 64) (code : ErrorCode) (message : Text) :
    utf8Len (JobResultContent.newError id code message).toText ≤ maxResultBytes := by
  have hmessage : (JobError.new code message).message.length ≤ 160 := List.length_take_le _ _
  have hcode : code.asStr.length ≤ 32 := by cases code <;> decide
  have herr := utf8Len_obj_le (by decide : (text "code").length ≤ 32) (utf8Len_jsonText_le hcode)
    (utf8Len_members_le (by decide : (text "message").length ≤ 32) (utf8Len_jsonText_le hmessage)
      utf8Len_close_le)
  have hall := utf8Len_obj_le (by decide : (text "status").length ≤ 32)
    (utf8Len_jsonText_le (by decide : (text "error").length ≤ 32))
    (utf8Len_members_le (by decide : (text "protocol").length ≤ 32)
      (utf8Len_jsonText_le (by decide : soulWireProtocol.length ≤ 32))
      (utf8Len_members_le (by decide : (text "request_id").length ≤ 32)
        (utf8Len_jsonText_le (Nat.le_of_eq hid))
        (utf8Len_members_le (by decide : (text "error").length ≤ 32) herr utf8Len_close_le)))
  exact Nat.le_trans hall (by decide)

end SoulSociety.Core
