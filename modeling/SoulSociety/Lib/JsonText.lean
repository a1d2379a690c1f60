import Mathlib.Algebra.GroupWithZero.Nat
import Mathlib.Data.Int.Notation
import Mathlib.Data.List.Basic
import Mathlib.Data.List.Induction
import Mathlib.Order.Basic

/-! The lexical level of JSON: strings with their escapes, and number literals.

    A program that holds strings in UTF-16 can hold a surrogate that has no partner, which a text of
    Unicode scalar values cannot. The reader therefore works on `JsString`, a list of code points.
    The writer escapes such a surrogate, so what it writes is `Text`. Every string comes back from
    its literal unchanged. -/

namespace SoulSociety.Lib

/-- Unicode text as it travels: a list of scalar values. -/
abbrev Text := List Char

/-- Length of the UTF-8 encoding. -/
def utf8Len (t : Text) : ℕ := (t.map Char.utf8Size).sum

/-- A code point of a UTF-16 string: a scalar value, or the unpaired surrogate `0xd800 + u`. -/
inductive CodePoint where
  | scalar (c : Char)
  | lone (u : Fin 0x800)
  deriving DecidableEq, Repr

/-- A UTF-16 string, read by code points. -/
abbrev JsString := List CodePoint

instance : LawfulBEq JsString := inferInstance

/-- Unicode text as a UTF-16 string. -/
def ofText (t : Text) : JsString := t.map .scalar

/-- The string has no unpaired surrogate. -/
def IsText (s : JsString) : Prop := ∃ t, s = ofText t

/-- Length of the UTF-8 encoding, in which an unpaired surrogate becomes `U+FFFD`. -/
def encodedLen (s : JsString) : ℕ :=
  (s.map fun | .scalar c => c.utf8Size | .lone _ => 3).sum

@[simp] theorem ofText_nil : ofText [] = [] := rfl

@[simp] theorem ofText_cons (c : Char) (t : Text) : ofText (c :: t) = .scalar c :: ofText t := rfl

@[simp] theorem ofText_append (s t : Text) : ofText (s ++ t) = ofText s ++ ofText t :=
  List.map_append

@[simp] theorem encodedLen_ofText : ∀ t : Text, encodedLen (ofText t) = utf8Len t
  | [] => rfl
  | c :: t => by
    have ht := encodedLen_ofText t
    simp only [encodedLen, utf8Len, ofText_cons, List.map_cons, List.sum_cons] at ht ⊢
    rw [ht]

theorem ofText_injective : Function.Injective ofText :=
  List.map_injective_iff.mpr fun _ _ h => CodePoint.scalar.inj h

@[simp] theorem ofText_inj {s t : Text} : ofText s = ofText t ↔ s = t := ofText_injective.eq_iff

/-! ### String literals -/

/-- The lowercase hexadecimal digit of `n < 16`. -/
def hexDigit (n : ℕ) : Char := Nat.digitChar n

/-- `\u` and four lowercase hexadecimal digits. -/
def unicodeEscape (n : ℕ) : Text :=
  ['\\', 'u', hexDigit (n / 4096 % 16), hexDigit (n / 256 % 16), hexDigit (n / 16 % 16),
    hexDigit (n % 16)]

/-- The letter of the two-character escape of `c`, when it has one. -/
def escapeLetter : Char → Option Char
  | '"' => some '"'
  | '\\' => some '\\'
  | '\x08' => some 'b'
  | '\x0c' => some 'f'
  | '\n' => some 'n'
  | '\r' => some 'r'
  | '\t' => some 't'
  | _ => none

/-- One code point inside a string literal. -/
def escape : CodePoint → Text
  | .scalar c =>
    match escapeLetter c with
    | some e => ['\\', e]
    | none => if c.toNat < 0x20 then unicodeEscape c.toNat else [c]
  | .lone u => unicodeEscape (0xd800 + u)

/-- The string literal of `s`. -/
def quote (s : JsString) : Text := '"' :: (s.flatMap escape ++ ['"'])

/-- Value of a hexadecimal digit of either case. -/
def hexValue (c : Char) : Option ℕ :=
  if '0' ≤ c ∧ c ≤ '9' then some (c.toNat - '0'.toNat)
  else if 'a' ≤ c ∧ c ≤ 'f' then some (c.toNat - 'a'.toNat + 10)
  else if 'A' ≤ c ∧ c ≤ 'F' then some (c.toNat - 'A'.toNat + 10)
  else none

/-- The code unit written by four hexadecimal digits. -/
def hexUnit (a b c d : Char) : Option ℕ := do
  let a ← hexValue a
  let b ← hexValue b
  let c ← hexValue c
  let d ← hexValue d
  return a * 4096 + b * 256 + c * 16 + d

/-- A code unit taken alone. -/
def codeUnit (n : ℕ) : CodePoint :=
  if 0xd800 ≤ n ∧ n < 0xe000 then .lone (Fin.ofNat _ (n - 0xd800)) else .scalar (Char.ofNat n)

/-- The character a two-character escape stands for. -/
def unescape : Char → Option Char
  | '"' => some '"'
  | '\\' => some '\\'
  | '/' => some '/'
  | 'b' => some '\x08'
  | 'f' => some '\x0c'
  | 'n' => some '\n'
  | 'r' => some '\r'
  | 't' => some '\t'
  | _ => none

/-- The code unit written by four code points, when they are hexadecimal digits. -/
def hexUnits : JsString → Option ℕ
  | [.scalar a, .scalar b, .scalar c, .scalar d] => hexUnit a b c d
  | _ => none

/-- Read up to the closing quote. Surrogates written by escapes are still apart. -/
def readUnits : JsString → Option (JsString × JsString)
  | [] => none
  | .scalar '"' :: rest => some ([], rest)
  | .scalar '\\' :: .scalar 'u' :: a :: b :: c :: d :: rest => do
    let u ← hexUnits [a, b, c, d]
    let (s, rest) ← readUnits rest
    return (codeUnit u :: s, rest)
  | .scalar '\\' :: .scalar e :: rest => do
    let c ← unescape e
    let (s, rest) ← readUnits rest
    return (.scalar c :: s, rest)
  | .scalar c :: rest => do
    let (s, rest) ← if c.toNat < 0x20 ∨ c = '\\' then none else readUnits rest
    return (.scalar c :: s, rest)
  | .lone u :: rest => do
    let (s, rest) ← readUnits rest
    return (.lone u :: s, rest)

/-- The high half and the low half of a surrogate pair. -/
def IsPair : CodePoint → CodePoint → Prop
  | .lone h, .lone l => h < 0x400 ∧ 0x400 ≤ l
  | _, _ => False

instance : ∀ p q : CodePoint, Decidable (IsPair p q)
  | .lone h, .lone l => inferInstanceAs (Decidable (h < 0x400 ∧ 0x400 ≤ l))
  | .scalar _, _ | .lone _, .scalar _ => inferInstanceAs (Decidable False)

/-- The scalar value of a surrogate pair. -/
def pairScalar : CodePoint → CodePoint → CodePoint
  | .lone h, .lone l => .scalar (Char.ofNat (0x10000 + h * 0x400 + (l - 0x400)))
  | p, _ => p

/-- Put a code point in front of a string, joining a surrogate pair. -/
def joinPair (p : CodePoint) : JsString → JsString
  | [] => [p]
  | q :: s => if IsPair p q then pairScalar p q :: s else p :: q :: s

/-- No surrogate stands directly before its partner: the two would be one scalar value. The code
    points of a string of code units are paired. -/
def Paired : JsString → Prop
  | [] | [_] => True
  | p :: q :: s => ¬ IsPair p q ∧ Paired (q :: s)

instance decidablePaired : ∀ s : JsString, Decidable (Paired s)
  | [] | [_] => isTrue trivial
  | p :: q :: s =>
    have := decidablePaired (q :: s)
    inferInstanceAs (Decidable (¬ IsPair p q ∧ Paired (q :: s)))

/-- Read a string literal whose opening quote is already consumed. -/
def readString (t : JsString) : Option (JsString × JsString) :=
  (readUnits t).map fun (s, rest) => (s.foldr joinPair [], rest)

theorem utf8Len_append (s t : Text) : utf8Len (s ++ t) = utf8Len s + utf8Len t := by
  simp [utf8Len]

theorem utf8Len_unicodeEscape (n : ℕ) : utf8Len (unicodeEscape n) = 6 := by
  have hdigit : ∀ m < 16, (hexDigit m).utf8Size = 1 := by decide
  simp only [unicodeEscape, utf8Len, List.map_cons, List.map_nil, List.sum_cons, List.sum_nil,
    hdigit _ (Nat.mod_lt _ (by decide : 0 < 16))]
  rfl

/-- No code point takes more than six bytes in a literal. -/
theorem utf8Len_escape_le : ∀ p : CodePoint, utf8Len (escape p) ≤ 6
  | .scalar c => by
    have hsize : c.utf8Size ≤ 4 := Char.utf8Size_le_four c
    rw [escape]
    split
    · rename_i e _
      have he : e.utf8Size ≤ 4 := Char.utf8Size_le_four e
      have hb : '\\'.utf8Size = 1 := rfl
      simp only [utf8Len, List.map_cons, List.map_nil, List.sum_cons, List.sum_nil, hb]
      omega
    · split
      · exact Nat.le_of_eq (utf8Len_unicodeEscape _)
      · simp only [utf8Len, List.map_cons, List.map_nil, List.sum_cons, List.sum_nil]
        omega
  | .lone _ => Nat.le_of_eq (utf8Len_unicodeEscape _)

theorem utf8Len_quote_le (s : JsString) : utf8Len (quote s) ≤ 6 * s.length + 2 := by
  have hbody : ∀ s : JsString, utf8Len (s.flatMap escape) ≤ 6 * s.length := by
    intro s
    induction s with
    | nil => exact Nat.zero_le _
    | cons p s ih =>
      have hp := utf8Len_escape_le p
      rw [List.flatMap_cons, utf8Len_append, List.length_cons]
      omega
  have hq : utf8Len ['"'] = 1 := rfl
  have hb := hbody s
  rw [quote, ← List.singleton_append, utf8Len_append, utf8Len_append, hq]
  omega

theorem hexValue_hexDigit : ∀ n < 16, hexValue (hexDigit n) = some n := by decide

theorem codeUnit_toNat {c : Char} (h : c.toNat < 0x20) : codeUnit c.toNat = .scalar c := by
  rw [codeUnit, if_neg (by omega), Char.ofNat_toNat]

theorem codeUnit_lone (u : Fin 0x800) : codeUnit (0xd800 + u) = .lone u := by
  rw [codeUnit, if_pos (by omega), Nat.add_sub_cancel_left]
  exact congrArg CodePoint.lone (Fin.ext (Nat.mod_eq_of_lt u.isLt))

theorem escapeLetter_eq_some {c e : Char} (h : escapeLetter c = some e) :
    unescape e = some c ∧ e ≠ 'u' := by
  unfold escapeLetter at h
  split at h <;> cases h <;> exact ⟨rfl, by decide⟩

theorem escapeLetter_eq_none {c : Char} (h : escapeLetter c = none) : c ≠ '"' ∧ c ≠ '\\' := by
  constructor <;> rintro rfl <;> cases h

theorem readUnits_unicodeEscape {n : ℕ} (hn : n < 65536) (rest : JsString) :
    readUnits (ofText (unicodeEscape n) ++ rest) =
      (readUnits rest).map fun p => (codeUnit n :: p.1, p.2) := by
  have h₁ := hexValue_hexDigit (n / 4096 % 16) (Nat.mod_lt _ (by decide))
  have h₂ := hexValue_hexDigit (n / 256 % 16) (Nat.mod_lt _ (by decide))
  have h₃ := hexValue_hexDigit (n / 16 % 16) (Nat.mod_lt _ (by decide))
  have h₄ := hexValue_hexDigit (n % 16) (Nat.mod_lt _ (by decide))
  have hunit : n / 4096 % 16 * 4096 + n / 256 % 16 * 256 + n / 16 % 16 * 16 + n % 16 = n := by
    omega
  have hread : hexUnit (hexDigit (n / 4096 % 16)) (hexDigit (n / 256 % 16))
      (hexDigit (n / 16 % 16)) (hexDigit (n % 16)) = some n := by
    rw [hexUnit, h₁, h₂, h₃, h₄]
    exact congrArg some hunit
  simp only [unicodeEscape, ofText_cons, ofText_nil, List.cons_append, List.nil_append, readUnits,
    hexUnits, hread]
  cases readUnits rest <;> rfl

theorem readUnits_short {e c : Char} (he : unescape e = some c) (hu : e ≠ 'u') (rest : JsString) :
    readUnits (.scalar '\\' :: .scalar e :: rest) =
      (readUnits rest).map fun p => (.scalar c :: p.1, p.2) := by
  rw [readUnits]
  · simp only [he]
    cases readUnits rest <;> rfl
  · exact fun _ _ _ _ _ _ h => hu h

theorem readUnits_plain {c : Char} (hq : c ≠ '"') (hb : c ≠ '\\') (hc : ¬ c.toNat < 0x20)
    (rest : JsString) :
    readUnits (.scalar c :: rest) = (readUnits rest).map fun p => (.scalar c :: p.1, p.2) := by
  rw [readUnits]
  · rw [if_neg (not_or.mpr ⟨hc, hb⟩)]
    cases readUnits rest <;> rfl
  · exact hq
  · exact fun _ _ _ _ _ _ hc => hb hc
  · exact fun _ _ _ hc => hb hc

/-- The escape of a code point reads back as that code point. -/
theorem readUnits_escape : ∀ (p : CodePoint) (rest : JsString),
    readUnits (ofText (escape p) ++ rest) = (readUnits rest).map fun q => (p :: q.1, q.2)
  | .lone u, rest => by
    rw [escape, readUnits_unicodeEscape (by omega), codeUnit_lone]
  | .scalar c, rest => by
    rw [escape]
    cases he : escapeLetter c with
    | some e =>
      obtain ⟨hun, hu⟩ := escapeLetter_eq_some he
      exact readUnits_short hun hu rest
    | none =>
      obtain ⟨hq, hb⟩ := escapeLetter_eq_none he
      dsimp only
      by_cases hc : c.toNat < 0x20
      · rw [if_pos hc, readUnits_unicodeEscape (by omega), codeUnit_toNat hc]
      · rw [if_neg hc]
        exact readUnits_plain hq hb hc rest

theorem readUnits_flatMap_escape : ∀ s rest : JsString,
    readUnits (ofText (s.flatMap escape) ++ .scalar '"' :: rest) = some (s, rest)
  | [], rest => by simp [readUnits]
  | p :: s, rest => by
    rw [List.flatMap_cons, ofText_append, List.append_assoc, readUnits_escape,
      readUnits_flatMap_escape s rest]
    rfl

theorem Paired.tail : ∀ {p : CodePoint} {s : JsString}, Paired (p :: s) → Paired s
  | _, [], _ => trivial
  | _, _ :: _, h => h.2

theorem Paired.cons_scalar (c : Char) : ∀ {s : JsString}, Paired s → Paired (.scalar c :: s)
  | [], _ => trivial
  | .scalar _ :: _, h => ⟨id, h⟩
  | .lone _ :: _, h => ⟨id, h⟩

theorem paired_ofText : ∀ t : Text, Paired (ofText t)
  | [] => trivial
  | c :: t => (paired_ofText t).cons_scalar c

theorem IsText.paired {s : JsString} (h : IsText s) : Paired s := by
  obtain ⟨t, rfl⟩ := h
  exact paired_ofText t

/-- A pair becomes a scalar value. -/
theorem pairScalar_of_isPair : ∀ {p q : CodePoint}, IsPair p q → ∃ c, pairScalar p q = .scalar c
  | .lone _, .lone _, _ => ⟨_, rfl⟩

theorem paired_joinPair (p : CodePoint) : ∀ {s : JsString}, Paired s → Paired (joinPair p s)
  | [], _ => trivial
  | q :: s, h => by
    rw [joinPair]
    by_cases hpair : IsPair p q
    · obtain ⟨c, hc⟩ := pairScalar_of_isPair hpair
      rw [if_pos hpair, hc]
      exact h.tail.cons_scalar c
    · rw [if_neg hpair]
      exact ⟨hpair, h⟩

/-- Joining leaves no pair. -/
theorem paired_foldr_joinPair : ∀ s : JsString, Paired (s.foldr joinPair [])
  | [] => trivial
  | p :: s => paired_joinPair p (paired_foldr_joinPair s)

theorem foldr_joinPair_of_paired : ∀ {s : JsString}, Paired s → s.foldr joinPair [] = s
  | [], _ => rfl
  | p :: s, h => by
    rw [List.foldr_cons, foldr_joinPair_of_paired h.tail]
    cases s with
    | nil => rfl
    | cons q s => rw [joinPair, if_neg h.1]

/-- What a literal reads as has no split pair. -/
theorem paired_of_readString {t s rest : JsString} (h : readString t = some (s, rest)) :
    Paired s := by
  rw [readString, Option.map_eq_some_iff] at h
  obtain ⟨⟨u, r⟩, -, hs⟩ := h
  rw [← (Prod.mk.inj hs).1]
  exact paired_foldr_joinPair u

/-- The literal of a string reads back as that string. -/
theorem readString_quote {s : JsString} (hs : Paired s) (rest : JsString) :
    readString (ofText (s.flatMap escape) ++ .scalar '"' :: rest) = some (s, rest) := by
  rw [readString, readUnits_flatMap_escape, Option.map_some]
  exact congrArg (fun s => some (s, rest)) (foldr_joinPair_of_paired hs)

/-! ### Number literals -/

/-- A JavaScript number as the codecs tell numbers apart: a non-negative integer (with `-0` read as
    `0`, which compares and prints alike), or any other double. Literals are read as `nat` below
    `2 ^ 53` only, where every integer is a double. -/
inductive Number where
  | nat (n : ℕ)
  | other
  deriving DecidableEq, Repr

/-- `a / b` rounded to an integer, ties to even. -/
def roundHalfEven (a b : ℕ) : ℕ :=
  let q := a / b
  let r := a % b
  if 2 * r < b then q
  else if b < 2 * r then q + 1
  else if q % 2 = 0 then q else q + 1

/-- Half of the least positive double is `1 / 2 ^ 1075`. -/
def underflowExponent : ℕ := 1075

/-- The double nearest to `a / b`, when it is an integer below `2 ^ 53`. Below one the spacing of
    doubles leaves only `0` and `1`; from one on, the significand has 53 bits. -/
def nearestSafe (a b : ℕ) : Option ℕ :=
  if a < b then
    if a * 2 ^ underflowExponent ≤ b then some 0
    else if b * (2 ^ 54 - 1) ≤ a * 2 ^ 54 then some 1
    else none
  else
    let k := Nat.log2 (a / b)
    if 53 ≤ k then none
    else
      let scale := 2 ^ (52 - k)
      let r := roundHalfEven (a * scale) b
      if r % scale = 0 ∧ r / scale < 2 ^ 53 then some (r / scale) else none

/-- The number denoted by `± mantissa * 10 ^ exponent`. -/
def readNumber (neg : Bool) (mantissa : ℕ) (exponent : ℤ) : Number :=
  match nearestSafe (mantissa * 10 ^ exponent.toNat) (10 ^ (-exponent).toNat) with
  | some n => if neg ∧ n ≠ 0 then .other else .nat n
  | none => .other

/-- The digits at the front of a string, and what follows them. -/
def spanDigits : JsString → Text × JsString
  | .scalar c :: rest =>
    if c.isDigit then (c :: (spanDigits rest).1, (spanDigits rest).2) else ([], .scalar c :: rest)
  | rest => ([], rest)

/-- An optional fraction: its digits, and what follows. -/
def parseFraction : JsString → Option (Text × JsString)
  | .scalar '.' :: t =>
    match spanDigits t with
    | ([], _) => none
    | (ds, rest) => some (ds, rest)
  | t => some ([], t)

/-- The digits of an exponent, after its sign. -/
def parseExponentDigits (neg : Bool) (t : JsString) : Option (ℤ × JsString) :=
  match spanDigits t with
  | ([], _) => none
  | (ds, rest) =>
    let n : ℤ := Nat.ofDigitChars 10 ds 0
    some (if neg then -n else n, rest)

/-- An optional exponent. -/
def parseExponent : JsString → Option (ℤ × JsString)
  | .scalar 'e' :: .scalar '-' :: t | .scalar 'E' :: .scalar '-' :: t => parseExponentDigits true t
  | .scalar 'e' :: .scalar '+' :: t | .scalar 'E' :: .scalar '+' :: t => parseExponentDigits false t
  | .scalar 'e' :: t | .scalar 'E' :: t => parseExponentDigits false t
  | t => some (0, t)

/-- What a reader makes of `± mantissa * 10 ^ exponent`. `readNumber` is the reader of JavaScript. -/
abbrev NumberReader := Bool → ℕ → ℤ → Number

/-- The reader that keeps every digit of an integer. -/
def readExact : NumberReader
  | false, n, 0 => .nat n
  | _, _, _ => .other

variable (read : NumberReader)

/-- A number literal after its sign. -/
def parseUnsigned (neg : Bool) (t : JsString) : Option (Number × JsString) :=
  match spanDigits t with
  | ([], _) => none
  | ('0' :: _ :: _, _) => none
  | (int, t) =>
    (parseFraction t).bind fun (frac, t) =>
      (parseExponent t).bind fun (e, t) =>
        some (read neg (Nat.ofDigitChars 10 (int ++ frac) 0) (e - frac.length), t)

/-- A number literal. -/
def parseNumber : JsString → Option (Number × JsString)
  | .scalar '-' :: t => parseUnsigned read true t
  | t => parseUnsigned read false t

/-- The text of a natural number. -/
def decimal (n : ℕ) : Text := Nat.toDigits 10 n

/-- What follows a number in a document: nothing that could continue the literal. -/
def EndsNumber (rest : JsString) : Prop :=
  ∀ c, rest.head? = some (.scalar c) → c.isDigit = false ∧ c ≠ '.' ∧ c ≠ 'e' ∧ c ≠ 'E'

theorem EndsNumber.nil : EndsNumber [] := fun _ h => by cases h

theorem EndsNumber.cons {c : Char} {rest : JsString}
    (h : c.isDigit = false ∧ c ≠ '.' ∧ c ≠ 'e' ∧ c ≠ 'E') : EndsNumber (.scalar c :: rest) := by
  rintro d ⟨⟩
  exact h

theorem isDigit_of_mem_decimal {n : ℕ} {c : Char} (h : c ∈ decimal n) : c.isDigit = true :=
  Nat.isDigit_of_mem_toDigits (by decide) (by decide) h

theorem decimal_ne_nil (n : ℕ) : decimal n ≠ [] := Nat.toDigits_ne_nil

theorem decimal_inj {m n : ℕ} : decimal m = decimal n ↔ m = n := by
  have hval : ∀ n, Nat.ofDigitChars 10 (decimal n) 0 = n := fun _ => Nat.ofDigitChars_ten_toDigits
  constructor
  · intro h
    rw [← hval m, h, hval n]
  · rintro rfl; rfl

/-- Only zero is written with a leading zero. -/
theorem decimal_eq_zero_cons {n : ℕ} {ds : Text} (h : decimal n = '0' :: ds) : ds = [] := by
  induction n using Nat.strongRecOn generalizing ds with
  | ind n ih =>
    rw [decimal, Nat.toDigits_eq_if (by decide)] at h
    split at h
    · exact (List.cons.inj h).2.symm
    · rename_i hn
      cases hq : decimal (n / 10) with
      | nil => exact absurd hq (decimal_ne_nil _)
      | cons d ds' =>
        rw [show Nat.toDigits 10 (n / 10) = decimal (n / 10) from rfl, hq, List.cons_append] at h
        obtain ⟨rfl, -⟩ := List.cons.inj h
        have hnil : ds' = [] := ih (n / 10) (by omega) hq
        have hval : Nat.ofDigitChars 10 (decimal (n / 10)) 0 = n / 10 :=
          Nat.ofDigitChars_ten_toDigits
        rw [hq, hnil] at hval
        have hzero : n / 10 = 0 := hval.symm
        omega

/-- The value of a digit is below ten, and the digit of this value is the digit. -/
theorem digitChar_toNat {d : Char} (h : d.isDigit = true) :
    d.toNat - 48 < 10 ∧ Nat.digitChar (d.toNat - 48) = d := by
  obtain ⟨hlo, hhi⟩ := Char.isDigit_iff_toNat.mp h
  have hlo : 48 ≤ d.toNat := hlo
  have hhi : d.toNat ≤ 57 := hhi
  have hd : d.toNat - 48 < 10 := by omega
  have hdigit : ∀ k < 10, (Nat.digitChar k).toNat = 48 + k := by decide
  refine ⟨hd, Char.toNat_inj.mp ?_⟩
  rw [hdigit _ hd]
  omega

/-- Digits without a leading zero are the text of their number. -/
theorem decimal_ofDigitChars {ds : Text} (hne : ds ≠ []) (hdigits : ∀ d ∈ ds, d.isDigit = true)
    (hzero : ∀ t, ds = '0' :: t → t = []) : decimal (Nat.ofDigitChars 10 ds 0) = ds := by
  -- From the last digit: what stands before it has no leading zero either.
  induction ds using List.reverseRecOn with
  | nil => exact absurd rfl hne
  | append_singleton init d ih =>
    obtain ⟨hd, hchar⟩ := digitChar_toNat (hdigits d (by simp))
    have hlast : Nat.ofDigitChars 10 (init ++ [d]) 0 =
        10 * Nat.ofDigitChars 10 init 0 + (d.toNat - 48) := by
      rw [Nat.ofDigitChars_append, Nat.ofDigitChars_cons, Nat.ofDigitChars_nil]
      rfl
    rw [hlast]
    by_cases hinit : init = []
    · subst hinit
      rw [Nat.ofDigitChars_nil, decimal, Nat.toDigits_of_lt_base (by omega)]
      simpa using hchar
    · have hrest := ih hinit (fun c hc => hdigits c (List.mem_append_left _ hc)) fun t ht => by
        have hnil := hzero (t ++ [d]) (by rw [ht]; rfl)
        simp at hnil
      have hpos : 0 < Nat.ofDigitChars 10 init 0 := by
        refine Nat.pos_of_ne_zero fun h => ?_
        rw [h] at hrest
        have hnil := hzero [d] (by rw [← hrest]; rfl)
        cases hnil
      rw [decimal, ← Nat.toDigits_append_toDigits (by decide) hpos hd, Nat.toDigits_of_lt_base hd,
        hchar]
      exact congrArg (· ++ [d]) hrest

theorem spanDigits_of_endsNumber : ∀ {rest : JsString}, EndsNumber rest →
    spanDigits rest = ([], rest)
  | [], _ => rfl
  | .lone _ :: _, _ => rfl
  | .scalar c :: rest, h => by rw [spanDigits, if_neg (by simp [(h c rfl).1])]

theorem spanDigits_append {rest : JsString} (h : EndsNumber rest) : ∀ {ds : Text},
    (∀ d ∈ ds, d.isDigit = true) → spanDigits (ofText ds ++ rest) = (ds, rest)
  | [], _ => spanDigits_of_endsNumber h
  | d :: ds, hds => by
    have ih : spanDigits (ofText ds ++ rest) = (ds, rest) :=
      spanDigits_append h fun d hd => hds d (List.mem_cons_of_mem _ hd)
    rw [ofText_cons, List.cons_append, spanDigits, if_pos (hds d (List.mem_cons_self ..)), ih]

theorem spanDigits_decimal (n : ℕ) {rest : JsString} (h : EndsNumber rest) :
    spanDigits (ofText (decimal n) ++ rest) = (decimal n, rest) :=
  spanDigits_append h fun _ hd => isDigit_of_mem_decimal hd

theorem roundHalfEven_one (a : ℕ) : roundHalfEven a 1 = a := by
  simp [roundHalfEven, Nat.mod_one]

/-- An integer below `2 ^ 53` is a double. -/
theorem nearestSafe_one {n : ℕ} (h : n < 2 ^ 53) : nearestSafe n 1 = some n := by
  unfold nearestSafe
  by_cases hn : n < 1
  · rw [if_pos hn]
    obtain rfl : n = 0 := by omega
    simp
  · rw [if_neg hn, Nat.div_one]
    have hlog : Nat.log2 n < 53 := (Nat.log2_lt (by omega)).mpr h
    have hpos : 0 < 2 ^ (52 - Nat.log2 n) := Nat.pow_pos (by decide)
    rw [if_neg (by omega)]
    simp only [roundHalfEven_one, Nat.mul_mod_left, Nat.mul_div_cancel n hpos]
    simpa using h

theorem readNumber_nat {n : ℕ} (h : n < 2 ^ 53) : readNumber false n 0 = .nat n := by
  simp [readNumber, nearestSafe_one h]

theorem parseFraction_of_endsNumber {rest : JsString} (h : EndsNumber rest) :
    parseFraction rest = some ([], rest) := by
  rw [parseFraction.eq_def]
  split
  · exact absurd rfl (h '.' rfl).2.1
  · rfl

theorem parseExponent_of_endsNumber {rest : JsString} (h : EndsNumber rest) :
    parseExponent rest = some (0, rest) := by
  rw [parseExponent.eq_def]
  split
  all_goals first
    | rfl
    | exact absurd rfl (h 'e' rfl).2.2.1
    | exact absurd rfl (h 'E' rfl).2.2.2

/-- The decimal text of an integer that the reader keeps reads back as that integer. -/
theorem parseNumber_decimal {read : NumberReader} {n : ℕ} (hn : read false n 0 = .nat n)
    {rest : JsString} (h : EndsNumber rest) :
    parseNumber read (ofText (decimal n) ++ rest) = some (.nat n, rest) := by
  have hval : Nat.ofDigitChars 10 (decimal n) 0 = n := Nat.ofDigitChars_ten_toDigits
  have hunsigned : parseUnsigned read false (ofText (decimal n) ++ rest) = some (.nat n, rest) := by
    rw [parseUnsigned, spanDigits_decimal n h]
    split
    · rename_i hnil; exact absurd (Prod.mk.inj hnil).1 (decimal_ne_nil n)
    · rename_i hcons; cases decimal_eq_zero_cons (Prod.mk.inj hcons).1
    · rename_i heq
      obtain ⟨rfl, rfl⟩ := Prod.mk.inj heq
      simp only [parseFraction_of_endsNumber h, Option.bind_some, parseExponent_of_endsNumber h,
        List.append_nil, hval, List.length_nil]
      exact congrArg (fun x => some (x, rest)) hn
  cases hd : decimal n with
  | nil => exact absurd hd (decimal_ne_nil n)
  | cons d ds =>
    have hdigit : d.isDigit = true := isDigit_of_mem_decimal (n := n) (by simp [hd])
    rw [hd] at hunsigned
    rw [parseNumber.eq_def]
    split
    · rename_i hminus
      obtain rfl : d = '-' := by simpa using (List.cons.inj hminus).1
      exact absurd hdigit (by decide)
    · exact hunsigned

end SoulSociety.Lib
