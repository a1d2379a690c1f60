import Mathlib.Data.List.TakeWhile
import Mathlib.Data.Nat.Notation
import SoulSociety.Lib.JsonText

/-! URL records as the WHATWG standard has them, with the getters of the two APIs that read them: an
    API over records (`host`, `password`, `fragment` may be absent) and the JavaScript `URL` class,
    where an absent component reads as the empty string. The parser itself is not here; whoever
    needs one takes it as a parameter. -/

namespace SoulSociety.Lib

/-- A host: a domain, or an address as an integer. -/
inductive Host where
  | domain (name : Text)
  | ipv4 (address : Fin (2 ^ 32))
  | ipv6 (address : Fin (2 ^ 128))
  deriving DecidableEq, Repr

namespace Host

/-- An IPv4 address is loopback in `127.0.0.0/8`, an IPv6 address when it is `::1`. -/
def isLoopback : Host → Bool
  | .domain _ => false
  | .ipv4 a => a.val / 2 ^ 24 = 127
  | .ipv6 a => a.val = 1

/-- Dotted decimal. -/
def ipv4Text (a : ℕ) : Text :=
  decimal (a / 2 ^ 24) ++ '.' :: decimal (a / 2 ^ 16 % 256) ++ '.' :: decimal (a / 2 ^ 8 % 256) ++
    '.' :: decimal (a % 256)

/-- The eight pieces of an IPv6 address. -/
def pieces (a : ℕ) : List ℕ := (List.range 8).map fun i => a / 2 ^ (16 * (7 - i)) % 2 ^ 16

/-- How many zeros stand at the front. -/
def zeros (ps : List ℕ) : ℕ := (ps.takeWhile (· = 0)).length

/-- Where the first longest run of zeros starts. -/
def longestZeros (ps : List ℕ) : ℕ :=
  (List.range ps.length).foldl
    (fun best i => if zeros (ps.drop best) < zeros (ps.drop i) then i else best) 0

/-- Pieces in hexadecimal, separated by colons. -/
def piecesText (ps : List ℕ) : Text := [':'].intercalate (ps.map (Nat.toDigits 16))

/-- The standard form: the first longest run of two zeros or more is left out. -/
def ipv6Text (a : ℕ) : Text :=
  let ps := pieces a
  let start := longestZeros ps
  let count := zeros (ps.drop start)
  if count < 2 then piecesText ps
  else piecesText (ps.take start) ++ ':' :: ':' :: piecesText (ps.drop (start + count))

/-- The host as it stands in a URL. -/
def serialize : Host → Text
  | .domain name => name
  | .ipv4 a => ipv4Text a
  | .ipv6 a => '[' :: (ipv6Text a ++ [']'])

/-- The last label of a domain is a decimal number. The parser takes such a host for an address or
    fails. -/
def EndsInNumber (name : Text) : Prop :=
  ∃ label, (name.splitOn '.').getLast? = some label ∧ label ≠ [] ∧ label.all Char.isDigit = true

/-- A domain as the parser leaves it: not empty, without capitals and brackets, and not ending in a
    number. -/
def StandardDomain (name : Text) : Prop :=
  name ≠ [] ∧ name.map Char.toLower = name ∧ '[' ∉ name ∧ ¬ EndsInNumber name

example : serialize (.ipv6 1) = "[::1]".toList := by decide
example : serialize (.ipv4 2130706433) = "127.0.0.1".toList := by decide

theorem dot_not_mem_decimal (n : ℕ) : '.' ∉ decimal n := by
  intro h
  exact absurd (isDigit_of_mem_decimal h) (by decide)

/-- The labels of a dotted address are its four bytes. -/
theorem splitOn_ipv4Text (a : ℕ) : (ipv4Text a).splitOn '.' =
    [decimal (a / 2 ^ 24), decimal (a / 2 ^ 16 % 256), decimal (a / 2 ^ 8 % 256),
      decimal (a % 256)] := by
  rw [ipv4Text]
  simp only [List.append_assoc, List.cons_append]
  rw [List.splitOn_append_cons_self_of_not_mem (dot_not_mem_decimal _),
    List.splitOn_append_cons_self_of_not_mem (dot_not_mem_decimal _),
    List.splitOn_append_cons_self_of_not_mem (dot_not_mem_decimal _),
    List.splitOn_eq_singleton (dot_not_mem_decimal _)]

theorem mem_ipv4Text {a : ℕ} {c : Char} (h : c ∈ ipv4Text a) : c = '.' ∨ c.isDigit = true := by
  simp only [ipv4Text, List.mem_append, List.mem_cons, List.append_assoc, List.cons_append] at h
  rcases h with h | rfl | h | rfl | h | rfl | h
  · exact Or.inr (isDigit_of_mem_decimal h)
  · exact Or.inl rfl
  · exact Or.inr (isDigit_of_mem_decimal h)
  · exact Or.inl rfl
  · exact Or.inr (isDigit_of_mem_decimal h)
  · exact Or.inl rfl
  · exact Or.inr (isDigit_of_mem_decimal h)

theorem colon_not_mem_hex (n : ℕ) : ':' ∉ Nat.toDigits 16 n := by
  induction n using Nat.strongRecOn with
  | ind n ih =>
    have hdigit : ∀ m, ':' ∉ [Nat.digitChar m] := fun m h =>
      Nat.digitChar_ne ':' (by decide) (List.mem_singleton.mp h).symm
    rw [Nat.toDigits_eq_if (by decide)]
    split
    · exact hdigit n
    · rename_i hn
      rw [List.mem_append, not_or]
      exact ⟨ih (n / 16) (Nat.div_lt_self (by omega) (by decide)), hdigit (n % 16)⟩

/-- Text that starts with a piece does not start with a colon. -/
theorem piecesText_cons (p : ℕ) (ps : List ℕ) :
    ∃ c t, piecesText (p :: ps) = c :: t ∧ c ≠ ':' := by
  have hmem := colon_not_mem_hex p
  obtain ⟨c, t, hp⟩ := List.exists_cons_of_ne_nil (Nat.toDigits_ne_nil (n := p) (b := 16))
  rw [hp, List.mem_cons, not_or] at hmem
  cases ps with
  | nil => exact ⟨c, t, by simp [piecesText, hp], Ne.symm hmem.1⟩
  | cons q qs => exact ⟨c, _, by simp [piecesText, hp, List.intercalate]; rfl, Ne.symm hmem.1⟩

theorem eq_one_of_piecesText {ps : List ℕ} (h : piecesText ps = ['1']) : ps = [1] := by
  match ps with
  | [] => cases h
  | [p] =>
    have hp : Nat.toDigits 16 p = ['1'] := by simpa [piecesText] using h
    rw [Nat.toDigits_eq_if (by decide)] at hp
    split at hp
    · rw [Nat.digitChar_eq_one.mp (List.cons.inj hp).1]
    · have hlen := congrArg List.length hp
      have hpos := Nat.length_toDigits_pos (b := 16) (n := p / 16)
      rw [List.length_append, List.length_singleton, List.length_singleton] at hlen
      omega
  | p :: q :: qs =>
    have hcolon : ':' ∈ piecesText (p :: q :: qs) := by simp [piecesText, List.intercalate]
    rw [h] at hcolon
    exact absurd hcolon (by decide)

/-- Zeros at the front and a one. -/
theorem eq_replicate_of_drop_zeros {ps : List ℕ} (h : ps.drop (zeros ps) = [1]) :
    ps = List.replicate (zeros ps) 0 ++ [1] := by
  have hfront : ps.takeWhile (· = 0) = List.replicate (zeros ps) 0 :=
    List.eq_replicate_of_mem fun x hx => by simpa using List.mem_takeWhile_imp hx
  have hsplit : ps.takeWhile (· = 0) ++ ps.dropWhile (· = 0) = ps :=
    List.takeWhile_append_dropWhile
  have hdrop : ps.drop (zeros ps) = ps.dropWhile (· = 0) := by
    calc ps.drop (zeros ps)
        = (ps.takeWhile (· = 0) ++ ps.dropWhile (· = 0)).drop (ps.takeWhile (· = 0)).length := by
          rw [hsplit]; rfl
      _ = ps.dropWhile (· = 0) := List.drop_left
  rw [← hfront, ← h, hdrop, hsplit]

theorem pieces_eq (a : ℕ) : pieces a =
    [a / 2 ^ 112 % 2 ^ 16, a / 2 ^ 96 % 2 ^ 16, a / 2 ^ 80 % 2 ^ 16, a / 2 ^ 64 % 2 ^ 16,
      a / 2 ^ 48 % 2 ^ 16, a / 2 ^ 32 % 2 ^ 16, a / 2 ^ 16 % 2 ^ 16, a % 2 ^ 16] := by
  rw [pieces, List.range_eq_range']
  simp [List.range']

/-- Only the loopback address is written `::1`. -/
theorem ipv6Text_eq_loopback {a : ℕ} (ha : a < 2 ^ 128) :
    ipv6Text a = "::1".toList ↔ a = 1 := by
  constructor
  · intro h
    have hlen : (pieces a).length = 8 := by simp [pieces]
    -- a text that starts with a piece does not start with a colon
    have hhead : ∀ ps t, ps ≠ [] → piecesText ps ++ t ≠ "::1".toList := by
      intro ps t hps heq
      obtain ⟨p, qs, rfl⟩ := List.exists_cons_of_ne_nil hps
      obtain ⟨c, r, htext, hc⟩ := piecesText_cons p qs
      rw [htext] at heq
      exact hc (List.cons.inj heq).1
    have hne : pieces a ≠ [] := List.ne_nil_of_length_pos (by omega)
    rw [ipv6Text] at h
    split at h
    · exact absurd ((List.append_nil _).trans h) (hhead _ [] hne)
    · have htake : (pieces a).take (longestZeros (pieces a)) = [] := by
        by_contra hne
        exact hhead _ _ hne h
      have hstart : longestZeros (pieces a) = 0 :=
        (List.take_eq_nil_iff.mp htake).resolve_right hne
      rw [hstart, List.take_zero, List.drop_zero, Nat.zero_add] at h
      have hrest : (pieces a).drop (zeros (pieces a)) = [1] :=
        eq_one_of_piecesText (List.cons.inj (List.cons.inj h).2).2
      have hzeros := eq_replicate_of_drop_zeros hrest
      have hseven : zeros (pieces a) = 7 := by
        have hcount := congrArg List.length hzeros
        rw [List.length_append, List.length_replicate, hlen, List.length_singleton] at hcount
        omega
      rw [hseven, pieces_eq] at hzeros
      simp only [List.replicate, List.cons_append, List.nil_append, List.cons.injEq] at hzeros
      omega
  · rintro rfl
    decide

end Host

/-- A URL record. The path is kept in the form in which it is serialized. -/
structure Url where
  scheme : Text
  username : Text
  password : Option Text
  host : Option Host
  port : Option ℕ
  path : Text
  query : Option Text
  fragment : Option Text
  deriving DecidableEq, Repr

namespace Url

/-- `url.protocol`. -/
def protocol (u : Url) : Text := u.scheme ++ [':']

/-- `url.hostname`. -/
def hostname (u : Url) : Text := (u.host.map Host.serialize).getD []

/-- `url.password`. -/
def passwordText (u : Url) : Text := u.password.getD []

/-- A component with its delimiter, or the empty string. -/
def delimited (d : Char) : Option Text → Text
  | none | some [] => []
  | some t => d :: t

/-- `url.search`. -/
def search (u : Url) : Text := delimited '?' u.query

/-- `url.hash`. -/
def hash (u : Url) : Text := delimited '#' u.fragment

/-! ### The serializer -/

/-- A component with its delimiter, which stands even before an empty one. -/
def component (d : Char) : Option Text → Text
  | none => []
  | some t => d :: t

def credentials (u : Url) : Text :=
  if u.username = [] ∧ u.passwordText = [] then []
  else u.username ++ (if u.passwordText = [] then [] else ':' :: u.passwordText) ++ ['@']

/-- From the scheme to the port. -/
def authority (u : Url) : Text :=
  u.protocol ++ (match u.host with
    | none => []
    | some host => '/' :: '/' :: (u.credentials ++ host.serialize ++
        component ':' (u.port.map decimal)))

/-- `url.href`. -/
def href (u : Url) : Text :=
  u.authority ++ u.path ++ component '?' u.query ++ component '#' u.fragment

theorem href_withoutQuery (u : Url) :
    href { u with query := none } = u.authority ++ u.path ++ component '#' u.fragment := by
  rw [href, component, List.append_nil]
  rfl

theorem href_withoutFragment (u : Url) :
    href { u with fragment := none } = u.authority ++ u.path ++ component '?' u.query := by
  rw [href, component, List.append_nil]
  rfl

def isWebSocket (u : Url) : Bool := u.scheme = "ws".toList || u.scheme = "wss".toList

/-- What the standard says of a parser and the serializer, for URLs of web sockets: the serialization
    is printable, it and that of the URL without its query or fragment are parsed to the URL they
    came from, and an empty path is parsed as `/`. -/
structure Standard (parse : Text → Option Url) : Prop where
  printable : parse t = some u → u.isWebSocket → ∀ c ∈ u.href, '!' ≤ c ∧ c ≤ '~'
  reparse : parse t = some u → u.isWebSocket → parse u.href = some u
  withoutQuery : parse t = some u → u.isWebSocket →
    parse { u with query := none }.href = some { u with query := none }
  withoutFragment : parse t = some u → u.isWebSocket →
    parse { u with fragment := none }.href = some { u with fragment := none }
  emptyPath : parse t = some u → u.isWebSocket → u.path = ['/'] → u.query = none →
    u.fragment = none → parse u.authority = some u

/-- `http` and `https`. -/
def isWeb (u : Url) : Bool := u.scheme = "http".toList || u.scheme = "https".toList

/-- What the standard says of the hosts of web URLs: there is one, and a domain is a standard domain. -/
structure WebHosts (parse : Text → Option Url) : Prop where
  host : parse t = some u → u.isWeb → u.host.isSome
  domain : parse t = some u → u.isWeb → u.host = some (.domain name) → Host.StandardDomain name

/-- The URL has credentials or a fragment. -/
def Decorated (u : Url) : Prop := u.username ≠ [] ∨ u.passwordText ≠ [] ∨ u.hash ≠ []

/-- The host is `localhost` or a loopback address. -/
def OnLoopback (u : Url) : Prop :=
  ∃ host, u.host = some host ∧ (host = .domain "localhost".toList ∨ host.isLoopback = true)

/-- The host is a name under `localhost`. -/
def UnderLocalhost (u : Url) : Prop := ∃ name, u.host = some (.domain (name ++ ".localhost".toList))

/-- The getters show no query and no fragment, and the serialization shows the delimiter of one. -/
def Dangling (u : Url) : Prop :=
  u.search = [] ∧ u.hash = [] ∧ (u.query.isSome ∨ u.fragment.isSome)

instance (u : Url) : Decidable u.Dangling := by
  unfold Dangling
  infer_instance

theorem delimited_eq_nil {d : Char} {o : Option Text} :
    delimited d o = [] ↔ o = none ∨ o = some [] := by
  unfold delimited
  split <;> simp_all

end Url

/-- A JavaScript string as an API over Unicode text receives it: `U+FFFD` for every surrogate
    without a partner. -/
def toUsv (s : JsString) : Text := s.map fun | .scalar c => c | .lone _ => '\ufffd'

@[simp] theorem toUsv_ofText : ∀ t : Text, toUsv (ofText t) = t
  | [] => rfl
  | c :: t => by rw [ofText_cons, toUsv, List.map_cons]; exact congrArg _ (toUsv_ofText t)

end SoulSociety.Lib
