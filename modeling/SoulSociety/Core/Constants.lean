import SoulSociety.Lib.JsonText

/-! Stable identifiers and defensive bounds for Soul Wire, and the signed event they travel in.

    The identifiers are shared: both implementations spell them alike, so one set of texts serves
    the two codecs. The bounds of the SDK are in `SoulSociety.Sdk`. -/

namespace SoulSociety.Core
open Lib

/-- An identifier as text. -/
abbrev text (s : String) : Text := s.toList

/-- The name of the protocol, in its tag and in every content. -/
def soulWireProtocol : Text := text "soul-society/1"

/-- The one program that statements are about. -/
def cairoProgram : Text := text "soul-cairo-v1"

/-- The one encoding of proofs. -/
def proofFormat : Text := text "stwo-cairo-json-v1"

/-- The media type under which a proof is served. -/
def proofMediaType : Text := text "application/vnd.soul-society.stwo-proof+json"

/-- The hash of the Fiat-Shamir channel. -/
def proofChannel : Text := text "blake2s"

/-- `SOUL_TOPIC` in the SDK. -/
def topic : Text := text "soul-society"

/-- The third value of an `i` tag. -/
def inputType : Text := text "text"

/-! ### Event kinds -/

def fibonacciRequest : ℕ := 5601
def hashVerifyRequest : ℕ := 5602
def merkleProofRequest : ℕ := 5603
def fibonacciResult : ℕ := 6601
def hashVerifyResult : ℕ := 6602
def merkleProofResult : ℕ := 6603

/-! ### Limits -/

/-- The last index whose Fibonacci number is below the modulus. -/
def maxFibonacciN : ℕ := 363

/-- The longest private authentication path. -/
def maxMerkleDepth : ℕ := 32

/-- The longest request content that is accepted from a relay. -/
def maxRequestBytes : ℕ := 16 * 1024

/-- The longest result content that clients accept. -/
def maxResultBytes : ℕ := 32 * 1024

/-- The largest proof. -/
def maxProofBytes : ℕ := 32 * 1024 * 1024

/-- How old a newly observed request may be. -/
def maxRequestAgeSecs : ℕ := 10 * 60

/-- How far ahead of the clock a timestamp may be. -/
def maxFutureSkewSecs : ℕ := 5 * 60

/-- The longest explicit lifetime of a request. -/
def maxRequestTtlSecs : ℕ := 60 * 60

/-- The largest integer that JavaScript holds exactly. -/
def maxSafeInteger : ℕ := 9007199254740991

/-- How many request ids a provider remembers. -/
def maxDedupeEntries : ℕ := 10000

/-- Largest `u64`. -/
def u64Max : ℕ := 2 ^ 64 - 1

/-- `u64::saturating_add`. `u64::saturating_sub` is subtraction on `ℕ`. -/
def saturatingAdd (a b : ℕ) : ℕ := min (a + b) u64Max

/-- Cairo's prime field modulus, left-padded to 64 hexadecimal nibbles. -/
def cairoPrimeHex : Text :=
  text "0800000000000011000000000000000000000000000000000000000000000001"

/-! ### Signed events -/

/-- A signed Nostr event, with strings in `σ` and numbers in `ν`. -/
structure SignedEvent (σ ν : Type) where
  id : σ
  pubkey : σ
  created_at : ν
  kind : ν
  tags : List (List σ)
  content : σ
  sig : σ
  deriving DecidableEq, Repr

/-- `nostr::Event`: strings are Unicode text, numbers are unsigned. -/
abbrev Event := SignedEvent Text ℕ

/-- The code points of `[0-9a-f]`. -/
def isLowerHexDigit (c : Char) : Bool := ('0' ≤ c && c ≤ '9') || ('a' ≤ c && c ≤ 'f')

/-- `is_lower_hex`: the length is in bytes. -/
def isLowerHex (value : Text) (length : ℕ) : Bool :=
  utf8Len value = length && value.all isLowerHexDigit

theorem utf8Len_cons (c : Char) (t : Text) : utf8Len (c :: t) = c.utf8Size + utf8Len t := by
  simp [utf8Len]

theorem utf8Size_of_isLowerHexDigit {c : Char} (h : isLowerHexDigit c = true) : c.utf8Size = 1 := by
  simp only [isLowerHexDigit, Bool.or_eq_true, Bool.and_eq_true, decide_eq_true_eq] at h
  rw [Char.utf8Size_eq_one_iff]
  rcases h with ⟨_, h⟩ | ⟨_, h⟩
  · exact UInt32.le_trans (Char.le_def.mp h) (by decide)
  · exact UInt32.le_trans (Char.le_def.mp h) (by decide)

/-- On hexadecimal text the byte count is the character count. -/
theorem utf8Len_of_lowerHex : ∀ {t : Text}, t.all isLowerHexDigit = true → utf8Len t = t.length
  | [], _ => rfl
  | c :: t, h => by
    rw [List.all_cons, Bool.and_eq_true] at h
    rw [utf8Len_cons, utf8Size_of_isLowerHexDigit h.1, utf8Len_of_lowerHex h.2, List.length_cons]
    omega

theorem isLowerHex_iff {value : Text} {length : ℕ} : isLowerHex value length = true ↔
    value.length = length ∧ value.all isLowerHexDigit = true := by
  rw [isLowerHex, Bool.and_eq_true, decide_eq_true_eq]
  constructor
  · rintro ⟨hlen, hall⟩
    exact ⟨(utf8Len_of_lowerHex hall).symm.trans hlen, hall⟩
  · rintro ⟨hlen, hall⟩
    exact ⟨(utf8Len_of_lowerHex hall).trans hlen, hall⟩

end SoulSociety.Core
