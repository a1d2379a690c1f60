import SoulSociety.Core.Documents

/-! What `serde_json::to_string` writes for a document. Its escape table stands for itself here; on the
    documents of Rust values, which have no unpaired surrogates, the text is the one of
    `JSON.stringify`. -/

namespace SoulSociety.Core
open Lib

namespace Serde

/-- The `ESCAPE` table. A zero in it, and any byte of a longer encoding, is copied. -/
def escape (c : Char) : Text :=
  if c = '"' then ['\\', '"']
  else if c = '\\' then ['\\', '\\']
  else if c = '\x08' then ['\\', 'b']
  else if c = '\t' then ['\\', 't']
  else if c = '\n' then ['\\', 'n']
  else if c = '\x0c' then ['\\', 'f']
  else if c = '\r' then ['\\', 'r']
  else if c.toNat < 0x20 then
    ['\\', 'u', '0', '0', hexDigit (c.toNat >>> 4), hexDigit (c.toNat &&& 0xf)]
  else [c]

/-- A Rust string has no unpaired surrogate to write. -/
def escapePoint : CodePoint → Text
  | .scalar c => escape c
  | .lone _ => []

/-- `format_escaped_str`. -/
def quote (s : JsString) : Text := ['"'] ++ s.flatMap escapePoint ++ ['"']

mutual
/-- The compact formatter. -/
def toText : Json → Text
  | .null => text "null"
  | .bool b => if b then text "true" else text "false"
  | .num (.nat n) => decimal n
  | .num .other => text "null"
  | .str s => quote s
  | .arr xs => ['['] ++ elements true xs ++ [']']
  | .obj ms => ['{'] ++ members true ms ++ ['}']

/-- `begin_array_value` writes a comma before every element but the first. -/
def elements : Bool → List Json → Text
  | _, [] => []
  | first, x :: xs => (if first then [] else [',']) ++ toText x ++ elements false xs

def members : Bool → List (JsString × Json) → Text
  | _, [] => []
  | first, (k, v) :: ms =>
    (if first then [] else [',']) ++ quote k ++ [':'] ++ toText v ++ members false ms
end

mutual
/-- Every string and every key is Unicode text. -/
def Textual : Json → Prop
  | .str s => IsText s
  | .arr xs => ElementsTextual xs
  | .obj ms => MembersTextual ms
  | _ => True

def ElementsTextual : List Json → Prop
  | [] => True
  | x :: xs => Textual x ∧ ElementsTextual xs

def MembersTextual : List (JsString × Json) → Prop
  | [] => True
  | (k, v) :: ms => IsText k ∧ Textual v ∧ MembersTextual ms
end

/-! ### The two escape tables -/

/-- The first two digits of a control character's escape are zeros. -/
theorem unicodeEscape_control : ∀ n < 0x20,
    unicodeEscape n = ['\\', 'u', '0', '0', hexDigit (n >>> 4), hexDigit (n &&& 0xf)] := by
  decide

theorem escape_eq (c : Char) : escape c = Lib.escape (.scalar c) := by
  rw [escape, Lib.escape]
  by_cases hletter : escapeLetter c = none
  · have hne : c ≠ '"' ∧ c ≠ '\\' ∧ c ≠ '\x08' ∧ c ≠ '\t' ∧ c ≠ '\n' ∧ c ≠ '\x0c' ∧ c ≠ '\r' := by
      refine ⟨?_, ?_, ?_, ?_, ?_, ?_, ?_⟩ <;> rintro rfl <;> cases hletter
    obtain ⟨h₁, h₂, h₃, h₄, h₅, h₆, h₇⟩ := hne
    rw [if_neg h₁, if_neg h₂, if_neg h₃, if_neg h₄, if_neg h₅, if_neg h₆, if_neg h₇, hletter]
    dsimp only
    split
    · rename_i hcontrol
      rw [unicodeEscape_control _ hcontrol]
    · rfl
  · rw [escapeLetter.eq_def] at hletter ⊢
    split at hletter
    all_goals first | rfl | exact absurd rfl hletter

theorem quote_eq {s : JsString} (h : IsText s) : quote s = Lib.quote s := by
  obtain ⟨t, rfl⟩ := h
  have hflat : (ofText t).flatMap escapePoint = (ofText t).flatMap Lib.escape := by
    rw [ofText, List.flatMap_map, List.flatMap_map]
    exact congrArg (t.flatMap ·) (funext escape_eq)
  rw [quote, hflat]
  rfl

/-! ### The two writers -/

mutual
/-- `serde_json` writes what `JSON.stringify` writes. -/
theorem toText_eq : ∀ {v : Json}, Textual v → toText v = Json.stringify v
  | .null, _ | .bool true, _ | .bool false, _ | .num (.nat _), _ | .num .other, _ => rfl
  | .str s, h => quote_eq h
  | .arr [], _ => rfl
  | .arr (x :: xs), h => by
    obtain ⟨hx, hxs⟩ := h
    rw [toText, elements, toText_eq hx, Json.stringify, ← elements_eq hxs]
    simp
  | .obj [], _ => rfl
  | .obj ((k, v) :: ms), h => by
    obtain ⟨hk, hv, hms⟩ := h
    rw [toText, members, quote_eq hk, toText_eq hv, Json.stringify, ← members_eq hms]
    simp

theorem elements_eq : ∀ {xs : List Json}, ElementsTextual xs →
    elements false xs ++ [']'] = Json.stringifyTail xs
  | [], _ => rfl
  | x :: xs, h => by
    obtain ⟨hx, hxs⟩ := h
    rw [elements, toText_eq hx, Json.stringifyTail, ← elements_eq hxs]
    simp

theorem members_eq : ∀ {ms : List (JsString × Json)}, MembersTextual ms →
    members false ms ++ ['}'] = Json.stringifyMembers ms
  | [], _ => rfl
  | (k, v) :: ms, h => by
    obtain ⟨hk, hv, hms⟩ := h
    rw [members, quote_eq hk, toText_eq hv, Json.stringifyMembers, ← members_eq hms]
    simp
end

end Serde

/-! ### The documents of the wire types -/

section
open Serde

theorem isText_key (s : String) : IsText (key s) := ⟨text s, rfl⟩

theorem textual_jsonText (t : Text) : Textual (jsonText t) := ⟨t, rfl⟩

theorem textual_felt (f : FeltHex) : Textual f.toJson := ⟨f.value, rfl⟩

theorem textual_felts : ∀ fs : List FeltHex, Textual (.arr (fs.map FeltHex.toJson))
  | [] => trivial
  | f :: fs => ⟨textual_felt f, textual_felts fs⟩

theorem JobInput.textual : ∀ i : JobInput, Textual i.toJson
  | .fibonacci _ => ⟨isText_key _, textual_jsonText _, isText_key _, trivial, trivial⟩
  | .hashVerify hash preimage =>
    ⟨isText_key _, textual_jsonText _, isText_key _, textual_felt hash, isText_key _,
      textual_felt preimage, trivial⟩
  | .merkleProof root leaf proof _ =>
    ⟨isText_key _, textual_jsonText _, isText_key _, textual_felt root, isText_key _,
      textual_felt leaf, isText_key _, textual_felts proof, isText_key _, trivial, trivial⟩

theorem JobRequestContent.textual (c : JobRequestContent) : Textual c.toJson := by
  obtain ⟨protocol, service, input, expires_at⟩ := c
  cases expires_at with
  | none =>
    exact ⟨isText_key _, textual_jsonText _, isText_key _, textual_jsonText _, isText_key _,
      input.textual, trivial⟩
  | some e =>
    exact ⟨isText_key _, textual_jsonText _, isText_key _, textual_jsonText _, isText_key _,
      input.textual, isText_key _, trivial, trivial⟩

theorem JobOutput.textual : ∀ o : JobOutput, Textual o.toJson
  | .fibonacci result =>
    ⟨isText_key _, textual_jsonText _, isText_key _, textual_felt result, trivial⟩
  | .hashVerify _ => ⟨isText_key _, textual_jsonText _, isText_key _, trivial, trivial⟩
  | .merkleProof _ => ⟨isText_key _, textual_jsonText _, isText_key _, trivial, trivial⟩

theorem ProofStatement.textual (s : ProofStatement) : Textual s.toJson :=
  ⟨isText_key _, textual_jsonText _, isText_key _, textual_jsonText _, isText_key _,
    textual_felts _, isText_key _, textual_felts _, isText_key _, s.output.textual, trivial⟩

theorem ProofDescriptor.textual (d : ProofDescriptor) : Textual d.toJson :=
  ⟨isText_key _, textual_jsonText _, isText_key _, textual_jsonText _, isText_key _,
    textual_jsonText _, isText_key _, textual_jsonText _, isText_key _, trivial, isText_key _,
    textual_felt _, isText_key _, textual_jsonText _, trivial⟩

theorem JobResultContent.textual : ∀ c : JobResultContent, Textual c.toJson
  | .success _ _ statement proof _ =>
    ⟨isText_key _, textual_jsonText _, isText_key _, textual_jsonText _, isText_key _,
      textual_jsonText _, isText_key _, statement.textual, isText_key _, proof.textual, isText_key _,
      ⟨isText_key _, trivial, isText_key _, trivial, isText_key _, trivial, trivial⟩, trivial⟩
  | .error _ _ _ =>
    ⟨isText_key _, textual_jsonText _, isText_key _, textual_jsonText _, isText_key _,
      textual_jsonText _, isText_key _,
      ⟨isText_key _, textual_jsonText _, isText_key _, textual_jsonText _, trivial⟩, trivial⟩

end

end SoulSociety.Core
