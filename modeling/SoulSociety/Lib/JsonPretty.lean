import SoulSociety.Lib.Json

/-! Indented JSON documents. `JSON.stringify(value, null, 2)` and the pretty printer of `serde_json`
    write the same text; empty arrays and objects stay on one line. The parser undoes it as it undoes
    the compact serializer. -/

namespace SoulSociety.Lib.Json

/-- A line break, and two spaces for each level. -/
def newLine (depth : ℕ) : Text := '\n' :: List.replicate (2 * depth) ' '

mutual
/-- The indented text of a value that stands at a depth. -/
def pretty (depth : ℕ) : Json → Text
  | .null => stringify .null
  | .bool b => stringify (.bool b)
  | .num x => stringify (.num x)
  | .str s => stringify (.str s)
  | .arr [] => stringify (.arr [])
  | .arr (x :: xs) =>
    '[' :: (newLine (depth + 1) ++ (pretty (depth + 1) x ++ prettyTail depth xs))
  | .obj [] => stringify (.obj [])
  | .obj ((k, v) :: ms) =>
    '{' :: (newLine (depth + 1) ++ (quote k ++ ':' :: ' ' :: (pretty (depth + 1) v ++
      prettyMembers depth ms)))

/-- The elements after the first, and the closing bracket. -/
def prettyTail (depth : ℕ) : List Json → Text
  | [] => newLine depth ++ [']']
  | x :: xs => ',' :: (newLine (depth + 1) ++ (pretty (depth + 1) x ++ prettyTail depth xs))

/-- The members after the first, and the closing brace. -/
def prettyMembers (depth : ℕ) : List (JsString × Json) → Text
  | [] => newLine depth ++ ['}']
  | (k, v) :: ms =>
    ',' :: (newLine (depth + 1) ++ (quote k ++ ':' :: ' ' :: (pretty (depth + 1) v ++
      prettyMembers depth ms)))
end

/-- A file that holds a document. -/
def document (v : Json) : Text := pretty 0 v ++ ['\n']

/-! ### White space -/

theorem skipSpace_newLine (depth : ℕ) (t : JsString) :
    skipSpace (ofText (newLine depth) ++ t) = skipSpace t := by
  have hspaces : ∀ n, skipSpace (ofText (List.replicate n ' ') ++ t) = skipSpace t := by
    intro n
    induction n with
    | zero => rfl
    | succ n ih =>
      rw [List.replicate_succ, ofText_cons, List.cons_append, skipSpace,
        List.dropWhile_cons_of_pos (by decide)]
      exact ih
  rw [newLine, ofText_cons, List.cons_append, skipSpace, List.dropWhile_cons_of_pos (by decide)]
  exact hspaces _

theorem newLine_endsNumber (depth : ℕ) (rest : JsString) :
    EndsNumber (ofText (newLine depth) ++ rest) := EndsNumber.cons (by decide)

variable {read : NumberReader}

theorem parseValue_newLine (fuel depth : ℕ) (t : JsString) :
    parseValue read fuel (ofText (newLine depth) ++ t) = parseValue read fuel t := by
  cases fuel with
  | zero => rfl
  | succ fuel => rw [parseValue, parseValue, skipSpace_newLine]

theorem parseElements_newLine (fuel depth : ℕ) (t : JsString) :
    parseElements read fuel (ofText (newLine depth) ++ t) = parseElements read fuel t := by
  cases fuel with
  | zero => rfl
  | succ fuel => rw [parseElements, parseElements, parseValue_newLine]

theorem parseMembers_newLine (fuel depth : ℕ) (seen : List (JsString × Json)) (t : JsString) :
    parseMembers read fuel seen (ofText (newLine depth) ++ t) = parseMembers read fuel seen t := by
  cases fuel with
  | zero => rfl
  | succ fuel => rw [parseMembers, parseMembers, skipSpace_newLine]

theorem parseValue_space (fuel : ℕ) (t : JsString) :
    parseValue read fuel (.scalar ' ' :: t) = parseValue read fuel t := by
  cases fuel with
  | zero => rfl
  | succ fuel =>
    have hskip : skipSpace (.scalar ' ' :: t) = skipSpace t :=
      List.dropWhile_cons_of_pos (by decide)
    rw [parseValue, parseValue, hskip]

/-- The first character of an indented value is neither white space nor a closing bracket. -/
theorem pretty_head (depth : ℕ) (v : Json) :
    ∃ c r, pretty depth v = c :: r ∧ isSpace (.scalar c) = false ∧ c ≠ ']' := by
  cases v with
  | arr xs =>
    cases xs with
    | nil => rw [pretty]; exact stringify_head (.arr [])
    | cons x xs => exact ⟨'[', _, by rw [pretty], by decide, by decide⟩
  | obj ms =>
    cases ms with
    | nil => rw [pretty]; exact stringify_head (.obj [])
    | cons m ms => exact ⟨'\x7b', _, by rw [pretty], by decide, by decide⟩
  | null => rw [pretty]; exact stringify_head .null
  | bool b => rw [pretty]; exact stringify_head (.bool b)
  | num x => rw [pretty]; exact stringify_head (.num x)
  | str s => rw [pretty]; exact stringify_head (.str s)

/-- A bracket at the end of its line sends the parser to the elements. -/
theorem parseValue_openBracket {c : Char} (hs : isSpace (.scalar c) = false) (hc : c ≠ ']')
    (fuel depth : ℕ) (r : JsString) :
    parseValue read (fuel + 1) (.scalar '[' :: (ofText (newLine depth) ++ .scalar c :: r)) =
      (parseElements read fuel (.scalar c :: r)).map fun (xs, r) => (.arr xs, r) := by
  simp only [parseValue, skipSpace_cons (show isSpace (.scalar '[') = false by decide),
    skipSpace_newLine, skipSpace_cons hs]
  split
  · rename_i heq
    exact absurd (CodePoint.scalar.inj (List.cons.inj heq).1) hc
  · rfl

/-- A brace at the end of its line, before a quote, sends the parser to the members. -/
theorem parseValue_openBrace (fuel depth : ℕ) (r : JsString) :
    parseValue read (fuel + 1) (.scalar '\x7b' :: (ofText (newLine depth) ++ .scalar '"' :: r)) =
      (parseMembers read fuel [] (.scalar '"' :: r)).map fun (ms, r) => (.obj ms, r) := by
  simp only [parseValue, skipSpace_cons (show isSpace (.scalar '\x7b') = false by decide),
    skipSpace_newLine, skipSpace_cons (show isSpace (.scalar '"') = false by decide)]
  split
  · rename_i heq
    simp at heq
  · rfl

theorem prettyTail_endsNumber (depth : ℕ) (xs : List Json) (rest : JsString) :
    EndsNumber (ofText (prettyTail depth xs) ++ rest) := by
  cases xs with
  | nil =>
    rw [prettyTail, ofText_append, List.append_assoc]
    exact newLine_endsNumber depth _
  | cons x xs => rw [prettyTail]; exact EndsNumber.cons (by decide)

theorem prettyMembers_endsNumber (depth : ℕ) (ms : List (JsString × Json)) (rest : JsString) :
    EndsNumber (ofText (prettyMembers depth ms) ++ rest) := by
  cases ms with
  | nil =>
    rw [prettyMembers, ofText_append, List.append_assoc]
    exact newLine_endsNumber depth _
  | cons m ms => rw [prettyMembers]; exact EndsNumber.cons (by decide)

/-! ### Round trip -/

variable {ok : ℕ → Prop}

mutual
/-- The parser undoes the indentation, whatever follows the value. -/
theorem parseValue_pretty (hread : Keeps read ok) : ∀ (fuel depth : ℕ) (v : Json) (rest : JsString),
    PlainFor ok v → cost v ≤ fuel → EndsNumber rest →
    parseValue read fuel (ofText (pretty depth v) ++ rest) = some (v, rest)
  | fuel, _, .null, rest, hp, hf, hr => by
    rw [pretty]; exact parseValue_stringify hread fuel _ rest hp hf hr
  | fuel, _, .bool _, rest, hp, hf, hr => by
    rw [pretty]; exact parseValue_stringify hread fuel _ rest hp hf hr
  | fuel, _, .num _, rest, hp, hf, hr => by
    rw [pretty]; exact parseValue_stringify hread fuel _ rest hp hf hr
  | fuel, _, .str _, rest, hp, hf, hr => by
    rw [pretty]; exact parseValue_stringify hread fuel _ rest hp hf hr
  | fuel, _, .arr [], rest, hp, hf, hr => by
    rw [pretty]; exact parseValue_stringify hread fuel _ rest hp hf hr
  | fuel, _, .obj [], rest, hp, hf, hr => by
    rw [pretty]; exact parseValue_stringify hread fuel _ rest hp hf hr
  | 0, _, .arr (x :: xs), _, _, hf, _ => by
    have hv := one_le_cost (.arr (x :: xs))
    omega
  | 0, _, .obj (m :: ms), _, _, hf, _ => by
    have hv := one_le_cost (.obj (m :: ms))
    omega
  | fuel + 1, depth, .arr (x :: xs), rest, hp, hf, _ => by
    rw [PlainFor, PlainAll] at hp
    rw [cost] at hf
    obtain ⟨c, r, hx, hc, hne⟩ := pretty_head (depth + 1) x
    have hrest := parseElements_pretty hread fuel depth x xs rest hp.1 hp.2 (by omega)
    rw [pretty, ofText_cons, List.cons_append, ofText_append, List.append_assoc, ofText_append,
      List.append_assoc]
    rw [hx, ofText_cons, List.cons_append] at hrest ⊢
    rw [parseValue_openBracket hc hne, hrest, Option.map_some]
  | fuel + 1, depth, .obj ((k, v) :: ms), rest, hp, hf, _ => by
    rw [PlainFor] at hp
    rw [cost] at hf
    have hrest := parseMembers_pretty hread fuel depth k v ms [] rest hp (by simp) (by omega)
    rw [quote, List.cons_append, ofText_cons, List.cons_append] at hrest
    rw [pretty, quote, List.cons_append, ofText_cons, ofText_append, ofText_cons, List.cons_append,
      List.append_assoc, List.cons_append, parseValue_openBrace, hrest, Option.map_some,
      List.nil_append]

/-- The elements after the opening bracket. -/
theorem parseElements_pretty (hread : Keeps read ok) : ∀ (fuel depth : ℕ) (x : Json) (xs : List Json)
    (rest : JsString), PlainFor ok x → PlainAll ok xs → cost x + costAll xs ≤ fuel →
    parseElements read fuel
        (ofText (pretty (depth + 1) x) ++ (ofText (prettyTail depth xs) ++ rest)) =
      some (x :: xs, rest)
  | 0, _, x, _, _, _, _, hf => by
    have hx := one_le_cost x
    omega
  | fuel + 1, depth, x, [], rest, hx, _, hf => by
    rw [costAll] at hf
    have hrest := parseValue_pretty hread fuel (depth + 1) x (ofText (prettyTail depth []) ++ rest)
      hx (by omega) (prettyTail_endsNumber depth [] rest)
    rw [parseElements, hrest]
    simp only [Option.bind_some, prettyTail, ofText_append, ofText_cons, ofText_nil,
      List.append_assoc, skipSpace_newLine, List.cons_append, List.nil_append,
      skipSpace_cons (show isSpace (.scalar ']') = false by decide)]
  | fuel + 1, depth, x, y :: ys, rest, hx, hxs, hf => by
    rw [costAll] at hf
    rw [PlainAll] at hxs
    have hpos := one_le_cost x
    have hrest := parseValue_pretty hread fuel (depth + 1) x
      (ofText (prettyTail depth (y :: ys)) ++ rest) hx (by omega)
      (prettyTail_endsNumber depth (y :: ys) rest)
    have htail := parseElements_pretty hread fuel depth y ys rest hxs.1 hxs.2 (by omega)
    rw [parseElements, hrest]
    simp only [Option.bind_some, prettyTail, ofText_cons, ofText_append, List.cons_append,
      List.append_assoc, skipSpace_cons (show isSpace (.scalar ',') = false by decide)]
    rw [parseElements_newLine, htail, Option.map_some]

/-- The members after the opening brace. -/
theorem parseMembers_pretty (hread : Keeps read ok) : ∀ (fuel depth : ℕ) (k : JsString) (v : Json)
    (ms seen : List (JsString × Json)) (rest : JsString),
    PlainMembers ok ((k, v) :: ms) → (∀ m ∈ (k, v) :: ms, ∀ m' ∈ seen, m'.1 ≠ m.1) →
    cost v + costMembers ms ≤ fuel →
    parseMembers read fuel seen
        (ofText (quote k ++ ':' :: ' ' :: (pretty (depth + 1) v ++ prettyMembers depth ms)) ++ rest) =
      some (seen ++ (k, v) :: ms, rest)
  | 0, _, _, v, _, _, _, _, _, hf => by
    have hv := one_le_cost v
    omega
  | fuel + 1, depth, k, v, ms, seen, rest, hp, hnew, hf => by
    rw [PlainMembers] at hp
    obtain ⟨hpair, hv, hk, hms⟩ := hp
    have hrest := parseValue_pretty hread fuel (depth + 1) v
      (ofText (prettyMembers depth ms) ++ rest) hv
      (by cases ms <;> simp only [costMembers] at hf <;> omega)
      (prettyMembers_endsNumber depth ms rest)
    have hset : setMember k v seen = seen ++ [(k, v)] :=
      setMember_of_new (hnew _ (List.mem_cons_self ..))
    simp only [quote, ofText_cons, ofText_append, List.cons_append, List.append_assoc,
      List.nil_append, parseMembers, skipSpace_cons (show isSpace (.scalar '"') = false by decide),
      readString_quote hpair, Option.bind_some,
      skipSpace_cons (show isSpace (.scalar ':') = false by decide), parseValue_space, hrest, hset]
    cases ms with
    | nil =>
      simp only [prettyMembers, ofText_append, List.append_assoc, skipSpace_newLine, ofText_cons,
        ofText_nil, List.cons_append, List.nil_append,
        skipSpace_cons (show isSpace (.scalar '\x7d') = false by decide)]
    | cons m ms =>
      obtain ⟨k', v'⟩ := m
      rw [costMembers] at hf
      have hpos := one_le_cost v
      have htail := parseMembers_pretty hread fuel depth k' v' ms (seen ++ [(k, v)]) rest hms
        (by
          intro m hm m' hm'
          rcases List.mem_append.mp hm' with hm' | hm'
          · exact hnew m (List.mem_cons_of_mem _ hm) m' hm'
          · rw [List.mem_singleton.mp hm']
            exact fun h => hk m hm h.symm)
        (by omega)
      simp only [prettyMembers, ofText_cons, ofText_append, List.cons_append, List.append_assoc,
        skipSpace_cons (show isSpace (.scalar ',') = false by decide)]
      rw [parseMembers_newLine]
      simp only [ofText_cons, ofText_append, List.cons_append, List.append_assoc] at htail
      rw [htail, List.nil_append]
end

mutual
theorem length_stringify_le : ∀ (depth : ℕ) (v : Json),
    (stringify v).length ≤ (pretty depth v).length
  | _, .null => by simp [pretty]
  | _, .bool _ => by simp [pretty]
  | _, .num _ => by simp [pretty]
  | _, .str _ => by simp [pretty]
  | _, .arr [] => by simp [pretty]
  | depth, .arr (x :: xs) => by
    have hx := length_stringify_le (depth + 1) x
    have hxs := length_stringifyTail_le depth xs
    simp only [stringify, pretty, List.length_cons, List.length_append]
    omega
  | _, .obj [] => by simp [pretty]
  | depth, .obj ((k, v) :: ms) => by
    have hv := length_stringify_le (depth + 1) v
    have hms := length_stringifyMembers_le depth ms
    simp only [stringify, pretty, List.length_cons, List.length_append]
    omega

theorem length_stringifyTail_le : ∀ (depth : ℕ) (xs : List Json),
    (stringifyTail xs).length ≤ (prettyTail depth xs).length
  | _, [] => by simp [stringifyTail, prettyTail]
  | depth, x :: xs => by
    have hx := length_stringify_le (depth + 1) x
    have hxs := length_stringifyTail_le depth xs
    simp only [stringifyTail, prettyTail, List.length_cons, List.length_append]
    omega

theorem length_stringifyMembers_le : ∀ (depth : ℕ) (ms : List (JsString × Json)),
    (stringifyMembers ms).length ≤ (prettyMembers depth ms).length
  | _, [] => by simp [stringifyMembers, prettyMembers]
  | depth, (k, v) :: ms => by
    have hv := length_stringify_le (depth + 1) v
    have hms := length_stringifyMembers_le depth ms
    simp only [stringifyMembers, prettyMembers, List.length_cons, List.length_append]
    omega
end

/-- Reading back a file that holds a plain value gives the value. -/
theorem parse_document {v : Json} (hv : v.Plain) : parse (ofText (document v)) = some v := by
  have hcost := cost_le_length v
  have hlength := length_stringify_le 0 v
  have hfile : (ofText (document v)).length = (pretty 0 v).length + 1 := by
    rw [ofText, List.length_map, document, List.length_append, List.length_singleton]
  have hend : parse (ofText (document v)) =
      (parseValue readNumber (2 * (ofText (document v)).length + 2) (ofText (document v))).bind
        fun read => if skipSpace read.2 = [] then some read.1 else none := by
    rw [parse, parseWith]
    cases parseValue readNumber (2 * (ofText (document v)).length + 2) (ofText (document v)) <;> rfl
  have hrest : parseValue readNumber (2 * (ofText (document v)).length + 2) (ofText (document v)) =
      some (v, ofText ['\n']) := by
    have hread := parseValue_pretty (fun _ h => readNumber_nat h)
      (2 * (ofText (document v)).length + 2) 0 v (ofText ['\n']) hv (by omega)
      (EndsNumber.cons (by decide))
    rwa [← ofText_append] at hread
  rw [hend, hrest]
  rfl

end SoulSociety.Lib.Json
