import SoulSociety.Lib.JsonText

/-! JSON documents: values, the compact serializer, the parser, and the round trip between them.

    `stringify` writes members in the order they are given, without white space. `parse` accepts
    any JSON text; a repeated member keeps its first position and its last value. A document whose
    numbers are safe integers and whose keys are distinct is the value that its text parses to, so
    the serializer is injective on such documents. -/

namespace SoulSociety.Lib

/-- A JSON value. The members of an object are in their order. -/
inductive Json where
  | null
  | bool (b : Bool)
  | num (x : Number)
  | str (s : JsString)
  | arr (xs : List Json)
  | obj (ms : List (JsString × Json))

namespace Json

/-! ### Serializer -/

mutual
/-- The compact text of a value. The codecs never write a number other than a safe integer; for
    such a number the text is the one written for a number without a finite value. -/
def stringify : Json → Text
  | .null => ['n', 'u', 'l', 'l']
  | .bool true => ['t', 'r', 'u', 'e']
  | .bool false => ['f', 'a', 'l', 's', 'e']
  | .num (.nat n) => decimal n
  | .num .other => ['n', 'u', 'l', 'l']
  | .str s => quote s
  | .arr [] => ['[', ']']
  | .arr (x :: xs) => '[' :: (stringify x ++ stringifyTail xs)
  | .obj [] => ['{', '}']
  | .obj ((k, v) :: ms) => '{' :: (quote k ++ ':' :: (stringify v ++ stringifyMembers ms))

/-- The elements after the first, and the closing bracket. -/
def stringifyTail : List Json → Text
  | [] => [']']
  | x :: xs => ',' :: (stringify x ++ stringifyTail xs)

/-- The members after the first, and the closing brace. -/
def stringifyMembers : List (JsString × Json) → Text
  | [] => ['}']
  | (k, v) :: ms => ',' :: (quote k ++ ':' :: (stringify v ++ stringifyMembers ms))
end

/-! ### Parser -/

/-- JSON white space. -/
def isSpace (p : CodePoint) : Bool :=
  p = .scalar ' ' || p = .scalar '\t' || p = .scalar '\n' || p = .scalar '\r'

/-- What is left after white space. -/
def skipSpace (t : JsString) : JsString := t.dropWhile isSpace

/-- Set a member: a known key keeps its position. -/
def setMember (k : JsString) (v : Json) : List (JsString × Json) → List (JsString × Json)
  | [] => [(k, v)]
  | (k', v') :: ms => if k' = k then (k, v) :: ms else (k', v') :: setMember k v ms

/-- The literals `null`, `true` and `false`. -/
def parseName : JsString → Option (Json × JsString)
  | .scalar 'n' :: .scalar 'u' :: .scalar 'l' :: .scalar 'l' :: r => some (.null, r)
  | .scalar 't' :: .scalar 'r' :: .scalar 'u' :: .scalar 'e' :: r => some (.bool true, r)
  | .scalar 'f' :: .scalar 'a' :: .scalar 'l' :: .scalar 's' :: .scalar 'e' :: r =>
    some (.bool false, r)
  | _ => none

variable (read : NumberReader)

mutual
/-- Read one value. `fuel` bounds the recursion; twice the length of the text is enough. -/
def parseValue : ℕ → JsString → Option (Json × JsString)
  | 0, _ => none
  | fuel + 1, t =>
    match skipSpace t with
    | .scalar '"' :: r => (readString r).map fun (s, r) => (.str s, r)
    | .scalar '[' :: r =>
      match skipSpace r with
      | .scalar ']' :: r => some (.arr [], r)
      | r => (parseElements fuel r).map fun (xs, r) => (.arr xs, r)
    | .scalar '{' :: r =>
      match skipSpace r with
      | .scalar '}' :: r => some (.obj [], r)
      | r => (parseMembers fuel [] r).map fun (ms, r) => (.obj ms, r)
    | r => (parseName r).or ((parseNumber read r).map fun (x, r) => (.num x, r))

/-- Read array elements up to the closing bracket. -/
def parseElements : ℕ → JsString → Option (List Json × JsString)
  | 0, _ => none
  | fuel + 1, t =>
    (parseValue fuel t).bind fun (x, r) =>
      match skipSpace r with
      | .scalar ',' :: r => (parseElements fuel r).map fun (xs, r) => (x :: xs, r)
      | .scalar ']' :: r => some ([x], r)
      | _ => none

/-- Read object members up to the closing brace, after the members `ms`. -/
def parseMembers : ℕ → List (JsString × Json) → JsString →
    Option (List (JsString × Json) × JsString)
  | 0, _, _ => none
  | fuel + 1, ms, t =>
    match skipSpace t with
    | .scalar '"' :: r =>
      (readString r).bind fun (k, r) =>
        match skipSpace r with
        | .scalar ':' :: r =>
          (parseValue fuel r).bind fun (v, r) =>
            match skipSpace r with
            | .scalar ',' :: r => parseMembers fuel (setMember k v ms) r
            | .scalar '}' :: r => some (setMember k v ms, r)
            | _ => none
        | _ => none
    | _ => none
end

/-- Read a whole document, with `read` for its numbers. -/
def parseWith (t : JsString) : Option Json :=
  match parseValue read (2 * t.length + 2) t with
  | some (v, r) => if skipSpace r = [] then some v else none
  | none => none

/-- `JSON.parse`. -/
abbrev parse (t : JsString) : Option Json := parseWith readNumber t

/-! ### Documents that survive the round trip -/

mutual
/-- Well-formed strings, integers of a kind, distinct keys. -/
def PlainFor (ok : ℕ → Prop) : Json → Prop
  | .null => True
  | .bool _ => True
  | .num (.nat n) => ok n
  | .num .other => False
  | .str s => Paired s
  | .arr xs => PlainAll ok xs
  | .obj ms => PlainMembers ok ms

def PlainAll (ok : ℕ → Prop) : List Json → Prop
  | [] => True
  | x :: xs => PlainFor ok x ∧ PlainAll ok xs

def PlainMembers (ok : ℕ → Prop) : List (JsString × Json) → Prop
  | [] => True
  | (k, v) :: ms => Paired k ∧ PlainFor ok v ∧ (∀ m ∈ ms, m.1 ≠ k) ∧ PlainMembers ok ms
end

/-- Plain, with safe integers. -/
abbrev Plain (v : Json) : Prop := PlainFor (· < 2 ^ 53) v

mutual
/-- Recursion depth of the parser on the text of a value. -/
def cost : Json → ℕ
  | .arr (x :: xs) => 1 + cost x + costAll xs
  | .obj ((_, v) :: ms) => 1 + cost v + costMembers ms
  | _ => 1

def costAll : List Json → ℕ
  | [] => 1
  | x :: xs => 1 + cost x + costAll xs

def costMembers : List (JsString × Json) → ℕ
  | [] => 1
  | (_, v) :: ms => 1 + cost v + costMembers ms
end

mutual
/-- No string in the document has a split pair. -/
def StringsPaired : Json → Prop
  | .str s => Paired s
  | .arr xs => ElementsPaired xs
  | .obj ms => MembersPaired ms
  | _ => True

def ElementsPaired : List Json → Prop
  | [] => True
  | x :: xs => StringsPaired x ∧ ElementsPaired xs

def MembersPaired : List (JsString × Json) → Prop
  | [] => True
  | (_, v) :: ms => StringsPaired v ∧ MembersPaired ms
end

theorem skipSpace_cons {p : CodePoint} (h : isSpace p = false) (t : JsString) :
    skipSpace (p :: t) = p :: t := by
  rw [skipSpace, List.dropWhile_cons_of_neg (by simp [h])]

/-- A digit opens no value but a number, and is not white space. -/
theorem digit_ne {d : Char} (h : d.isDigit = true) : isSpace (.scalar d) = false ∧ d ≠ '"' ∧
    d ≠ '[' ∧ d ≠ ']' ∧ d ≠ '\x7b' ∧ d ≠ 'n' ∧ d ≠ 't' ∧ d ≠ 'f' := by
  have hspace : isSpace (.scalar d) = false := by
    by_contra hs
    simp only [isSpace, Bool.not_eq_false, Bool.or_eq_true, decide_eq_true_eq,
      CodePoint.scalar.injEq] at hs
    rcases hs with ((rfl | rfl) | rfl) | rfl <;> exact absurd h (by decide)
  refine ⟨hspace, ?_, ?_, ?_, ?_, ?_, ?_, ?_⟩ <;> (rintro rfl; exact absurd h (by decide))

/-- The first character of a value's text is neither white space nor a closing bracket. -/
theorem stringify_head : ∀ v : Json,
    ∃ c r, stringify v = c :: r ∧ isSpace (.scalar c) = false ∧ c ≠ ']'
  | .null => ⟨'n', _, by rw [stringify], by decide, by decide⟩
  | .bool true => ⟨'t', _, by rw [stringify], by decide, by decide⟩
  | .bool false => ⟨'f', _, by rw [stringify], by decide, by decide⟩
  | .num (.nat n) => by
    cases hd : decimal n with
    | nil => exact absurd hd (decimal_ne_nil n)
    | cons d ds =>
      obtain ⟨hs, -, -, hb, -⟩ := digit_ne (isDigit_of_mem_decimal (n := n) (c := d) (by simp [hd]))
      exact ⟨d, ds, by rw [stringify, hd], hs, hb⟩
  | .num .other => ⟨'n', _, by rw [stringify], by decide, by decide⟩
  | .str s => ⟨'"', _, by rw [stringify, quote], by decide, by decide⟩
  | .arr [] => ⟨'[', _, by rw [stringify], by decide, by decide⟩
  | .arr (_ :: _) => ⟨'[', _, by rw [stringify], by decide, by decide⟩
  | .obj [] => ⟨'{', _, by rw [stringify], by decide, by decide⟩
  | .obj ((_, _) :: _) => ⟨'{', _, by rw [stringify], by decide, by decide⟩

theorem stringifyTail_endsNumber : ∀ (xs : List Json) (rest : JsString),
    EndsNumber (ofText (stringifyTail xs) ++ rest)
  | [], rest => by rw [stringifyTail]; exact EndsNumber.cons (by decide)
  | _ :: _, rest => by rw [stringifyTail]; exact EndsNumber.cons (by decide)

theorem stringifyMembers_endsNumber : ∀ (ms : List (JsString × Json)) (rest : JsString),
    EndsNumber (ofText (stringifyMembers ms) ++ rest)
  | [], rest => by rw [stringifyMembers]; exact EndsNumber.cons (by decide)
  | (_, _) :: _, rest => by rw [stringifyMembers]; exact EndsNumber.cons (by decide)

theorem setMember_of_new {k : JsString} {v : Json} : ∀ {ms : List (JsString × Json)},
    (∀ m ∈ ms, m.1 ≠ k) → setMember k v ms = ms ++ [(k, v)]
  | [], _ => rfl
  | (k', v') :: ms, h => by
    rw [setMember, if_neg (h (k', v') (List.mem_cons_self ..)),
      setMember_of_new fun m hm => h m (List.mem_cons_of_mem _ hm), List.cons_append]

variable {ok : ℕ → Prop}

theorem plainMembers_of : ∀ {ms : List (JsString × Json)},
    (ms.map Prod.fst).Nodup ∧ (∀ k ∈ ms.map Prod.fst, Paired k) → (∀ m ∈ ms, PlainFor ok m.2) →
    PlainMembers ok ms
  | [], _, _ => trivial
  | (k, v) :: ms, ⟨hnd, hp⟩, hv => by
    rw [List.map_cons, List.nodup_cons] at hnd
    rw [List.map_cons, List.forall_mem_cons] at hp
    rw [List.forall_mem_cons] at hv
    refine ⟨hp.1, hv.1, fun m hm hmk => hnd.1 ?_, plainMembers_of ⟨hnd.2, hp.2⟩ hv.2⟩
    exact List.mem_map.mpr ⟨m, hm, hmk⟩

/-- An object is plain when its keys are distinct and well formed and its values are plain. On a
    list of literal keys the second condition is decided. -/
theorem plain_obj {ms : List (JsString × Json)} (keys : List JsString)
    (hkeys : ms.map Prod.fst = keys) (hk : keys.Nodup ∧ ∀ k ∈ keys, Paired k)
    (hv : ∀ m ∈ ms, PlainFor ok m.2) : PlainFor ok (.obj ms) := plainMembers_of (hkeys ▸ hk) hv

theorem plainAll_of : ∀ {xs : List Json}, (∀ x ∈ xs, PlainFor ok x) → PlainAll ok xs
  | [], _ => trivial
  | _ :: _, h => by
    rw [List.forall_mem_cons] at h
    exact ⟨h.1, plainAll_of h.2⟩

theorem plain_arr {xs : List Json} (h : ∀ x ∈ xs, PlainFor ok x) : PlainFor ok (.arr xs) :=
  plainAll_of h

theorem one_le_cost (v : Json) : 1 ≤ cost v := by
  cases v with
  | arr xs => cases xs <;> simp only [cost] <;> omega
  | obj ms => cases ms <;> simp only [cost] <;> omega
  | _ => simp only [cost]; omega

/-- A digit sends the parser to the number literals. -/
theorem parseValue_digit {d : Char} (hd : d.isDigit = true) (fuel : ℕ) (r : JsString) :
    parseValue read (fuel + 1) (.scalar d :: r) =
      (parseNumber read (.scalar d :: r)).map fun (x, r) => (.num x, r) := by
  obtain ⟨hs, h₁, h₂, -, h₃, h₄, h₅, h₆⟩ := digit_ne hd
  have hname : parseName (.scalar d :: r) = none := by
    rw [parseName.eq_def]
    split <;> rename_i heq <;> simp_all
  rw [parseValue, skipSpace_cons hs]
  split <;> rename_i heq <;> simp_all

/-- A bracket that is not closed at once sends the parser to the elements. -/
theorem parseValue_bracket {c : Char} (hs : isSpace (.scalar c) = false) (hc : c ≠ ']') (fuel : ℕ)
    (r : JsString) : parseValue read (fuel + 1) (.scalar '[' :: .scalar c :: r) =
      (parseElements read fuel (.scalar c :: r)).map fun (xs, r) => (.arr xs, r) := by
  simp only [parseValue, skipSpace_cons (show isSpace (.scalar '[') = false by decide),
    skipSpace_cons hs]
  split
  · rename_i heq; exact absurd (CodePoint.scalar.inj (List.cons.inj heq).1) hc
  · rfl

/-- A brace before a quote sends the parser to the members. -/
theorem parseValue_brace (fuel : ℕ) (r : JsString) :
    parseValue read (fuel + 1) (.scalar '\x7b' :: .scalar '"' :: r) =
      (parseMembers read fuel [] (.scalar '"' :: r)).map fun (ms, r) => (.obj ms, r) := by
  simp only [parseValue, skipSpace_cons (show isSpace (.scalar '\x7b') = false by decide),
    skipSpace_cons (show isSpace (.scalar '"') = false by decide)]
  split
  · rename_i heq; simp at heq
  · rfl

variable {read}

/-- The reader keeps the integers of the kind. -/
def Keeps (read : NumberReader) (ok : ℕ → Prop) : Prop := ∀ n, ok n → read false n 0 = .nat n

mutual
/-- The parser undoes the serializer, whatever follows the value. -/
theorem parseValue_stringify (hread : Keeps read ok) : ∀ (fuel : ℕ) (v : Json) (rest : JsString),
    PlainFor ok v →
    cost v ≤ fuel → EndsNumber rest →
    parseValue read fuel (ofText (stringify v) ++ rest) = some (v, rest)
  | 0, v, _, _, hf, _ => by
    have hv := one_le_cost v
    omega
  | fuel + 1, .null, rest, _, _, _ => by
    simp [stringify, parseValue, parseName, skipSpace_cons, isSpace]
  | fuel + 1, .bool true, rest, _, _, _ => by
    simp [stringify, parseValue, parseName, skipSpace_cons, isSpace]
  | fuel + 1, .bool false, rest, _, _, _ => by
    simp [stringify, parseValue, parseName, skipSpace_cons, isSpace]
  | fuel + 1, .num (.nat n), rest, hp, _, hr => by
    rw [PlainFor] at hp
    have hnum := parseNumber_decimal (hread n hp) hr
    rw [stringify]
    cases hd : decimal n with
    | nil => exact absurd hd (decimal_ne_nil n)
    | cons d ds =>
      have hdigit : d.isDigit = true := isDigit_of_mem_decimal (n := n) (by simp [hd])
      rw [hd] at hnum
      rw [ofText_cons, List.cons_append] at hnum ⊢
      rw [parseValue_digit read hdigit, hnum, Option.map_some]
  | _ + 1, .num .other, _, hp, _, _ => by rw [PlainFor] at hp; exact hp.elim
  | fuel + 1, .str s, rest, hp, _, _ => by
    rw [PlainFor] at hp
    simp [stringify, quote, parseValue, skipSpace_cons, isSpace, readString_quote hp]
  | fuel + 1, .arr [], rest, _, _, _ => by
    simp [stringify, parseValue, skipSpace_cons, isSpace]
  | fuel + 1, .arr (x :: xs), rest, hp, hf, _ => by
    rw [PlainFor, PlainAll] at hp
    rw [cost] at hf
    obtain ⟨c, r, hx, hc, hne⟩ := stringify_head x
    have hrest := parseElements_stringify hread fuel x xs rest hp.1 hp.2 (by omega)
    rw [stringify, ofText_cons, List.cons_append, ofText_append, List.append_assoc]
    rw [hx, ofText_cons, List.cons_append] at hrest ⊢
    rw [parseValue_bracket read hc hne, hrest, Option.map_some]
  | fuel + 1, .obj [], rest, _, _, _ => by
    simp [stringify, parseValue, skipSpace_cons, isSpace]
  | fuel + 1, .obj ((k, v) :: ms), rest, hp, hf, _ => by
    rw [PlainFor] at hp
    rw [cost] at hf
    have hrest := parseMembers_stringify hread fuel k v ms [] rest hp (by simp) (by omega)
    rw [quote, List.cons_append, ofText_cons, List.cons_append] at hrest
    rw [stringify, quote, List.cons_append, ofText_cons, ofText_cons, List.cons_append,
      List.cons_append, parseValue_brace read, hrest, Option.map_some, List.nil_append]

/-- The elements after the opening bracket. -/
theorem parseElements_stringify (hread : Keeps read ok) :
    ∀ (fuel : ℕ) (x : Json) (xs : List Json) (rest : JsString),
    PlainFor ok x → PlainAll ok xs → cost x + costAll xs ≤ fuel →
    parseElements read fuel (ofText (stringify x) ++ (ofText (stringifyTail xs) ++ rest)) =
      some (x :: xs, rest)
  | 0, x, _, _, _, _, hf => by
    have hx := one_le_cost x
    omega
  | fuel + 1, x, [], rest, hx, _, hf => by
    rw [costAll] at hf
    have hrest := parseValue_stringify hread fuel x (ofText (stringifyTail []) ++ rest) hx (by omega)
      (stringifyTail_endsNumber [] rest)
    rw [parseElements, hrest]
    simp only [Option.bind_some, stringifyTail, ofText_cons, ofText_nil, List.cons_append,
      List.nil_append, skipSpace_cons (show isSpace (.scalar ']') = false by decide)]
  | fuel + 1, x, y :: ys, rest, hx, hxs, hf => by
    rw [costAll] at hf
    rw [PlainAll] at hxs
    have hpos := one_le_cost x
    have hrest := parseValue_stringify hread fuel x (ofText (stringifyTail (y :: ys)) ++ rest) hx
      (by omega) (stringifyTail_endsNumber (y :: ys) rest)
    have htail := parseElements_stringify hread fuel y ys rest hxs.1 hxs.2 (by omega)
    rw [parseElements, hrest]
    simp only [Option.bind_some, stringifyTail, ofText_cons, ofText_append, List.cons_append,
      List.append_assoc, skipSpace_cons (show isSpace (.scalar ',') = false by decide)]
    rw [htail, Option.map_some]

/-- The members after the opening brace. -/
theorem parseMembers_stringify (hread : Keeps read ok) : ∀ (fuel : ℕ) (k : JsString) (v : Json)
    (ms seen : List (JsString × Json)) (rest : JsString),
    PlainMembers ok ((k, v) :: ms) → (∀ m ∈ (k, v) :: ms, ∀ m' ∈ seen, m'.1 ≠ m.1) →
    cost v + costMembers ms ≤ fuel →
    parseMembers read fuel seen
        (ofText (quote k ++ ':' :: (stringify v ++ stringifyMembers ms)) ++ rest) =
      some (seen ++ (k, v) :: ms, rest)
  | 0, _, v, _, _, _, _, _, hf => by
    have hv := one_le_cost v
    omega
  | fuel + 1, k, v, ms, seen, rest, hp, hnew, hf => by
    rw [PlainMembers] at hp
    obtain ⟨hpair, hv, hk, hms⟩ := hp
    have hrest := parseValue_stringify hread fuel v (ofText (stringifyMembers ms) ++ rest) hv
      (by cases ms <;> simp only [costMembers] at hf <;> omega)
      (stringifyMembers_endsNumber ms rest)
    have hset : setMember k v seen = seen ++ [(k, v)] :=
      setMember_of_new (hnew _ (List.mem_cons_self ..))
    simp only [quote, ofText_cons, ofText_append, List.cons_append, List.append_assoc,
      List.nil_append, parseMembers, skipSpace_cons (show isSpace (.scalar '"') = false by decide),
      readString_quote hpair, Option.bind_some,
      skipSpace_cons (show isSpace (.scalar ':') = false by decide), hrest, hset]
    cases ms with
    | nil =>
      simp only [stringifyMembers, ofText_cons, ofText_nil, List.cons_append, List.nil_append,
        skipSpace_cons (show isSpace (.scalar '\x7d') = false by decide)]
    | cons m ms =>
      obtain ⟨k', v'⟩ := m
      rw [costMembers] at hf
      have hpos := one_le_cost v
      have htail := parseMembers_stringify hread fuel k' v' ms (seen ++ [(k, v)]) rest hms
        (by
          intro m hm m' hm'
          rcases List.mem_append.mp hm' with hm' | hm'
          · exact hnew m (List.mem_cons_of_mem _ hm) m' hm'
          · rw [List.mem_singleton.mp hm']
            exact fun h => hk m hm h.symm)
        (by omega)
      simp only [stringifyMembers, ofText_cons, List.cons_append,
        skipSpace_cons (show isSpace (.scalar ',') = false by decide)]
      rw [htail, List.append_assoc, List.cons_append, List.nil_append]
end

/-! ### The parser has fuel enough -/

mutual
theorem cost_le_length : ∀ v : Json, cost v ≤ 2 * (stringify v).length
  | .null => by simp [cost, stringify]
  | .bool true => by simp [cost, stringify]
  | .bool false => by simp [cost, stringify]
  | .num (.nat n) => by
    have hpos := List.length_pos_of_ne_nil (decimal_ne_nil n)
    simp only [cost, stringify]
    omega
  | .num .other => by simp [cost, stringify]
  | .str s => by simp [cost, stringify, quote]; omega
  | .arr [] => by simp [cost, stringify]
  | .arr (x :: xs) => by
    have hx := cost_le_length x
    have hxs := costAll_le_length xs
    rw [cost, stringify, List.length_cons, List.length_append]
    omega
  | .obj [] => by simp [cost, stringify]
  | .obj ((k, v) :: ms) => by
    have hv := cost_le_length v
    have hms := costMembers_le_length ms
    rw [cost, stringify, List.length_cons, List.length_append, List.length_cons,
      List.length_append]
    omega

theorem costAll_le_length : ∀ xs : List Json, costAll xs ≤ 2 * (stringifyTail xs).length
  | [] => by simp [costAll, stringifyTail]
  | x :: xs => by
    have hx := cost_le_length x
    have hxs := costAll_le_length xs
    rw [costAll, stringifyTail, List.length_cons, List.length_append]
    omega

theorem costMembers_le_length : ∀ ms : List (JsString × Json),
    costMembers ms ≤ 2 * (stringifyMembers ms).length
  | [] => by simp [costMembers, stringifyMembers]
  | (k, v) :: ms => by
    have hv := cost_le_length v
    have hms := costMembers_le_length ms
    rw [costMembers, stringifyMembers, List.length_cons, List.length_append, List.length_cons,
      List.length_append]
    omega
end

/-- Reading back the text of a plain value gives the value. -/
theorem parseWith_stringify (hread : Keeps read ok) {v : Json} (hv : PlainFor ok v) :
    parseWith read (ofText (stringify v)) = some v := by
  have hcost := cost_le_length v
  have hlen : (ofText (stringify v)).length = (stringify v).length := List.length_map ..
  have hrest := parseValue_stringify hread (2 * (ofText (stringify v)).length + 2) v [] hv
    (by omega) EndsNumber.nil
  rw [List.append_nil] at hrest
  rw [parseWith, hrest]
  simp [skipSpace]

/-- `JSON.parse` undoes `JSON.stringify`. -/
theorem parse_stringify {v : Json} (hv : v.Plain) : parse (ofText (stringify v)) = some v :=
  parseWith_stringify (fun _ h => readNumber_nat h) hv

/-- Documents with the same text are the same, whatever the size of their integers. -/
theorem stringify_inj {v w : Json} (hv : PlainFor (fun _ => True) v)
    (hw : PlainFor (fun _ => True) w) (h : stringify v = stringify w) : v = w := by
  have hexact : Keeps readExact fun _ => True := fun _ _ => rfl
  have hread := parseWith_stringify hexact hv
  rw [h, parseWith_stringify hexact hw] at hread
  exact (Option.some.inj hread).symm

/-! ### What the parser returns -/

theorem membersPaired_setMember {k : JsString} {v : Json} (hv : StringsPaired v) :
    ∀ {ms : List (JsString × Json)}, MembersPaired ms → MembersPaired (setMember k v ms)
  | [], _ => ⟨hv, trivial⟩
  | (k', v') :: ms, h => by
    rw [setMember]
    split
    · exact ⟨hv, h.2⟩
    · exact ⟨h.1, membersPaired_setMember hv h.2⟩

theorem stringsPaired_of_parseName {t r : JsString} {v : Json} (h : parseName t = some (v, r)) :
    StringsPaired v := by
  rw [parseName.eq_def] at h
  split at h <;> cases h <;> exact trivial

mutual
theorem stringsPaired_of_parseValue : ∀ (fuel : ℕ) (t : JsString) {v : Json} {r : JsString},
    parseValue read fuel t = some (v, r) → StringsPaired v
  | 0, _, _, _, h => by simp [parseValue] at h
  | fuel + 1, t, v, r, h => by
    rw [parseValue] at h
    split at h
    · obtain ⟨⟨s, r'⟩, hs, heq⟩ := Option.map_eq_some_iff.mp h
      cases heq
      exact paired_of_readString hs
    · split at h
      · cases h; exact trivial
      · obtain ⟨⟨xs, r'⟩, hxs, heq⟩ := Option.map_eq_some_iff.mp h
        cases heq
        exact elementsPaired_of_parseElements fuel _ hxs
    · split at h
      · cases h; exact trivial
      · obtain ⟨⟨ms, r'⟩, hms, heq⟩ := Option.map_eq_some_iff.mp h
        cases heq
        exact membersPaired_of_parseMembers fuel [] _ trivial hms
    · rcases Option.or_eq_some_iff.mp h with hname | ⟨-, hnum⟩
      · exact stringsPaired_of_parseName hname
      · obtain ⟨⟨x, r'⟩, -, heq⟩ := Option.map_eq_some_iff.mp hnum
        cases heq
        exact trivial

theorem elementsPaired_of_parseElements : ∀ (fuel : ℕ) (t : JsString) {xs : List Json}
    {r : JsString}, parseElements read fuel t = some (xs, r) → ElementsPaired xs
  | 0, _, _, _, h => by simp [parseElements] at h
  | fuel + 1, t, xs, r, h => by
    rw [parseElements] at h
    obtain ⟨⟨x, r'⟩, hx, h⟩ := Option.bind_eq_some_iff.mp h
    have hpair := stringsPaired_of_parseValue fuel t hx
    dsimp only at h
    split at h
    · obtain ⟨⟨ys, r''⟩, hys, heq⟩ := Option.map_eq_some_iff.mp h
      cases heq
      exact ⟨hpair, elementsPaired_of_parseElements fuel _ hys⟩
    · cases h; exact ⟨hpair, trivial⟩
    · cases h

theorem membersPaired_of_parseMembers : ∀ (fuel : ℕ) (seen : List (JsString × Json))
    (t : JsString) {ms : List (JsString × Json)} {r : JsString}, MembersPaired seen →
    parseMembers read fuel seen t = some (ms, r) → MembersPaired ms
  | 0, _, _, _, _, _, h => by simp [parseMembers] at h
  | fuel + 1, seen, t, ms, r, hseen, h => by
    rw [parseMembers] at h
    split at h
    · obtain ⟨⟨k, r₁⟩, -, h⟩ := Option.bind_eq_some_iff.mp h
      dsimp only at h
      split at h
      · obtain ⟨⟨v, r₂⟩, hv, h⟩ := Option.bind_eq_some_iff.mp h
        have hnext : MembersPaired (setMember k v seen) :=
          membersPaired_setMember (stringsPaired_of_parseValue fuel _ hv) hseen
        dsimp only at h
        split at h
        · exact membersPaired_of_parseMembers fuel _ _ hnext h
        · cases h; exact hnext
        · cases h
      · cases h
    · cases h
end

/-- The strings of a parsed document have no split pairs. -/
theorem stringsPaired_of_parse {t : JsString} {v : Json} (h : parse t = some v) :
    StringsPaired v := by
  rw [parse, parseWith] at h
  split at h
  · rename_i w r hread
    split at h
    · cases h; exact stringsPaired_of_parseValue _ _ hread
    · cases h
  · cases h

theorem MembersPaired.lookup {k : JsString} {v : Json} : ∀ {ms : List (JsString × Json)},
    MembersPaired ms → ms.lookup k = some v → StringsPaired v
  | [], _, h => by cases h
  | (k', v') :: ms, hms, h => by
    rw [List.lookup_cons] at h
    split at h
    · cases h; exact hms.1
    · exact MembersPaired.lookup hms.2 h

end Json

end SoulSociety.Lib
