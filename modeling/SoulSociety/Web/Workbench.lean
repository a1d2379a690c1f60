import SoulSociety.Protocol.Requests
import SoulSociety.Sdk.Relays

/-! The request form of the web application (`apps/web/src/features/workbench/catalog.ts`). -/

namespace SoulSociety.Web
open Lib Sdk
open SoulSociety.Core (maxSafeInteger)

structure FormValues where
  n : JsString
  hash : JsString
  preimage : JsString
  root : JsString
  leaf : JsString
  proof : JsString
  index : JsString
  deriving DecidableEq

/-- `Number(value)` skips the white space that `trim` takes off. -/
def parseInteger (value : JsString) (label : String) : Except JsError ℕ := do
  rejectIf (¬ isDecimalLiteral (trim value))
    (.other (js (label ++ " must be a non-negative integer.")))
  orReject (safeNumber (numberOfDigits (trim value)))
    (.other (js (label ++ " is outside the safe integer range.")))

/-- `value.split(/\r?\n/)`. -/
def splitLines : JsString → List JsString
  | [] => [[]]
  | .scalar '\r' :: .scalar '\n' :: rest => [] :: splitLines rest
  | .scalar '\n' :: rest => [] :: splitLines rest
  | p :: rest => (splitLines rest).modifyHead (p :: ·)

def pathLines (value : JsString) : List JsString :=
  ((splitLines value).map trim).filter fun line => line ≠ []

/-- The object that the form makes, before it is validated. -/
def formInput (form : FormValues) : Core.ServiceType → Except JsError JobInput
  | .fibonacci => do
    let n ← parseInteger form.n "n"
    return .fibonacci n
  | .hashVerify => return .hashVerify (trim form.hash) (trim form.preimage)
  | .merkleProof => do
    let index ← parseInteger form.index "Leaf index"
    return .merkleProof (trim form.root) (trim form.leaf) (pathLines form.proof) index

def buildInput (service : Core.ServiceType) (form : FormValues) : Except JsError JobInput := do
  let input ← formInput form service
  validateJobInput (some (inputJson input))

/-! ### Integers -/

theorem exists_digits : ∀ {s : JsString},
    (s.all fun | .scalar d => d.isDigit | .lone _ => false) = true →
      ∃ t : Text, s = ofText t ∧ ∀ d ∈ t, d.isDigit = true
  | [], _ => ⟨[], rfl, fun _ h => absurd h List.not_mem_nil⟩
  | .scalar d :: s, h => by
    rw [List.all_cons, Bool.and_eq_true] at h
    obtain ⟨t, rfl, ht⟩ := exists_digits h.2
    exact ⟨d :: t, rfl, List.forall_mem_cons.mpr ⟨h.1, ht⟩⟩
  | .lone _ :: s, h => by
    rw [List.all_cons, Bool.and_eq_true] at h
    cases h.1

theorem isDecimalLiteral_iff {s : JsString} :
    isDecimalLiteral s = true ↔ ∃ n, s = ofText (decimal n) := by
  constructor
  · intro h
    rw [isDecimalLiteral.eq_def] at h
    split at h
    · exact ⟨0, rfl⟩
    · rename_i c rest _
      simp only [Bool.and_eq_true, decide_eq_true_eq] at h
      obtain ⟨⟨hc, hzero⟩, hrest⟩ := h
      obtain ⟨t, rfl, ht⟩ := exists_digits hrest
      have hdecimal : decimal (Nat.ofDigitChars 10 (c :: t) 0) = c :: t := by
        refine decimal_ofDigitChars (List.cons_ne_nil c t) (List.forall_mem_cons.mpr ⟨hc, ht⟩) ?_
        intro t' ht'
        exact absurd (List.cons.inj ht').1 hzero
      refine ⟨Nat.ofDigitChars 10 (c :: t) 0, ?_⟩
      rw [hdecimal]
      rfl
    · cases h
  · rintro ⟨n, rfl⟩
    exact Protocol.isDecimalLiteral_decimal n

/-- A decimal text is read as its number, when this is a safe integer, and is refused otherwise. -/
theorem safeNumber_decimal {m n : ℕ} :
    safeNumber (numberOfDigits (ofText (decimal m))) = some n ↔ m = n ∧ n ≤ maxSafeInteger := by
  have hval : Nat.ofDigitChars 10 (decimal m) 0 = m := Nat.ofDigitChars_ten_toDigits
  rw [numberOfDigits, toUsv_ofText, hval, safeNumber_eq_some]
  rcases Nat.lt_or_ge m (2 ^ 53) with hlt | hge
  · rw [readNumber_nat hlt, Number.nat.injEq]
  · have hlog : 53 ≤ Nat.log2 m := (Nat.le_log2 (by omega)).mpr hge
    have hpos : m ≠ 0 := by omega
    have hother : readNumber false m 0 = .other := by
      simp [readNumber, nearestSafe, hlog, hpos]
    rw [hother, maxSafeInteger]
    constructor
    · rintro ⟨⟨⟩, -⟩
    · rintro ⟨rfl, hle⟩
      omega

theorem parseInteger_eq_ok {value : JsString} {label : String} {n : ℕ} :
    parseInteger value label = .ok n ↔ trim value = ofText (decimal n) ∧ n ≤ maxSafeInteger := by
  simp only [parseInteger, bind_eq_ok, rejectIf_eq_ok, exists_unit, not_not, orReject_eq_ok,
    isDecimalLiteral_iff]
  constructor
  · rintro ⟨⟨m, hm⟩, h⟩
    rw [hm, safeNumber_decimal] at h
    obtain ⟨rfl, hle⟩ := h
    exact ⟨hm, hle⟩
  · rintro ⟨hn, hle⟩
    refine ⟨⟨n, hn⟩, ?_⟩
    rw [hn]
    exact safeNumber_decimal.mpr ⟨rfl, hle⟩

/-! ### Lines -/

/-- The word on a line, when there is one. -/
def word (line : JsString) : List JsString := if trim line = [] then [] else [trim line]

/-- The words of a text, none or one on each line. A carriage return is white space. -/
inductive Spells : JsString → List JsString → Prop
  | last {line : JsString} (h : .scalar '\n' ∉ line) : Spells line (word line)
  | next {line rest : JsString} {words : List JsString} (h : .scalar '\n' ∉ line)
      (hrest : Spells rest words) : Spells (line ++ .scalar '\n' :: rest) (word line ++ words)

theorem trim_append {p : CodePoint} (hp : isTrimmed p = true) (s : JsString) :
    trim (s ++ [p]) = trim s := by
  rw [trim, trim, List.dropWhile_append]
  split
  · rename_i hall
    rw [List.isEmpty_iff.mp hall, List.dropWhile_cons_of_pos hp]
    rfl
  · rw [List.reverse_append, List.reverse_singleton, List.singleton_append,
      List.dropWhile_cons_of_pos hp]

theorem splitLines_cons {p : CodePoint} {rest : JsString} (hp : p ≠ .scalar '\n')
    (hbreak : p = .scalar '\r' → ∀ t, rest ≠ .scalar '\n' :: t) :
    splitLines (p :: rest) = (splitLines rest).modifyHead (p :: ·) := by
  rw [splitLines.eq_def]
  split
  · rename_i h; cases h
  · rename_i h
    obtain ⟨hr, ht⟩ := List.cons.inj h
    exact absurd ht (hbreak hr _)
  · rename_i h
    exact absurd (List.cons.inj h).1 hp
  · rename_i h
    obtain ⟨rfl, rfl⟩ := List.cons.inj h
    rfl

theorem splitLines_of_notMem : ∀ {line : JsString}, .scalar '\n' ∉ line → splitLines line = [line]
  | [], _ => rfl
  | p :: line, h => by
    rw [List.mem_cons, not_or] at h
    rw [splitLines_cons (Ne.symm h.1) fun _ t ht => h.2 (by rw [ht]; exact List.mem_cons_self),
      splitLines_of_notMem h.2]
    rfl

/-- A line ends at its line feed, or at a carriage return before that. -/
theorem splitLines_append (rest : JsString) : ∀ {line : JsString}, .scalar '\n' ∉ line →
    ∃ line', (line = line' ∨ line = line' ++ [.scalar '\r']) ∧
      splitLines (line ++ .scalar '\n' :: rest) = line' :: splitLines rest
  | [], _ => ⟨[], .inl rfl, rfl⟩
  | p :: line, h => by
    rw [List.mem_cons, not_or] at h
    by_cases hreturn : p = .scalar '\r' ∧ line = []
    · obtain ⟨rfl, rfl⟩ := hreturn
      exact ⟨[], .inr rfl, rfl⟩
    · obtain ⟨line', hline, hsplit⟩ := splitLines_append rest h.2
      refine ⟨p :: line', hline.imp (congrArg (p :: ·)) (congrArg (p :: ·)), ?_⟩
      rw [List.cons_append, splitLines_cons (Ne.symm h.1), hsplit]
      · rfl
      · intro hp t ht
        cases line with
        | nil => exact hreturn ⟨hp, rfl⟩
        | cons q line => exact h.2 ((List.cons.inj ht).1 ▸ List.mem_cons_self)

theorem word_eq {line line' : JsString} (h : line = line' ∨ line = line' ++ [.scalar '\r']) :
    word line = word line' := by
  rcases h with rfl | rfl
  · rfl
  · rw [word, trim_append (by decide)]
    rfl

theorem filter_trim_cons (line : JsString) (rest : List JsString) :
    ((line :: rest).map trim).filter (fun line => line ≠ []) =
      word line ++ (rest.map trim).filter fun line => line ≠ [] := by
  rw [List.map_cons, List.filter_cons, word]
  by_cases hline : trim line = []
  · simp [hline]
  · simp [hline]

theorem pathLines_of_notMem {line : JsString} (h : .scalar '\n' ∉ line) :
    pathLines line = word line := by
  rw [pathLines, splitLines_of_notMem h, filter_trim_cons]
  exact List.append_nil _

theorem pathLines_append {line rest : JsString} (h : .scalar '\n' ∉ line) :
    pathLines (line ++ .scalar '\n' :: rest) = word line ++ pathLines rest := by
  obtain ⟨line', hline, hsplit⟩ := splitLines_append rest h
  rw [pathLines, hsplit, filter_trim_cons, word_eq hline]
  rfl

/-- The lines of the path field are the words that it spells, however they are set. -/
theorem spells_iff {value : JsString} {words : List JsString} :
    Spells value words ↔ pathLines value = words := by
  constructor
  · intro h
    induction h with
    | last h => exact pathLines_of_notMem h
    | next h _ ih => rw [pathLines_append h, ih]
  · rintro rfl
    induction hlength : value.length using Nat.strongRecOn generalizing value with
    | ind k ih =>
      by_cases hmem : .scalar '\n' ∈ value
      · obtain ⟨line, rest, rfl, hline⟩ := List.eq_append_cons_of_mem hmem
        rw [pathLines_append hline]
        refine .next hline (ih rest.length ?_ rfl)
        rw [← hlength, List.length_append, List.length_cons]
        omega
      · rw [pathLines_of_notMem hmem]
        exact .last hmem

/-! ### What a form means -/

/-- The form spells the input. -/
def Spelled (form : FormValues) : Core.JobInput → Prop
  | .fibonacci n => trim form.n = ofText (decimal n)
  | .hashVerify hash preimage => trim form.hash = hash.toSdk ∧ trim form.preimage = preimage.toSdk
  | .merkleProof root leaf path index => trim form.root = root.toSdk ∧ trim form.leaf = leaf.toSdk ∧
      Spells form.proof (path.map Core.FeltHex.toSdk) ∧ trim form.index = ofText (decimal index)

theorem eq_of_fieldElement {s s' : JsString} (h : fieldElement (some (.str s)) = some s') : s' = s :=
  (Option.some.inj (Option.filter_eq_some_iff.mp h).1).symm

theorem eq_of_safeInteger {n n' : ℕ} (h : safeInteger (some (.num (.nat n))) = some n') :
    n' = n := by
  have h : safeNumber (.nat n) = some n' := h
  exact (Number.nat.inj (safeNumber_eq_some.mp h).1).symm

theorem eq_of_fieldElements : ∀ {ss ss' : List JsString},
    fieldElements (ss.map .str) = some ss' → ss' = ss
  | [], _, h => (Option.some.inj h).symm
  | s :: ss, ss', h => by
    rw [fieldElements, List.map_cons, List.mapM_cons] at h
    simp only [bind, Option.bind_eq_some_iff, pure, Option.some.injEq] at h
    obtain ⟨t, ht, ts, hts, rfl⟩ := h
    rw [eq_of_fieldElement ht, eq_of_fieldElements hts]

/-- The SDK changes nothing about an input that it accepts. -/
theorem eq_of_validateJobInput {input result : JobInput}
    (h : validateJobInput (some (inputJson input)) = .ok result) : result = input := by
  cases input with
  | fibonacci n =>
    change validateFibonacciInput [(js "type", .str (js "fibonacci")), (js "n", .num (.nat n))] = _ at h
    simp only [validateFibonacciInput, bind_eq_ok, rejectIf_eq_ok, orReject_eq_ok, pure_eq_ok,
      exists_unit] at h
    obtain ⟨-, n', hn, -, rfl⟩ := h
    have hn := eq_of_safeInteger hn
    rw [hn]
  | hashVerify hash preimage =>
    change validateHashInput [(js "type", .str (js "hash_verify")), (js "hash", .str hash),
      (js "preimage", .str preimage)] = _ at h
    simp only [validateHashInput, bind_eq_ok, rejectIf_eq_ok, orReject_eq_ok, pure_eq_ok,
      exists_unit] at h
    obtain ⟨-, hash', hhash, preimage', hpreimage, rfl⟩ := h
    have hhash := eq_of_fieldElement hhash
    have hpreimage := eq_of_fieldElement hpreimage
    rw [hhash, hpreimage]
  | merkleProof root leaf proof index =>
    change validateMerkleInput [(js "type", .str (js "merkle_proof")), (js "root", .str root),
      (js "leaf", .str leaf), (js "proof", .arr (proof.map .str)),
      (js "index", .num (.nat index))] = _ at h
    simp only [validateMerkleInput, bind_eq_ok, rejectIf_eq_ok, orReject_eq_ok, pure_eq_ok,
      exists_unit] at h
    obtain ⟨-, root', hroot, leaf', hleaf, path, hpath, -, proof', hproof, index', hindex, -, rfl⟩ := h
    have hroot := eq_of_fieldElement hroot
    have hleaf := eq_of_fieldElement hleaf
    obtain rfl : proof.map .str = path := Option.some.inj hpath
    have hproof := eq_of_fieldElements hproof
    have hindex := eq_of_safeInteger hindex
    rw [hroot, hleaf, hproof, hindex]

theorem service_of_formInput {form : FormValues} {service : Core.ServiceType} {input : JobInput}
    (h : formInput form service = .ok input) : serviceForInput input = service := by
  cases service with
  | hashVerify =>
    obtain rfl := Except.ok.inj h
    rfl
  | fibonacci | merkleProof =>
    simp only [formInput, bind_eq_ok, pure_eq_ok] at h
    obtain ⟨_, -, rfl⟩ := h
    rfl

theorem formInput_eq_ok {form : FormValues} {i : Core.JobInput} (hi : i.validate = .ok ()) :
    formInput form i.service = .ok i.toSdk ↔ Spelled form i := by
  have hbounds := Core.JobInput.validate_iff.mp hi
  cases i with
  | fibonacci n =>
    have hsafe : n ≤ maxSafeInteger := by
      have hbound : n ≤ 363 := hbounds
      rw [maxSafeInteger]
      omega
    change (parseInteger form.n "n" >>= _) = _ ↔ _
    simp only [bind_eq_ok, parseInteger_eq_ok, pure_eq_ok]
    constructor
    · rintro ⟨n', ⟨hn, -⟩, heq⟩
      cases heq
      exact hn
    · intro hn
      exact ⟨n, ⟨hn, hsafe⟩, rfl⟩
  | hashVerify hash preimage =>
    change pure _ = _ ↔ _
    rw [pure_eq_ok]
    exact ⟨fun heq => JobInput.hashVerify.inj heq, fun h => congrArg₂ JobInput.hashVerify h.1 h.2⟩
  | merkleProof root leaf path index =>
    obtain ⟨hdepth, hfits⟩ := hbounds
    have hsafe : index ≤ maxSafeInteger := by
      have hpow : 2 ^ path.length ≤ 2 ^ 32 := Nat.pow_le_pow_right (by decide) hdepth
      rw [maxSafeInteger]
      omega
    change (parseInteger form.index "Leaf index" >>= _) = _ ↔ _
    simp only [bind_eq_ok, parseInteger_eq_ok, pure_eq_ok]
    constructor
    · rintro ⟨index', ⟨hindex, -⟩, heq⟩
      obtain ⟨hroot, hleaf, hpath, rfl⟩ := JobInput.merkleProof.inj heq
      exact ⟨hroot, hleaf, spells_iff.mpr hpath, hindex⟩
    · rintro ⟨hroot, hleaf, hpath, hindex⟩
      refine ⟨index, ⟨hindex, hsafe⟩, ?_⟩
      rw [hroot, hleaf, spells_iff.mp hpath]
      rfl

/-- Whatever was typed: the form makes an input exactly when it spells one of its service within the
    bounds of `soul-core`, and then it makes this one. -/
theorem form_builds_iff {service : Core.ServiceType} {form : FormValues} {input : JobInput} :
    buildInput service form = .ok input ↔ ∃ i : Core.JobInput,
      i.service = service ∧ i.validate = .ok () ∧ i.toSdk = input ∧ Spelled form i := by
  rw [buildInput, bind_eq_ok]
  constructor
  · rintro ⟨made, hmade, hvalid⟩
    obtain ⟨i, hi, rfl⟩ := validateJobInput_sound hvalid
    obtain rfl := eq_of_validateJobInput hvalid
    have hservice : i.service = service :=
      (Core.service_toSdk i).symm.trans (service_of_formInput hmade)
    subst hservice
    exact ⟨i, rfl, hi, rfl, (formInput_eq_ok hi).mp hmade⟩
  · rintro ⟨i, rfl, hi, rfl, hspelled⟩
    refine ⟨i.toSdk, (formInput_eq_ok hi).mpr hspelled, ?_⟩
    rw [Core.inputJson_toSdk]
    exact validateJobInput_toJson hi

end SoulSociety.Web
