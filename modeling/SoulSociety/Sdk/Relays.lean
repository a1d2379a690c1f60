import Mathlib.Data.List.Nodup
import SoulSociety.Lib.Normalizer
import SoulSociety.Sdk.Validation

/-! Relay URLs (`soul-sdk/src/transport.ts`). Normalizing takes the slash of an empty path off the
    serialized URL by cutting its last character. The getters of `URL` do not tell an absent query or
    fragment from an empty one, and where an empty one stands the last character is its delimiter. -/

namespace SoulSociety.Sdk
open Lib SoulSociety.Core

/-- White space and line terminators of the language. -/
def isTrimmed : CodePoint → Bool
  | .scalar c => c.toNat ∈ [0x9, 0xa, 0xb, 0xc, 0xd, 0x20, 0xa0, 0x1680, 0x2028, 0x2029, 0x202f, 0x205f,
      0x3000, 0xfeff] || (0x2000 ≤ c.toNat && c.toNat ≤ 0x200a)
  | .lone _ => false

/-- `value.trim()`. -/
def trim (value : JsString) : JsString :=
  ((value.dropWhile isTrimmed).reverse.dropWhile isTrimmed).reverse

def isLocalHostname (hostname : Text) : Bool :=
  hostname = text "localhost" || (text ".localhost").isSuffixOf hostname ||
    hostname = text "127.0.0.1" || hostname = text "[::1]"

/-- The URLs that `validateRelayUrl` admits. -/
def relayAllowed (url : Url) : Bool :=
  (url.protocol = text "wss:" || (url.protocol = text "ws:" && isLocalHostname url.hostname)) &&
    url.hostname ≠ [] && url.username = [] && url.passwordText = [] && url.hash = []

/-- `slice(0, -1)` cuts a slash, a question mark or a number sign here: one code unit. -/
def relayText (url : Url) : Text :=
  if url.path = ['/'] ∧ url.search = [] then url.href.dropLast else url.href

variable (parseUrl : Text → Option Url)

def validateRelayUrl (value : JsString) : Except JsError JsString := do
  let url ← orReject (parseUrl (toUsv value)) (.other (js "Invalid relay URL: " ++ value))
  rejectIf (¬ relayAllowed url)
    (.other (js "Relays must use wss://, except ws:// on the local development host."))
  return ofText (relayText url)

def normalizeRelays (values : List JsString) : Except JsError (List JsString) := do
  let relays ← normalizeAll (fun value => validateRelayUrl parseUrl (trim value)) values
  rejectIf (relays.length = 0) (.other (js "At least one Nostr relay is required."))
  return relays

variable {parseUrl} {value relay : JsString} {u : Url}

/-! ### One relay -/

theorem trim_ofText {t : Text} (h : ∀ c ∈ t, '!' ≤ c ∧ c ≤ '~') : trim (ofText t) = ofText t := by
  have hkeep : ∀ s : JsString, (∀ p ∈ s, isTrimmed p = false) → s.dropWhile isTrimmed = s := by
    intro s hs
    cases s with
    | nil => rfl
    | cons p s => rw [List.dropWhile_cons_of_neg (by simp [hs p List.mem_cons_self])]
  have hall : ∀ p ∈ ofText t, isTrimmed p = false := by
    intro p hp
    obtain ⟨c, hc, rfl⟩ := List.mem_map.mp hp
    obtain ⟨hlo, hhi⟩ := h c hc
    have hlo : 0x21 ≤ c.toNat := hlo
    have hhi : c.toNat ≤ 0x7e := hhi
    simp only [isTrimmed, List.mem_cons, List.not_mem_nil]
    simp
    omega
  rw [trim, hkeep _ hall, hkeep _ (by simpa using hall), List.reverse_reverse]

theorem validateRelayUrl_eq_ok :
    validateRelayUrl parseUrl value = .ok relay ↔
      ∃ u, parseUrl (toUsv value) = some u ∧ relayAllowed u = true ∧ ofText (relayText u) = relay := by
  simp only [validateRelayUrl, bind_eq_ok, orReject_eq_ok, rejectIf_eq_ok, exists_unit, not_not,
    pure_eq_ok]

theorem isWebSocket_of_allowed (h : relayAllowed u = true) : u.isWebSocket = true := by
  simp only [relayAllowed, Bool.and_eq_true, Bool.or_eq_true, decide_eq_true_eq] at h
  obtain ⟨⟨⟨⟨hscheme, -⟩, -⟩, -⟩, -⟩ := h
  have hsplit (s : Text) (hs : u.scheme ++ [':'] = s ++ [':']) : u.scheme = s :=
    List.append_cancel_right hs
  rw [Url.isWebSocket, Bool.or_eq_true, decide_eq_true_eq, decide_eq_true_eq]
  rcases hscheme with hwss | ⟨hws, -⟩
  · exact .inr (hsplit _ hwss)
  · exact .inl (hsplit _ hws)

theorem hash_of_allowed (h : relayAllowed u = true) : u.hash = [] := by
  simp only [relayAllowed, Bool.and_eq_true, decide_eq_true_eq] at h
  exact h.2

/-- What is asked of a URL is asked of its getters. -/
theorem allowed_withoutFragment (h : relayAllowed u = true) :
    relayAllowed { u with fragment := none } = true := by
  simp only [relayAllowed, Bool.and_eq_true] at h ⊢
  exact ⟨h.1, rfl⟩

theorem allowed_withoutQuery (h : relayAllowed u = true) :
    relayAllowed { u with query := none } = true := h

theorem relayText_subset : relayText u ⊆ u.href := by
  rw [relayText]
  split
  · exact List.dropLast_subset _
  · exact List.Subset.refl _

/-- A relay that was normalized before has no white space to trim. -/
theorem trim_relayText (hP : Url.Standard parseUrl) (hparse : parseUrl t = some u)
    (h : relayAllowed u = true) : trim (ofText (relayText u)) = ofText (relayText u) :=
  trim_ofText fun c hc => hP.printable hparse (isWebSocket_of_allowed h) c (relayText_subset hc)

/-- The URL whose normal form cuts a delimiter instead of the slash. -/
def Cut (u : Url) : Prop := u.path = ['/'] ∧ u.Dangling

instance (u : Url) : Decidable (Cut u) := by
  unfold Cut
  infer_instance

theorem fixed_of_not_cut (hP : Url.Standard parseUrl) (hparse : parseUrl t = some u)
    (h : relayAllowed u = true) (hcut : ¬ Cut u) :
    validateRelayUrl parseUrl (trim (ofText (relayText u))) = .ok (ofText (relayText u)) := by
  have hsocket := isWebSocket_of_allowed h
  have hback : parseUrl (relayText u) = some u := by
    by_cases hroot : u.path = ['/'] ∧ u.search = []
    · -- neither delimiter stands at the end, so the character that is cut is the slash
      obtain ⟨hpath, hsearch⟩ := hroot
      have hneither : ¬ (u.query.isSome ∨ u.fragment.isSome) := fun hsome =>
        hcut ⟨hpath, hsearch, hash_of_allowed h, hsome⟩
      have hquery : u.query = none := by simpa using fun hs => hneither (.inl hs)
      have hfragment : u.fragment = none := by simpa using fun hs => hneither (.inr hs)
      have hhref : u.href = u.authority ++ ['/'] := by
        simp [Url.href, hpath, hquery, hfragment, Url.component]
      rw [relayText, if_pos ⟨hpath, hsearch⟩, hhref, List.dropLast_concat]
      exact hP.emptyPath hparse hsocket hpath hquery hfragment
    · rw [relayText, if_neg hroot]
      exact hP.reparse hparse hsocket
  rw [trim_relayText hP hparse h]
  exact validateRelayUrl_eq_ok.mpr ⟨u, by rw [toUsv_ofText, hback], h, rfl⟩

/-- The text that is left when a delimiter was cut is the serialization of a URL with the slash. -/
theorem cut_leaves (hP : Url.Standard parseUrl) (hparse : parseUrl t = some u)
    (h : relayAllowed u = true) (hcut : Cut u) :
    ∃ w, relayText u = w.href ∧ parseUrl w.href = some w ∧ relayAllowed w = true ∧
      w.path = ['/'] ∧ w.search = [] := by
  obtain ⟨hpath, hsearch, hhash, hsome⟩ := hcut
  have hsocket := isWebSocket_of_allowed h
  rw [relayText, if_pos ⟨hpath, hsearch⟩]
  rcases Url.delimited_eq_nil.mp hhash with hfragment | hfragment
  · have hquery : u.query = some [] := by
      rcases Url.delimited_eq_nil.mp hsearch with hnone | hempty
      · simp [hnone, hfragment] at hsome
      · exact hempty
    refine ⟨{ u with query := none }, ?_, hP.withoutQuery hparse hsocket, allowed_withoutQuery h,
      hpath, rfl⟩
    have hhref : u.href = Url.href { u with query := none } ++ ['?'] := by
      rw [Url.href_withoutQuery, Url.href, hquery, hfragment]
      simp [Url.component]
    rw [hhref, List.dropLast_concat]
  · refine ⟨{ u with fragment := none }, ?_, hP.withoutFragment hparse hsocket,
      allowed_withoutFragment h, hpath, hsearch⟩
    have hhref : u.href = Url.href { u with fragment := none } ++ ['#'] := by
      rw [Url.href_withoutFragment, Url.href, hfragment]
      simp [Url.component]
    rw [hhref, List.dropLast_concat]

theorem not_fixed_of_cut (hP : Url.Standard parseUrl) (hparse : parseUrl t = some u)
    (h : relayAllowed u = true) (hcut : Cut u) :
    validateRelayUrl parseUrl (trim (ofText (relayText u))) ≠ .ok (ofText (relayText u)) := by
  obtain ⟨w, htext, hback, hallowed, hpath, hsearch⟩ := cut_leaves hP hparse h hcut
  rw [trim_relayText hP hparse h, htext]
  intro hfixed
  obtain ⟨w', hw', -, heq⟩ := validateRelayUrl_eq_ok.mp hfixed
  rw [toUsv_ofText, hback] at hw'
  obtain rfl := Option.some.inj hw'
  have hlength := congrArg List.length (ofText_injective heq)
  rw [relayText, if_pos ⟨hpath, hsearch⟩, List.length_dropLast] at hlength
  have hpos : 0 < w.href.length := by
    simp only [Url.href, hpath, List.length_append, List.length_singleton]
    omega
  omega

/-! ### A list of relays -/

theorem normalizeRelays_eq_ok {values relays : List JsString} :
    normalizeRelays parseUrl values = .ok relays ↔
      normalizeAll (fun value => validateRelayUrl parseUrl (trim value)) values = .ok relays ∧
        relays ≠ [] := by
  simp only [normalizeRelays, bind_eq_ok, rejectIf_eq_ok, exists_unit, pure_eq_ok,
    List.length_eq_zero_iff]
  constructor
  · rintro ⟨_, h, hne, rfl⟩
    exact ⟨h, hne⟩
  · rintro ⟨h, hne⟩
    exact ⟨_, h, hne, rfl⟩

/-- Normalizing is idempotent and tells all entries apart exactly when no relay has an empty path with
    the delimiter of an empty query or fragment behind it. -/
theorem normalizeRelays_idempotent_iff {values relays : List JsString} (hP : Url.Standard parseUrl)
    (h : normalizeRelays parseUrl values = .ok relays) :
    (normalizeRelays parseUrl relays = .ok relays ∧
        (relays.map fun relay => validateRelayUrl parseUrl (trim relay)).Nodup) ↔
      ∀ value ∈ values, ∀ u, parseUrl (toUsv (trim value)) = some u → ¬ Cut u := by
  obtain ⟨hall, hne⟩ := normalizeRelays_eq_ok.mp h
  have hnodup := nodup_of_normalizeAll hall
  have hfixed : (∀ relay ∈ relays, validateRelayUrl parseUrl (trim relay) = .ok relay) ↔
      ∀ value ∈ values, ∀ u, parseUrl (toUsv (trim value)) = some u → ¬ Cut u := by
    constructor
    · intro hfix value hvalue u hparse hcut
      obtain ⟨relay, hrelay, hvalid⟩ := normalized_of_mem hall hvalue
      obtain ⟨u', hu', hallowed, rfl⟩ := validateRelayUrl_eq_ok.mp hvalid
      obtain rfl := Option.some.inj (hparse.symm.trans hu')
      exact not_fixed_of_cut hP hparse hallowed hcut (hfix _ hrelay)
    · intro hfree relay hrelay
      obtain ⟨value, hvalue, hvalid⟩ := (mem_of_normalizeAll hall).mp hrelay
      obtain ⟨u, hparse, hallowed, rfl⟩ := validateRelayUrl_eq_ok.mp hvalid
      exact fixed_of_not_cut hP hparse hallowed (hfree value hvalue u hparse)
  rw [← hfixed]
  constructor
  · rintro ⟨hsame, -⟩
    exact (normalizeAll_eq_self_iff hnodup).mp (normalizeRelays_eq_ok.mp hsame).1
  · intro hfix
    refine ⟨normalizeRelays_eq_ok.mpr ⟨(normalizeAll_eq_self_iff hnodup).mpr hfix, hne⟩, ?_⟩
    rw [List.map_congr_left hfix]
    exact List.Nodup.map (fun _ _ => Except.ok.inj) hnodup

/-! ### Two spellings of one relay -/

/-- A relay with an empty path. -/
def exampleRelay (query fragment : Option Text) : Url :=
  ⟨text "wss", [], none, some (.domain (text "relay.example")), none, text "/", query, fragment⟩

def exampleRelays : List Url :=
  [exampleRelay none none, exampleRelay (some []) none, exampleRelay none (some []),
    exampleRelay (some []) (some [])]

/-- The parser, on the URLs of this relay. -/
def exampleParseUrl (t : Text) : Option Url :=
  if t = text "wss://relay.example" then some (exampleRelay none none)
  else exampleRelays.find? fun u => u.href = t

theorem exampleParseUrl_mem {t : Text} {u : Url} (h : exampleParseUrl t = some u) :
    u ∈ exampleRelays := by
  rw [exampleParseUrl] at h
  split at h
  · obtain rfl := Option.some.inj h
    exact List.mem_cons_self
  · exact List.mem_of_find?_eq_some h

theorem exampleParseUrl_standard : Url.Standard exampleParseUrl where
  printable h _ := by
    have hall : ∀ u ∈ exampleRelays, u.href.all (fun c => '!' ≤ c && c ≤ '~') = true := by
      decide +kernel
    simpa using hall _ (exampleParseUrl_mem h)
  reparse h _ := by
    have hall : ∀ u ∈ exampleRelays, exampleParseUrl u.href = some u := by decide +kernel
    exact hall _ (exampleParseUrl_mem h)
  withoutQuery h _ := by
    have hall : ∀ u ∈ exampleRelays, exampleParseUrl { u with query := none }.href =
        some { u with query := none } := by decide +kernel
    exact hall _ (exampleParseUrl_mem h)
  withoutFragment h _ := by
    have hall : ∀ u ∈ exampleRelays, exampleParseUrl { u with fragment := none }.href =
        some { u with fragment := none } := by decide +kernel
    exact hall _ (exampleParseUrl_mem h)
  emptyPath h _ := by
    have hall : ∀ u ∈ exampleRelays, u.path = ['/'] → u.query = none → u.fragment = none →
        exampleParseUrl u.authority = some u := by decide +kernel
    exact hall _ (exampleParseUrl_mem h)

/-- The question mark is cut and the slash stays, so the same relay is listed twice, and normalizing
    again drops one. -/
theorem empty_query_kept_apart :
    Url.Standard exampleParseUrl ∧
      normalizeRelays exampleParseUrl [js "wss://relay.example/?", js "wss://relay.example"] =
        .ok [js "wss://relay.example/", js "wss://relay.example"] ∧
      normalizeRelays exampleParseUrl [js "wss://relay.example/", js "wss://relay.example"] =
        .ok [js "wss://relay.example"] :=
  ⟨exampleParseUrl_standard, by decide +kernel, by decide +kernel⟩

/-- Without the delimiter the two spellings are one relay. -/
theorem slash_normalizes :
    normalizeRelays exampleParseUrl [js "wss://relay.example"] = .ok [js "wss://relay.example"] ∧
      ([js "wss://relay.example"].map fun relay =>
        validateRelayUrl exampleParseUrl (trim relay)).Nodup := by
  have hnormal : normalizeRelays exampleParseUrl
      [js "wss://relay.example/", js " wss://relay.example"] = .ok [js "wss://relay.example"] := by
    decide +kernel
  exact (normalizeRelays_idempotent_iff exampleParseUrl_standard hnormal).mpr (by decide +kernel)

end SoulSociety.Sdk
