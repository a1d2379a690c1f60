import SoulSociety.Lib.Assoc
import SoulSociety.Protocol.ResultForm

/-! The request inside a result. Its `request` tag holds the signed request event as JSON, and either
    side reads that text with its own reader. `soul-core` finds the request in whatever
    `serde_json` and `nostr` read as it. The SDK finds it in the texts whose members are those of
    the event in some order. Both find it in the text that the provider writes. -/

namespace SoulSociety.Protocol
open Lib SoulSociety.Core

/-- The fields of the event that are hexadecimal strings of fixed lengths. -/
def HexForm (e : Event) : Prop :=
  isLowerHex e.id 64 = true ∧ isLowerHex e.pubkey 64 = true ∧ isLowerHex e.sig 128 = true

/-- Authentic events are of that form. -/
def HexFields (L : Libraries) : Prop := ∀ e, L.verify e = true → HexForm e

/-! ### The reader of `soul-core` -/

/-- `serde_json` reads the text as an object with exactly the seven members, in any order, and `nostr`
    reads the object as the event. -/
def NostrReads (L : Libraries) (embedded : Text) (e : Event) : Prop :=
  ∃ object, L.valueFromStr embedded = some (.obj object) ∧
    (object.map Prod.fst).Perm eventKeys ∧ L.eventFromValue (.obj object) = some e

/-- Seven members and every key: the keys are the seven. -/
theorem perm_eventKeys_iff {keys : List JsString} :
    ¬ (keys.length ≠ eventKeys.length ∨ ∃ k ∈ eventKeys, k ∉ keys) ↔ keys.Perm eventKeys := by
  simp only [not_or, not_not, not_exists, not_and]
  constructor
  · rintro ⟨hlen, hmem⟩
    have hsub := List.subperm_of_subset (by decide : eventKeys.Nodup) hmem
    exact (hsub.perm_of_length_le (Nat.le_of_eq hlen)).symm
  · intro h
    exact ⟨h.length_eq, fun k hk => h.mem_iff.mpr hk⟩

theorem parseEmbeddedRequestEvent_eq_ok {L : Libraries} {embedded : Text} {e : Event} :
    parseEmbeddedRequestEvent L embedded = .ok e ↔
      NostrReads L embedded e ∧ L.verify e = true := by
  simp only [parseEmbeddedRequestEvent, NostrReads, bind_eq_ok, orReject_eq_ok]
  constructor
  · rintro ⟨value, hvalue, h⟩
    split at h
    · rename_i object
      simp only [bind_eq_ok, rejectIf_eq_ok, orReject_eq_ok, pure_eq_ok, exists_unit, not_not] at h
      obtain ⟨hkeys, _, hevent, hverify, rfl⟩ := h
      rw [← List.length_map (f := Prod.fst), perm_eventKeys_iff] at hkeys
      exact ⟨⟨object, hvalue, hkeys, hevent⟩, hverify⟩
    · cases h
  · rintro ⟨⟨object, hvalue, hkeys, hevent⟩, hverify⟩
    refine ⟨_, hvalue, ?_⟩
    simp only [bind_eq_ok, rejectIf_eq_ok, orReject_eq_ok, pure_eq_ok, exists_unit, not_not]
    refine ⟨?_, e, hevent, hverify, rfl⟩
    rw [← List.length_map (f := Prod.fst), perm_eventKeys_iff]
    exact hkeys

/-- An authentic event is read in its text. -/
theorem nostrReads_eventText {L : Libraries} (hL : L.Lawful) {e : Event} (h : L.verify e = true) :
    NostrReads L (eventText e) e := hL.valueFromStr_eventText e h

theorem parseEmbeddedRequestEvent_eventText {L : Libraries} (hL : L.Lawful) {source : Event}
    (hsource : L.verify source = true) :
    parseEmbeddedRequestEvent L (eventText source) = .ok source :=
  parseEmbeddedRequestEvent_eq_ok.mpr ⟨nostrReads_eventText hL hsource, hsource⟩

/-! ### The reader of the SDK -/

/-- JavaScript reads the text as the document of the event, with the members in any order, and the
    hexadecimal fields are in lower case. -/
def Spells (embedded : Text) (e : Event) : Prop :=
  HexForm e ∧ ∃ ms ns, Json.parse (ofText embedded) = some (.obj ms) ∧ eventJson e = .obj ns ∧
    ms.Perm ns

/-- The text of an event spells it, if JavaScript can hold its numbers. -/
theorem spells_eventText {e : Event} (hcreated : e.created_at < 2 ^ 53) (hkind : e.kind < 2 ^ 53)
    (hhex : HexForm e) : Spells (eventText e) e :=
  ⟨hhex, _, _, Json.parse_stringify (plain_eventJson hcreated hkind), rfl, List.Perm.refl _⟩

/-! ### Tags as a document -/

/-- A decoder that undoes an encoder does so on every list. -/
theorem mapM_eq_some_iff {α β : Type} {decode : α → Option β} {encode : β → α} {p : β → Prop}
    (h : ∀ a b, decode a = some b ↔ a = encode b ∧ p b) : ∀ {as : List α} {bs : List β},
    as.mapM decode = some bs ↔ as = bs.map encode ∧ ∀ b ∈ bs, p b
  | [], bs => by
    rw [List.mapM_nil, Option.pure_def, Option.some.injEq, eq_comm (a := []) (b := bs.map _),
      List.map_eq_nil_iff, eq_comm]
    constructor
    · rintro rfl
      simp
    · exact fun h => h.1
  | a :: as, bs => by
    simp only [List.mapM_cons, Option.bind_eq_bind, Option.bind_eq_some_iff, Option.pure_def,
      Option.some.injEq, h, mapM_eq_some_iff h]
    constructor
    · rintro ⟨b, ⟨rfl, hb⟩, bs, ⟨rfl, hbs⟩, rfl⟩
      exact ⟨rfl, List.forall_mem_cons.mpr ⟨hb, hbs⟩⟩
    · rintro ⟨heq, hok⟩
      cases bs with
      | nil => cases heq
      | cons b bs =>
        obtain ⟨rfl, rfl⟩ := List.cons.inj heq
        obtain ⟨hb, hbs⟩ := List.forall_mem_cons.mp hok
        exact ⟨b, ⟨rfl, hb⟩, bs, ⟨rfl, hbs⟩, rfl⟩

/-- One tag is an array of strings, at least one. -/
theorem parseTag_eq_some {v : Json} {tag : List JsString} :
    (Sdk.asArray (some v)).bind (fun parts =>
        if parts.length > 0 then parts.mapM fun part => Sdk.asString (some part) else none) =
      some tag ↔ v = .arr (tag.map .str) ∧ tag ≠ [] := by
  have hparts : ∀ {parts : List Json}, (parts.mapM fun part => Sdk.asString (some part)) = some tag ↔
      parts = tag.map .str ∧ ∀ s ∈ tag, True :=
    mapM_eq_some_iff (p := fun _ => True) fun part s => by
      rw [Sdk.asString_eq_some, Option.some.injEq, and_true]
  simp only [Option.bind_eq_some_iff, Sdk.asArray_eq_some, Option.some.injEq,
    Option.ite_none_right_eq_some, hparts, implies_true, and_true]
  constructor
  · rintro ⟨parts, rfl, hpos, rfl⟩
    rw [List.length_map] at hpos
    exact ⟨rfl, List.length_pos_iff.mp hpos⟩
  · rintro ⟨rfl, hne⟩
    exact ⟨_, rfl, by rw [List.length_map]; exact List.length_pos_iff.mpr hne, rfl⟩

/-- The decoder of tags takes exactly the documents of tags with names. -/
theorem parseTags_eq_some {v : Option Json} {tags : List (List JsString)} :
    Sdk.parseTags v = some tags ↔ v = some (tagsJson tags) ∧ ∀ tag ∈ tags, tag ≠ [] := by
  simp only [Sdk.parseTags, Option.bind_eq_some_iff, Sdk.asArray_eq_some,
    mapM_eq_some_iff fun v tag => parseTag_eq_some, tagsJson]
  constructor
  · rintro ⟨xs, rfl, rfl, hne⟩
    exact ⟨rfl, hne⟩
  · rintro ⟨rfl, hne⟩
    exact ⟨_, rfl, rfl, hne⟩

theorem elementsPaired_iff {xs : List Json} :
    Json.ElementsPaired xs ↔ ∀ x ∈ xs, x.StringsPaired := by
  induction xs with
  | nil => simp [Json.ElementsPaired]
  | cons x xs ih => rw [Json.ElementsPaired, ih, List.forall_mem_cons]

/-- The tags of a parsed document are well formed. -/
theorem tagsPaired_of_stringsPaired {tags : List (List JsString)}
    (h : (tagsJson tags).StringsPaired) : TagsPaired tags := by
  rw [tagsJson, Json.StringsPaired, elementsPaired_iff] at h
  intro tag htag s hs
  have harr := h _ (List.mem_map_of_mem htag)
  rw [Json.StringsPaired, elementsPaired_iff] at harr
  exact harr _ (List.mem_map_of_mem hs)

theorem canonicalTags_ne_nil {c : JobRequestContent} {bid : Option ℕ} :
    ∀ tag ∈ tagsToSdk (canonicalTags c bid), tag ≠ [] := by
  obtain ⟨_, _, _, expires_at⟩ := c
  cases expires_at <;> cases bid <;> simp [tagsToSdk, canonicalTags]

/-! ### The texts that the SDK takes -/

/-- The object has the members of the event, each in its form, and the signature holds. -/
structure SdkReads (P : Sdk.Platform) (ms : List (JsString × Json)) (e : Sdk.Event) : Prop where
  keys : (ms.map Prod.fst).Perm Sdk.embeddedKeys
  id : ms.lookup (Sdk.js "id") = some (.str e.id) ∧ Sdk.isHex64 e.id = true
  pubkey : ms.lookup (Sdk.js "pubkey") = some (.str e.pubkey) ∧ Sdk.isHex64 e.pubkey = true
  sig : ms.lookup (Sdk.js "sig") = some (.str e.sig) ∧ Sdk.isHexString 128 e.sig = true
  created_at : ∃ n, e.created_at = .nat n ∧
    ms.lookup (Sdk.js "created_at") = some (jsonNat n) ∧ n ≤ maxSafeInteger
  kind : ∃ n, e.kind = .nat n ∧ ms.lookup (Sdk.js "kind") = some (jsonNat n) ∧ n ≤ maxSafeInteger
  content : ms.lookup (Sdk.js "content") = some (.str e.content)
  tags : ms.lookup (Sdk.js "tags") = some (tagsJson e.tags) ∧ ∀ tag ∈ e.tags, tag ≠ []
  authentic : P.verifyEvent e = true

theorem parseEmbeddedEvent_eq_ok {P : Sdk.Platform} {serialized : JsString} {e : Sdk.Event} :
    Sdk.parseEmbeddedEvent P serialized = .ok e ↔
      ∃ ms, Json.parse serialized = some (.obj ms) ∧ SdkReads P ms e := by
  simp only [Sdk.parseEmbeddedEvent, Sdk.hasExactKeys, bind_eq_ok, rejectIf_eq_ok, orReject_eq_ok,
    pure_eq_ok, exists_unit, not_not, Sdk.plainRecord_eq_some, Sdk.hex64_eq_some,
    Sdk.asString_eq_some, Sdk.safeInteger_eq_some, parseTags_eq_some, List.isPerm_iff]
  constructor
  · rintro ⟨doc, hdoc, ms, hms, hkeys, id, hid, pubkey, hpubkey, sig, hsig, hsigHex, created, hcreated,
      kind, hkind, content, hcontent, tags, htags, hverify, rfl⟩
    obtain rfl := Option.some.inj hms
    exact ⟨ms, hdoc, hkeys, hid, hpubkey, ⟨hsig, hsigHex⟩, ⟨created, rfl, hcreated⟩,
      ⟨kind, rfl, hkind⟩, hcontent, htags, hverify⟩
  · rintro ⟨ms, hdoc, h⟩
    obtain ⟨id, pubkey, _, _, tags, content, sig⟩ := e
    obtain ⟨created, ⟨⟩, hcreated⟩ := h.created_at
    obtain ⟨kind, ⟨⟩, hkind⟩ := h.kind
    exact ⟨_, hdoc, ms, rfl, h.keys, id, h.id, pubkey, h.pubkey, sig, h.sig.1, h.sig.2, created,
      hcreated, kind, hkind, content, h.content, tags, h.tags, h.authentic, rfl⟩

/-- The SDK finds an accepted request in exactly the texts that spell it. -/
theorem readsRequest_iff {P : Sdk.Platform} {source : Event} {q : JobRequestContent}
    {bid : Option ℕ} {now : ℕ} (hclock : now < 2 ^ 53 - 4000)
    (hform : RequestForm source now q bid) (hverify : P.verifyEvent source.toSdk = true)
    {embedded : Text} : ReadsRequest P embedded source.toSdk ↔ Spells embedded source := by
  obtain ⟨hcreated, hkind⟩ := safe_of_requestForm hclock hform
  have hevent : source.toSdk = ⟨ofText source.id, ofText source.pubkey, .nat source.created_at,
      .nat source.kind, tagsToSdk source.tags, ofText source.content, ofText source.sig⟩ := by
    rw [Event.toSdk, (natToSdk_eq_nat hcreated).mpr rfl, (natToSdk_eq_nat hkind).mpr rfl]
  have hnodup : eventKeys.Nodup := by decide
  constructor
  · rintro ⟨read, hread, hsame⟩
    obtain ⟨ms, hdoc, h⟩ := parseEmbeddedEvent_eq_ok.mp hread
    have hpaired : TagsPaired read.tags :=
      tagsPaired_of_stringsPaired ((Json.stringsPaired_of_parse hdoc).lookup h.tags.1)
    obtain ⟨id, pubkey, _, _, tags, content, sig⟩ := read
    rw [hevent] at hsame
    simp only [Sdk.assertSameEvent, rejectIf_eq_ok, not_or, not_not] at hsame
    obtain ⟨rfl, rfl, rfl, rfl, rfl, rfl, hstring⟩ := hsame
    obtain rfl := (stringifyTags_inj hpaired (tagsPaired_ofText _)).mp hstring
    obtain ⟨_, ⟨⟩, hc, -⟩ := h.created_at
    obtain ⟨_, ⟨⟩, hk, -⟩ := h.kind
    have hhex : HexForm source := ⟨(Sdk.isHexString_ofText 64 source.id).symm.trans h.id.2,
      (Sdk.isHexString_ofText 64 source.pubkey).symm.trans h.pubkey.2,
      (Sdk.isHexString_ofText 128 source.sig).symm.trans h.sig.2⟩
    refine ⟨hhex, ms, _, hdoc, rfl, perm_of_lookup hnodup h.keys ?_⟩
    simp only [List.forall_mem_cons]
    exact ⟨h.id.1, h.pubkey.1, hc, hk, h.tags.1, h.content, h.sig.1, by simp⟩
  · rintro ⟨⟨hid, hpubkey, hsig⟩, ms, ns, hdoc, hns, hperm⟩
    have hkeys : (ns.map Prod.fst).Nodup := by
      obtain rfl := Json.obj.inj hns
      exact hnodup
    have hlookup := lookup_of_perm hkeys hperm
    obtain rfl := Json.obj.inj hns
    have hle : ∀ {n : ℕ}, n < 2 ^ 53 → n ≤ maxSafeInteger := fun h => by
      rw [maxSafeInteger]; omega
    refine ⟨source.toSdk, parseEmbeddedEvent_eq_ok.mpr ⟨ms, hdoc, ?_⟩, by simp [Sdk.assertSameEvent]⟩
    exact {
      keys := hperm.map Prod.fst
      id := ⟨hlookup _, (Sdk.isHexString_ofText 64 source.id).trans hid⟩
      pubkey := ⟨hlookup _, (Sdk.isHexString_ofText 64 source.pubkey).trans hpubkey⟩
      sig := ⟨hlookup _, (Sdk.isHexString_ofText 128 source.sig).trans hsig⟩
      created_at := ⟨_, (natToSdk_eq_nat hcreated).mpr rfl, hlookup _, hle hcreated⟩
      kind := ⟨_, (natToSdk_eq_nat hkind).mpr rfl, hlookup _, hle hkind⟩
      content := hlookup _
      tags := by
        refine ⟨hlookup _, ?_⟩
        change ∀ tag ∈ tagsToSdk source.tags, tag ≠ []
        rw [hform.tags]
        exact canonicalTags_ne_nil
      authentic := hverify }

end SoulSociety.Protocol
