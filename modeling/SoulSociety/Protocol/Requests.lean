import SoulSociety.Core.Documents
import SoulSociety.Core.RequestCodec
import SoulSociety.Sdk.Decoders

/-! One request protocol in two languages. `parse_request_event` and `validateRequestEvent` accept
    the same events, those of `RequestForm`: every spelling that only one of the two JSON readers
    or integer parsers would take is not the canonical encoding of what it was read as, and both
    sides compare against that encoding. -/

namespace SoulSociety.Protocol
open Lib SoulSociety.Core

/-- The two Nostr libraries agree on authenticity, as long as both can hold the event: from `2 ^ 53` on
    JavaScript does not tell integers apart. -/
def AuthenticityAgrees (L : Libraries) (P : Sdk.Platform) : Prop :=
  ∀ e : Event, e.created_at < 2 ^ 53 → e.kind < 2 ^ 53 → L.verify e = P.verifyEvent e.toSdk

/-! ### Numbers and kinds -/

theorem safeNumber_natToSdk {n m : ℕ} :
    Sdk.safeNumber (natToSdk n) = some m ↔ n ≤ maxSafeInteger ∧ m = n := by
  rw [Sdk.safeNumber_eq_some, natToSdk, maxSafeInteger]
  split
  · rw [Number.nat.injEq]; omega
  · simp only [reduceCtorEq, false_and, false_iff]; omega

theorem natToSdk_eq_nat {n m : ℕ} (hm : m < 2 ^ 53) : natToSdk n = .nat m ↔ n = m := by
  rw [natToSdk]
  split
  · rw [Number.nat.injEq]
  · simp only [reduceCtorEq, false_iff]; omega

theorem getRequestKind_eq : ∀ s : ServiceType, Sdk.getRequestKind s = s.requestKind
  | .fibonacci | .hashVerify | .merkleProof => rfl

theorem getResultKind_eq : ∀ s : ServiceType, Sdk.getResultKind s = s.resultKind
  | .fibonacci | .hashVerify | .merkleProof => rfl

theorem request_kind_iff {kind : ℕ} {s : ServiceType} :
    Sdk.serviceFromKind (natToSdk kind) = some s ∧ natToSdk kind = .nat (Sdk.getRequestKind s) ↔
      kind = s.requestKind := by
  have hlt : Sdk.getRequestKind s < 2 ^ 53 := by cases s <;> decide
  rw [natToSdk_eq_nat hlt, getRequestKind_eq]
  constructor
  · exact fun h => h.2
  · rintro rfl
    refine ⟨?_, rfl⟩
    cases s <;> decide

/-! ### Tags -/

/-- `JSON.stringify` tells tag arrays apart. -/
theorem stringifyTags_inj {a b : List (List JsString)} (ha : TagsPaired a) (hb : TagsPaired b) :
    Sdk.stringifyTags a = Sdk.stringifyTags b ↔ a = b := by
  constructor
  · intro h
    exact tagsJson_injective (Json.stringify_inj (plain_tagsJson ha) (plain_tagsJson hb) h)
  · rintro rfl; rfl

/-- The SDK builds the tags that `request_tags` builds. -/
theorem requestTags_toSdk {c : JobRequestContent} (hc : c = .new c.input c.expires_at)
    {bid : Option ℕ} {tags : List (List JsString)} :
    Sdk.requestTags c.toSdk bid = .ok tags ↔ BidOk bid ∧ tags = tagsToSdk (canonicalTags c bid) := by
  have hserial : Sdk.serializeRequestContent c.toSdk = c.canonicalJson := by
    rw [hc]; exact serializeRequestContent_toSdk c.input c.expires_at
  simp only [Sdk.requestTags, bind_eq_ok, rejectIf_eq_ok, bid_exceeds_iff, not_not, exists_unit,
    pure_eq_ok, hserial]
  refine and_congr_right fun _ => ?_
  have htags : tagsToSdk (canonicalTags c bid) =
      [[Sdk.js "i", ofText c.canonicalJson, Sdk.js "text"],
        [Sdk.js "protocol", ofText soulWireProtocol],
        [Sdk.js "service", Sdk.serviceValue c.toSdk.service], [Sdk.js "t", ofText topic]] ++
      (c.toSdk.expires_at.map fun e => [Sdk.js "expiration", ofText (decimal e)]).toList ++
      (bid.map fun b => [Sdk.js "bid", ofText (decimal b)]).toList := by
    rw [serviceValue_eq]
    obtain ⟨_, _, _, expires_at⟩ := c
    cases expires_at <;> cases bid <;> rfl
  rw [htags]
  exact eq_comm

theorem isDecimalLiteral_decimal (n : ℕ) : Sdk.isDecimalLiteral (ofText (decimal n)) = true := by
  have hall : ∀ c ∈ decimal n, c.isDigit = true := fun c hc => isDigit_of_mem_decimal hc
  cases hd : decimal n with
  | nil => exact absurd hd (decimal_ne_nil n)
  | cons d ds =>
    rw [hd] at hall
    by_cases hzero : d = '0'
    · subst hzero
      rw [decimal_eq_zero_cons hd]
      rfl
    · rw [ofText_cons, Sdk.isDecimalLiteral.eq_def]
      split
      · rename_i heq
        exact absurd (CodePoint.scalar.inj (List.cons.inj heq).1) hzero
      · rename_i c rest _ heq
        obtain ⟨hc, rfl⟩ := List.cons.inj heq
        cases hc
        rw [Bool.and_eq_true, Bool.and_eq_true, List.all_eq_true]
        refine ⟨⟨hall d (List.mem_cons_self ..), by simpa using hzero⟩, ?_⟩
        intro p hp
        obtain ⟨c, hc, rfl⟩ := List.mem_map.mp hp
        exact hall c (List.mem_cons_of_mem _ hc)
      · rename_i h
        exact (h d _ rfl).elim

/-- The bid of a canonical request reads back. -/
theorem readBid_canonicalTags {c : JobRequestContent} {bid : Option ℕ} (h : BidOk bid) :
    Sdk.readBid (tagsToSdk (canonicalTags c bid)) = .ok bid := by
  have hfilter : ((tagsToSdk (canonicalTags c bid)).filter fun tag =>
      tag.head? = some (Sdk.js "bid")) =
        (bid.map fun b => [Sdk.js "bid", ofText (decimal b)]).toList := by
    obtain ⟨_, _, _, expires_at⟩ := c
    cases expires_at <;> cases bid <;> rfl
  rw [Sdk.readBid, hfilter]
  cases bid with
  | none => rfl
  | some b =>
    have hb := h b rfl
    have hval : Nat.ofDigitChars 10 (decimal b) 0 = b := Nat.ofDigitChars_ten_toDigits
    have hnum : Sdk.numberOfDigits (ofText (decimal b)) = .nat b := by
      rw [maxSafeInteger] at hb
      rw [Sdk.numberOfDigits, toUsv_ofText, hval, readNumber_nat (by omega)]
    refine bind_eq_ok.mpr ⟨⟨⟩, rejectIf_eq_ok.mpr ?_, bind_eq_ok.mpr ⟨b, ?_, rfl⟩⟩
    · simp [isDecimalLiteral_decimal]
    · exact orReject_eq_ok.mpr (Sdk.safeNumber_eq_some.mpr ⟨hnum, hb⟩)

/-! ### Content -/

/-- The content of a request of the form is a document that JavaScript reads back. -/
theorem plain_requestContent {c : JobRequestContent} {created_at now : ℕ}
    (hnow : created_at ≤ now + maxFutureSkewSecs) (hclock : now < 2 ^ 53 - 4000)
    (h : c.validate created_at now = .ok ()) : c.toJson.Plain := by
  obtain ⟨-, hinput, hexpiry⟩ := JobRequestContent.validate_iff.mp h
  refine JobRequestContent.plain ⟨JobInput.numbers_of_valid ?_ hinput, ?_⟩
  · intro n hn
    exact show n < 2 ^ 53 by omega
  · intro e he
    obtain ⟨-, -, httl⟩ := hexpiry e he
    rw [maxRequestTtlSecs] at httl
    rw [maxFutureSkewSecs] at hnow
    exact show e < 2 ^ 53 by omega

/-! ### The two validators -/

/-- JavaScript can hold an event of the form. -/
theorem safe_of_requestForm {event : Event} {now : ℕ} (hclock : now < 2 ^ 53 - 4000)
    {c : JobRequestContent} {bid : Option ℕ} (h : RequestForm event now c bid) :
    event.created_at < 2 ^ 53 ∧ event.kind < 2 ^ 53 := by
  have hfuture := h.notFuture
  rw [saturatingAdd_eq hclock, maxFutureSkewSecs] at hfuture
  refine ⟨by omega, ?_⟩
  rw [h.kind]
  cases c.service <;> decide

/-- `validateRequestEvent` accepts exactly the authentic events of the form. -/
theorem validateRequestEvent_eq_ok {P : Sdk.Platform} {event : Event} {now : ℕ}
    (hclock : now < 2 ^ 53 - 4000) {v : Sdk.ValidatedRequest} :
    Sdk.validateRequestEvent P event.toSdk now = .ok v ↔ ∃ c bid,
      P.verifyEvent event.toSdk = true ∧ RequestForm event now c bid ∧
        v = ⟨event.toSdk, c.toSdk, ofText c.canonicalJson⟩ := by
  simp only [Sdk.validateRequestEvent, bind_eq_ok, rejectIf_eq_ok, orReject_eq_ok, pure_eq_ok,
    exists_unit, not_not, not_or]
  constructor
  · rintro ⟨hverify, service, hservice, hkind, hsize, created_at, hcreated, ⟨hfuture, hold⟩, doc, -,
      content, hparse, hsame, hcanon, bid, -, tags, htags, hstring, rfl⟩
    obtain ⟨hsafe, rfl⟩ := safeNumber_natToSdk.mp hcreated
    obtain ⟨c, hvalid, rfl⟩ := Sdk.parseRequestContent_sound hparse
    have hnew : c = .new c.input c.expires_at := (JobRequestContent.validate_iff.mp hvalid).1
    have hserial : Sdk.serializeRequestContent c.toSdk = c.canonicalJson := by
      rw [hnew]; exact serializeRequestContent_toSdk c.input c.expires_at
    obtain ⟨hbid, rfl⟩ := (requestTags_toSdk hnew).mp htags
    have htagsEq : event.tags = canonicalTags c bid :=
      tagsToSdk_injective ((stringifyTags_inj (tagsPaired_ofText _) (tagsPaired_ofText _)).mp
        hstring)
    rw [hserial] at hcanon
    refine ⟨c, bid, hverify, ⟨?_, ?_, ?_, ?_, Nat.not_lt.mp hold, hvalid,
      (ofText_inj.mp hcanon).symm, hbid, htagsEq⟩, by rw [hserial]⟩
    · rw [show c.service = service from hsame]
      exact request_kind_iff.mp ⟨hservice, hkind⟩
    · obtain ⟨-, hinput, hexpiry⟩ := JobRequestContent.validate_iff.mp hvalid
      refine ⟨JobInput.numbers_of_valid (fun n hn => Nat.le_trans hn (by decide)) hinput, ?_⟩
      intro e he
      obtain ⟨-, -, httl⟩ := hexpiry e he
      rw [maxSafeInteger] at hsafe
      rw [maxRequestTtlSecs] at httl
      exact show e ≤ 2 ^ 64 - 1 by omega
    · rw [← encodedLen_ofText]; exact Nat.not_lt.mp hsize
    · rw [saturatingAdd_eq hclock]; exact Nat.not_lt.mp hfuture
  · rintro ⟨c, bid, hverify, hform, rfl⟩
    have hnew : c = .new c.input c.expires_at := (JobRequestContent.validate_iff.mp hform.valid).1
    have hserial : Sdk.serializeRequestContent c.toSdk = c.canonicalJson := by
      conv_lhs => rw [hnew]
      rw [serializeRequestContent_toSdk, ← hnew]
    have hfuture : event.created_at ≤ now + maxFutureSkewSecs := by
      rw [← saturatingAdd_eq hclock]; exact hform.notFuture
    have hsafe : event.created_at ≤ maxSafeInteger := by
      rw [maxFutureSkewSecs] at hfuture
      rw [maxSafeInteger]
      omega
    obtain ⟨hservice, hkind⟩ := request_kind_iff.mpr hform.kind
    have hdoc : Json.parse event.toSdk.content = some c.toJson := by
      rw [Event.toSdk, hform.content]
      exact Json.parse_stringify (plain_requestContent hfuture hclock hform.valid)
    refine ⟨hverify, c.service, hservice, hkind, ?_, event.created_at,
      safeNumber_natToSdk.mpr ⟨hsafe, rfl⟩,
      ⟨Nat.not_lt.mpr hfuture, Nat.not_lt.mpr hform.notOld⟩, c.toJson, hdoc, c.toSdk,
      Sdk.parseRequestContent_toJson hfuture hclock hform.valid, rfl, ?_, bid, ?_,
      tagsToSdk (canonicalTags c bid), (requestTags_toSdk hnew).mpr ⟨hform.bidOk, rfl⟩, ?_,
      by rw [hserial]⟩
    · rw [show event.toSdk.content = ofText event.content from rfl, encodedLen_ofText]
      exact Nat.not_lt.mpr hform.size
    · rw [hserial, ← hform.content]; rfl
    · rw [show event.toSdk.tags = tagsToSdk event.tags from rfl, hform.tags]
      exact readBid_canonicalTags hform.bidOk
    · rw [show event.toSdk.tags = tagsToSdk event.tags from rfl, hform.tags]

/-- The Rust and TypeScript request validators accept the same events, and recover the same
    service, input, optional expiry and canonical content from them. -/
theorem request_validators_agree {L : Libraries} {P : Sdk.Platform} (hL : L.Lawful)
    (hauth : AuthenticityAgrees L P) (event : Event) {now : ℕ} (hclock : now < 2 ^ 53 - 4000) :
    ((∃ r, parseRequestEvent L event now = .ok r) ↔
      ∃ v, Sdk.validateRequestEvent P event.toSdk now = .ok v) ∧
    ∀ r v, parseRequestEvent L event now = .ok r →
      Sdk.validateRequestEvent P event.toSdk now = .ok v →
      v.content.service = r.service ∧ v.content.input = r.input.toSdk ∧
        v.content.expires_at = r.expires_at ∧ v.canonicalContent = ofText r.canonical_input := by
  have hsame : ∀ {c bid}, RequestForm event now c bid →
      L.verify event = P.verifyEvent event.toSdk := fun hform =>
    hauth event (safe_of_requestForm hclock hform).1 (safe_of_requestForm hclock hform).2
  simp only [parseRequestEvent_eq_ok hL, validateRequestEvent_eq_ok hclock]
  refine ⟨⟨?_, ?_⟩, ?_⟩
  · rintro ⟨_, c, bid, hverify, hform, -⟩
    exact ⟨_, c, bid, (hsame hform).symm.trans hverify, hform, rfl⟩
  · rintro ⟨_, c, bid, hverify, hform, -⟩
    exact ⟨_, c, bid, (hsame hform).trans hverify, hform, rfl⟩
  · rintro r v ⟨c, bid, -, hform, rfl⟩ ⟨c', bid', -, hform', rfl⟩
    obtain rfl : c = c' := hform.content_unique hform'
    exact ⟨rfl, rfl, rfl, rfl⟩

/-- An event with safe numbers is determined by its SDK form. -/
theorem toSdk_eq_iff {e g : Event} (hcreated : g.created_at < 2 ^ 53) (hkind : g.kind < 2 ^ 53) :
    e.toSdk = g.toSdk ↔ e = g := by
  constructor
  · intro h
    simp only [Event.toSdk, SignedEvent.mk.injEq, ofText_inj, tagsToSdk_injective.eq_iff] at h
    obtain ⟨hid, hpubkey, hc, hk, htags, hcontent, hsig⟩ := h
    have hcg : natToSdk g.created_at = .nat g.created_at := (natToSdk_eq_nat hcreated).mpr rfl
    have hkg : natToSdk g.kind = .nat g.kind := (natToSdk_eq_nat hkind).mpr rfl
    rw [hcg, natToSdk_eq_nat hcreated] at hc
    rw [hkg, natToSdk_eq_nat hkind] at hk
    cases e
    cases g
    simp_all
  · rintro rfl; rfl

/-- Whatever events a library takes for authentic, there is a platform that agrees with it. -/
theorem exists_authenticityAgrees (L : Libraries) :
    ∃ P : Sdk.Platform, P.parseUrl = L.parseUrl ∧ AuthenticityAgrees L P := by
  classical
  refine ⟨⟨fun e => decide (∃ g : Event, g.toSdk = e ∧ L.verify g = true), L.parseUrl⟩, rfl, ?_⟩
  intro e hcreated hkind
  rw [Bool.eq_iff_iff, decide_eq_true_eq]
  constructor
  · exact fun h => ⟨e, rfl, h⟩
  · rintro ⟨g, heq, h⟩
    rw [← (toSdk_eq_iff hcreated hkind).mp heq]
    exact h

/-! ### A signed request -/

/-- The validators' libraries when the authentic events are the listed ones. -/
def exactPlatform (authentic : List Event) (parseUrl : Text → Option Url) : Sdk.Platform where
  verifyEvent e := e ∈ authentic.map Event.toSdk
  parseUrl := parseUrl

theorem authenticityAgrees_exact (authentic : List Event) (parseUrl : Text → Option Url) :
    AuthenticityAgrees (exactLibraries authentic parseUrl) (exactPlatform authentic parseUrl) := by
  intro e hcreated hkind
  refine decide_eq_decide.mpr ?_
  rw [List.mem_map]
  constructor
  · intro h
    exact ⟨e, h, rfl⟩
  · rintro ⟨g, hg, heq⟩
    rw [← (toSdk_eq_iff hcreated hkind).mp heq]
    exact hg

/-- The signed request as the SDK sees it. -/
def goldenValidated : Sdk.ValidatedRequest :=
  ⟨goldenRequest.toSdk, goldenContent.toSdk, ofText goldenContent.canonicalJson⟩

/-- Both sides take the signed request, whatever other events are authentic. -/
theorem goldenRequest_accepted {authentic : List Event} (h : goldenRequest ∈ authentic)
    (parseUrl : Text → Option Url) :
    parseRequestEvent (exactLibraries authentic parseUrl) goldenRequest 1900000005 =
        .ok goldenJob ∧
      Sdk.validateRequestEvent (exactPlatform authentic parseUrl) goldenRequest.toSdk 1900000005 =
        .ok goldenValidated := by
  have hverify : (exactLibraries authentic parseUrl).verify goldenRequest = true :=
    exactLibraries_verify.mpr h
  have hverify' : (exactPlatform authentic parseUrl).verifyEvent goldenRequest.toSdk = true := by
    rw [← authenticityAgrees_exact authentic parseUrl goldenRequest (by decide) (by decide)]
    exact hverify
  refine ⟨(parseRequestEvent_eq_ok (exactLibraries_lawful authentic parseUrl)).mpr ?_,
    (validateRequestEvent_eq_ok (by decide)).mpr ?_⟩
  · exact ⟨goldenContent, some 21, hverify, goldenRequest_form, rfl⟩
  · exact ⟨goldenContent, some 21, hverify', goldenRequest_form, rfl⟩

theorem golden_request_agrees :
    ∃ v, Sdk.validateRequestEvent (exactPlatform [goldenRequest] fun _ => none)
      goldenRequest.toSdk 1900000005 = .ok v := by
  have haccept := (goldenRequest_accepted (List.mem_singleton_self _) fun _ => none).1
  exact (request_validators_agree (exactLibraries_lawful _ _) (authenticityAgrees_exact _ _)
    goldenRequest (by decide)).1.mp ⟨_, haccept⟩

end SoulSociety.Protocol
