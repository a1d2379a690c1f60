import SoulSociety.Core.Documents

/-! What `parse_request_event` accepts: the canonical events of the protocol. `RequestForm` says
    when an event is the request with content `c` and bid `bid`, without reference to a parser; the
    Rust parser accepts exactly the authentic events of this form. -/

namespace SoulSociety.Core
open Lib

/-- The tags that `request_tags` builds. -/
def canonicalTags (c : JobRequestContent) (bid : Option ℕ) : List (List Text) :=
  [[text "i", c.canonicalJson, inputType], [text "protocol", soulWireProtocol],
    [text "service", c.service.asStr], [text "t", topic]] ++
    (c.expires_at.map fun e => [text "expiration", decimal e]).toList ++
    (bid.map fun b => [text "bid", decimal b]).toList

/-- A bid fits the integers that both languages share. -/
def BidOk (bid : Option ℕ) : Prop := ∀ b, bid = some b → b ≤ maxSafeInteger

/-- `event` is the request with content `c` and bid `bid`, observed at `now`. -/
structure RequestForm (event : Event) (now : ℕ) (c : JobRequestContent) (bid : Option ℕ) :
    Prop where
  kind : event.kind = c.service.requestKind
  fits : c.Numbers IsU64
  size : utf8Len event.content ≤ maxRequestBytes
  notFuture : event.created_at ≤ saturatingAdd now maxFutureSkewSecs
  notOld : now - event.created_at ≤ maxRequestAgeSecs
  valid : c.validate event.created_at now = .ok ()
  content : event.content = c.canonicalJson
  bidOk : BidOk bid
  tags : event.tags = canonicalTags c bid

/-- The request that an event of the form stands for. -/
def requestOf (event : Event) (c : JobRequestContent) (bid : Option ℕ) : JobRequest where
  id := event.id
  service := c.service
  input := c.input
  bid_msats := bid.getD 0
  customer_pubkey := event.pubkey
  created_at := event.created_at
  expires_at := c.expires_at
  canonical_input := c.canonicalJson
  serialized_event := eventText event

theorem bid_exceeds_iff {bid : Option ℕ} : (∃ v ∈ bid, v > maxSafeInteger) ↔ ¬ BidOk bid := by
  cases bid <;> simp [BidOk]

theorem requestTags_eq_ok {c : JobRequestContent} {bid : Option ℕ} {tags : List (List Text)} :
    requestTags c bid = .ok tags ↔ BidOk bid ∧ tags = canonicalTags c bid := by
  simp only [requestTags, bind_eq_ok, rejectIf_eq_ok, bid_exceeds_iff, not_not, exists_unit,
    pure_eq_ok]
  exact and_congr_right fun _ => eq_comm

/-- The decimal text of a `u64` parses back. -/
theorem parseU64_decimal {n : ℕ} (h : n ≤ u64Max) : parseU64 (decimal n) = some n := by
  have hplus : (decimal n).head? ≠ some '+' := by
    intro hhead
    cases hd : decimal n with
    | nil => rw [hd] at hhead; cases hhead
    | cons d ds =>
      rw [hd, List.head?_cons] at hhead
      cases hhead
      have hdigit := isDigit_of_mem_decimal (n := n) (c := '+') (by simp [hd])
      exact absurd hdigit (by decide)
  have hall : (decimal n).all Char.isDigit = true :=
    List.all_eq_true.mpr fun _ hc => isDigit_of_mem_decimal hc
  have hval : Nat.ofDigitChars 10 (decimal n) 0 = n := Nat.ofDigitChars_ten_toDigits
  simp only [parseU64, if_neg hplus, hval]
  rw [if_pos ⟨decimal_ne_nil n, hall, h⟩]

/-- Only the last of the canonical tags can be a bid. -/
theorem filter_bid_canonicalTags (c : JobRequestContent) (bid : Option ℕ) :
    ((canonicalTags c bid).filter fun tag => tag.head? = some (text "bid")) =
      (bid.map fun b => [text "bid", decimal b]).toList := by
  obtain ⟨_, _, _, expires_at⟩ := c
  cases expires_at <;> cases bid <;> rfl

/-- The bid of a canonical request reads back. -/
theorem readBid_eq_ok {event : Event} {c : JobRequestContent} {bid : Option ℕ} (h : BidOk bid)
    (htags : event.tags = canonicalTags c bid) : readBid event = .ok bid := by
  rw [readBid, optionalScalarTag, htags, filter_bid_canonicalTags]
  cases bid with
  | none => rfl
  | some b =>
    have hb : b ≤ u64Max := by
      have hsafe := h b rfl
      rw [maxSafeInteger] at hsafe
      rw [u64Max]
      omega
    refine bind_eq_ok.mpr ⟨some (decimal b), rfl, bind_eq_ok.mpr ⟨b, ?_, rfl⟩⟩
    exact orReject_eq_ok.mpr (parseU64_decimal hb)

/-- On the clocks that both languages share the saturating sum is the sum. -/
theorem saturatingAdd_eq {now : ℕ} (hclock : now < 2 ^ 53 - 4000) :
    saturatingAdd now maxFutureSkewSecs = now + maxFutureSkewSecs := by
  rw [maxFutureSkewSecs]
  exact Nat.min_eq_left (by rw [u64Max]; omega)

/-- `parse_request_event` accepts exactly the authentic events of the form. -/
theorem parseRequestEvent_eq_ok {L : Libraries} (hL : L.Lawful) {event : Event} {now : ℕ}
    {r : JobRequest} :
    parseRequestEvent L event now = .ok r ↔ ∃ c bid, L.verify event = true ∧
      RequestForm event now c bid ∧ r = requestOf event c bid := by
  simp only [parseRequestEvent, bind_eq_ok, rejectIf_eq_ok, orReject_eq_ok, mapReject_eq_ok,
    pure_eq_ok, exists_unit, not_not, not_or, bid_exceeds_iff,
    requestTags_eq_ok]
  constructor
  · rintro ⟨hverify, hreq, service, hkind, hsize, ⟨hfuture, hold⟩, c, hread, hvalid, hservice, hcanon,
      bid, -, hbid, tags, ⟨-, rfl⟩, htags, serialized, hjson, rfl⟩
    have hk : event.kind = service.requestKind := ServiceType.request_kind_iff.mp ⟨hreq, hkind⟩
    rw [hL.tryAsJson_eq event hverify, Option.some.injEq] at hjson
    refine ⟨c, bid, hverify, ⟨?_, hL.requestFromStr_numbers _ _ hread, Nat.not_lt.mp hsize,
      Nat.not_lt.mp hfuture, Nat.not_lt.mp hold, hvalid, hcanon.symm, hbid, htags⟩, ?_⟩
    · rw [hk, hservice]
    · rw [requestOf, ← hjson, hservice]
  · rintro ⟨c, bid, hverify, hform, rfl⟩
    obtain ⟨hreq, hkind⟩ := ServiceType.request_kind_iff.mpr hform.kind
    have hread : L.requestFromStr event.content = some c := by
      rw [hform.content]; exact hL.requestFromStr_canonicalJson c hform.fits
    exact ⟨hverify, hreq, c.service, hkind, Nat.not_lt.mpr hform.size,
      ⟨Nat.not_lt.mpr hform.notFuture, Nat.not_lt.mpr hform.notOld⟩, c, hread, hform.valid, rfl,
      hform.content.symm, bid, readBid_eq_ok hform.bidOk hform.tags, hform.bidOk, _,
      ⟨hform.bidOk, rfl⟩, hform.tags, _, hL.tryAsJson_eq event hverify, rfl⟩

/-- An event is a request in one way only. -/
theorem RequestForm.content_unique {event : Event} {now now' : ℕ} {c c' : JobRequestContent}
    {bid bid' : Option ℕ} (h : RequestForm event now c bid)
    (h' : RequestForm event now' c' bid') : c = c' :=
  JobRequestContent.canonicalJson_injective (h.content.symm.trans h'.content)

/-! ### A signed request -/

/-- The content of the signed request in `protocol/fixtures/wire`. -/
def goldenContent : JobRequestContent := .new (.fibonacci 10) (some 1900000600)

/-- The signed request in `protocol/fixtures/wire`. -/
def goldenRequest : Event where
  id := text "cd1b282369640261c031ef99f25e27231b6fcfa8be901b042f80144046a3fbd8"
  pubkey := text "79be667ef9dcbbac55a06295ce870b07029bfcdb2dce28d959f2815b16f81798"
  created_at := 1900000000
  kind := 5601
  tags := canonicalTags goldenContent (some 21)
  content := goldenContent.canonicalJson
  sig := text ("5f5bae2f636eef7598bc67d6dc99444dd987a7b7e0a9c777914cf19e0add6ef7" ++
    "c91b67d2f2f9f0b71195d373ab0ca25fa7a6b8c5c4af0b3b93089b08569202a4")

theorem goldenRequest_form : RequestForm goldenRequest 1900000005 goldenContent (some 21) where
  kind := rfl
  fits := ⟨by decide, by rintro e ⟨⟩; decide⟩
  size := by decide +kernel
  notFuture := by decide
  notOld := by decide
  valid := rfl
  content := rfl
  bidOk := by rintro b ⟨⟩; decide
  tags := rfl

/-- The job that the signed request asks for. -/
def goldenJob : JobRequest := requestOf goldenRequest goldenContent (some 21)

end SoulSociety.Core
