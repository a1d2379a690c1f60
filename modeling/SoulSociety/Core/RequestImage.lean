import SoulSociety.Core.RequestCodec
import SoulSociety.Core.Sizes

/-! The request codec accepts its canonical image. The size limit is out of reach of every valid
    content, and no saturating operation on timestamps changes a decision, up to the ends of `u64`.
    What is asked of the content is a little more than bounds: the current protocol, and a service
    that is the one of the input. -/

namespace SoulSociety.Core
open Lib

/-! ### The size of a request -/

/-- The deepest admitted path decides the bound. -/
theorem utf8Len_input_le {i : JobInput} (h : i.validate = .ok ()) :
    utf8Len (Json.stringify i.toJson) ≤ 14631 := by
  have h := JobInput.validate_iff.mp h
  cases i with
  | fibonacci n =>
    have hn : n < 10 ^ 3 := Nat.lt_of_le_of_lt h (by decide)
    have hall := utf8Len_obj_le (by decide : (text "type").length ≤ 32)
      (utf8Len_jsonText_le (by decide : (text "fibonacci").length ≤ 12))
      (utf8Len_members_le (by decide : (text "n").length ≤ 32) (utf8Len_jsonNat_le (by decide) hn)
        utf8Len_close_le)
    exact Nat.le_trans hall (by decide)
  | hashVerify hash preimage =>
    have hall := utf8Len_obj_le (by decide : (text "type").length ≤ 32)
      (utf8Len_jsonText_le (by decide : (text "hash_verify").length ≤ 12))
      (utf8Len_members_le (by decide : (text "hash").length ≤ 32) (utf8Len_felt_le hash)
        (utf8Len_members_le (by decide : (text "preimage").length ≤ 32) (utf8Len_felt_le preimage)
          utf8Len_close_le))
    exact Nat.le_trans hall (by decide)
  | merkleProof root leaf proof index =>
    obtain ⟨hdepth, hindex⟩ := h
    have hpow : 2 ^ proof.length ≤ 2 ^ 32 := Nat.pow_le_pow_right (by decide) hdepth
    have hindex : index < 10 ^ 10 :=
      Nat.lt_of_lt_of_le hindex (Nat.le_trans hpow (by decide))
    have hpath : utf8Len (Json.stringify (.arr (proof.map FeltHex.toJson))) ≤ 12770 := by
      have hle := utf8Len_felts_le proof
      have hdepth : proof.length ≤ 32 := hdepth
      omega
    have hall := utf8Len_obj_le (by decide : (text "type").length ≤ 32)
      (utf8Len_jsonText_le (by decide : (text "merkle_proof").length ≤ 12))
      (utf8Len_members_le (by decide : (text "root").length ≤ 32) (utf8Len_felt_le root)
        (utf8Len_members_le (by decide : (text "leaf").length ≤ 32) (utf8Len_felt_le leaf)
          (utf8Len_members_le (by decide : (text "proof").length ≤ 32) hpath
            (utf8Len_members_le (by decide : (text "index").length ≤ 32)
              (utf8Len_jsonNat_le (by decide) hindex) utf8Len_close_le))))
    exact Nat.le_trans hall (by decide)

/-- Every content that passes the checks is within the size limit. -/
theorem canonicalJson_fits {i : JobInput} {expires_at : Option ℕ} (hi : i.validate = .ok ())
    (hexpiry : ∀ e ∈ expires_at, IsU64 e) :
    utf8Len (JobRequestContent.new i expires_at).canonicalJson ≤ maxRequestBytes := by
  have hservice : i.service.asStr.length ≤ 12 := by cases i.service <;> decide
  have hmembers : ∀ {ms : List (JsString × Json)}, utf8Len (Json.stringifyMembers ms) ≤ 217 →
      utf8Len (Json.stringify (.obj ((key "protocol", jsonText soulWireProtocol) ::
        (key "service", jsonText i.service.asStr) :: (key "input", i.toJson) :: ms))) ≤
          maxRequestBytes := by
    intro ms hms
    have hall := utf8Len_obj_le (by decide : (text "protocol").length ≤ 32)
      (utf8Len_jsonText_le (by decide : soulWireProtocol.length ≤ 14))
      (utf8Len_members_le (by decide : (text "service").length ≤ 32)
        (utf8Len_jsonText_le hservice)
        (utf8Len_members_le (by decide : (text "input").length ≤ 32) (utf8Len_input_le hi) hms))
    exact Nat.le_trans hall (by decide)
  cases expires_at with
  | none => exact hmembers (Nat.le_trans utf8Len_close_le (by decide))
  | some e =>
    have he : e < 10 ^ 20 := Nat.lt_of_le_of_lt (hexpiry e rfl) (by decide)
    exact hmembers (utf8Len_members_le (by decide : (text "expires_at").length ≤ 32)
      (utf8Len_jsonNat_le (by decide) he) utf8Len_close_le)

/-! ### The image -/

/-- The timestamp is at most five minutes ahead of the clock and ten behind it. -/
def InWindow (event : Event) (now : ℕ) : Prop :=
  (event.created_at : ℤ) ≤ now + maxFutureSkewSecs ∧
    (now : ℤ) - maxRequestAgeSecs ≤ event.created_at

/-- `event` is written with content `c` and bid `bid`, which are within their bounds. -/
structure Encodes (event : Event) (now : ℕ) (c : JobRequestContent) (bid : Option ℕ) : Prop where
  kind : event.kind = c.service.requestKind
  fits : c.Numbers IsU64
  bounds : c.input.validate = .ok ()
  expiry : ∀ e ∈ c.expires_at,
    now < e ∧ event.created_at ≤ e ∧ e ≤ event.created_at + maxRequestTtlSecs
  bidOk : ∀ b ∈ bid, b ≤ 2 ^ 53 - 1
  content : event.content = c.canonicalJson
  tags : requestTags c bid = .ok event.tags

/-- The sum saturates only when every timestamp is within it. -/
theorem exceeds_saturatingAdd_iff {created_at : ℕ} (h : IsU64 created_at) (now skew : ℕ) :
    created_at > saturatingAdd now skew ↔ created_at > now + skew := by
  have h : created_at ≤ u64Max := h
  rw [saturatingAdd]
  omega

theorem requestForm_iff {event : Event} {now : ℕ} (hcreated : IsU64 event.created_at)
    {c : JobRequestContent} {bid : Option ℕ} : RequestForm event now c bid ↔
      InWindow event now ∧ Encodes event now c bid ∧ c = .new c.input c.expires_at := by
  have hfuture := exceeds_saturatingAdd_iff hcreated now maxFutureSkewSecs
  constructor
  · intro h
    obtain ⟨hnew, hinput, hexpiry⟩ := JobRequestContent.validate_iff.mp h.valid
    have hnotFuture := h.notFuture
    have hnotOld := h.notOld
    refine ⟨⟨by omega, by omega⟩, ⟨h.kind, h.fits, hinput, ?_, h.bidOk, h.content,
      requestTags_eq_ok.mpr ⟨h.bidOk, h.tags⟩⟩, hnew⟩
    intro e he
    obtain ⟨hnow, hle, httl⟩ := hexpiry e he
    exact ⟨hnow, hle, by omega⟩
  · rintro ⟨⟨hnotFuture, hnotOld⟩, h, hnew⟩
    have hsize : utf8Len event.content ≤ maxRequestBytes := by
      rw [h.content, hnew]
      exact canonicalJson_fits h.bounds h.fits.2
    refine ⟨h.kind, h.fits, hsize, by omega, by omega, ?_, h.content, h.bidOk,
      (requestTags_eq_ok.mp h.tags).2⟩
    refine JobRequestContent.validate_iff.mpr ⟨hnew, h.bounds, ?_⟩
    intro e he
    obtain ⟨hnow, hle, httl⟩ := h.expiry e he
    exact ⟨hnow, hle, by omega⟩

/-- An event is written in one way only. -/
theorem Encodes.unique {event : Event} {now : ℕ} {c c' : JobRequestContent} {bid bid' : Option ℕ}
    (h : Encodes event now c bid) (h' : Encodes event now c' bid') : c = c' ∧ bid = bid' := by
  have hread := readBid_eq_ok h.bidOk (requestTags_eq_ok.mp h.tags).2
  have hread' := readBid_eq_ok h'.bidOk (requestTags_eq_ok.mp h'.tags).2
  exact ⟨JobRequestContent.canonicalJson_injective (h.content.symm.trans h'.content),
    Except.ok.inj (hread.symm.trans hread')⟩

/-- The parser accepts the authentic events in the window that are written with a content of the
    current protocol, whose service is that of its input, and returns what they are written with. The
    size limit and the saturating operations have no part in the decision. -/
theorem parse_request_event_image {L : Libraries} (hL : L.Lawful) (event : Event) (now : ℕ)
    (hcreated : IsU64 event.created_at) :
    ((∃ r, parseRequestEvent L event now = .ok r) ↔ L.verify event = true ∧ InWindow event now ∧
        ∃ c bid, Encodes event now c bid ∧ c.protocol = soulWireProtocol ∧
          c.service = c.input.service) ∧
      (∀ c c' bid bid', Encodes event now c bid → Encodes event now c' bid' →
        c = c' ∧ bid = bid') ∧
      (∀ r c bid, parseRequestEvent L event now = .ok r → Encodes event now c bid →
        r.input = c.input ∧ r.expires_at = c.expires_at ∧ r.bid_msats = bid.getD 0 ∧
          r.canonical_input = event.content) ∧
      (∀ c bid, Encodes event now c bid → c.protocol = soulWireProtocol →
        c.service = c.input.service → utf8Len event.content ≤ maxRequestBytes) ∧
      (event.created_at > saturatingAdd now maxFutureSkewSecs ↔
        event.created_at > now + maxFutureSkewSecs) ∧
      (now - event.created_at > maxRequestAgeSecs ↔
        (now : ℤ) - event.created_at > maxRequestAgeSecs) ∧
      ∀ e : ℕ, e - event.created_at > maxRequestTtlSecs ↔
        (e : ℤ) - event.created_at > maxRequestTtlSecs := by
  have hnew : ∀ c : JobRequestContent, c = .new c.input c.expires_at ↔
      c.protocol = soulWireProtocol ∧ c.service = c.input.service := by
    rintro ⟨protocol, service, input, expires_at⟩
    simp [JobRequestContent.new]
  have hparse : ∀ {r}, parseRequestEvent L event now = .ok r ↔ ∃ c bid, L.verify event = true ∧
      RequestForm event now c bid ∧ r = requestOf event c bid := parseRequestEvent_eq_ok hL
  refine ⟨⟨?_, ?_⟩, fun c c' bid bid' h h' => h.unique h', ?_, ?_,
    exceeds_saturatingAdd_iff hcreated now _, by omega, fun e => by omega⟩
  · rintro ⟨r, h⟩
    obtain ⟨c, bid, hverify, hform, -⟩ := hparse.mp h
    obtain ⟨hwindow, hencodes, hc⟩ := (requestForm_iff hcreated).mp hform
    exact ⟨hverify, hwindow, c, bid, hencodes, (hnew c).mp hc⟩
  · rintro ⟨hverify, hwindow, c, bid, hencodes, hc⟩
    exact ⟨_, hparse.mpr ⟨c, bid, hverify,
      (requestForm_iff hcreated).mpr ⟨hwindow, hencodes, (hnew c).mpr hc⟩, rfl⟩⟩
  · intro r c bid h hencodes
    obtain ⟨c', bid', -, hform, rfl⟩ := hparse.mp h
    obtain ⟨-, hencodes', -⟩ := (requestForm_iff hcreated).mp hform
    obtain ⟨rfl, rfl⟩ := hencodes.unique hencodes'
    exact ⟨rfl, rfl, rfl, hencodes.content.symm⟩
  · intro c bid h hprotocol hservice
    have hc := (hnew c).mpr ⟨hprotocol, hservice⟩
    rw [h.content, hc]
    exact canonicalJson_fits h.bounds h.fits.2

theorem goldenRequest_image : ∃ r, parseRequestEvent (exactLibraries [goldenRequest] fun _ => none)
    goldenRequest 1900000005 = .ok r ∧ r.input = .fibonacci 10 ∧ r.bid_msats = 21 := by
  have hcreated : IsU64 goldenRequest.created_at := (by decide : 1900000000 ≤ u64Max)
  obtain ⟨haccept, -, hreturn, -⟩ := parse_request_event_image
    (exactLibraries_lawful [goldenRequest] fun _ => none) goldenRequest 1900000005 hcreated
  obtain ⟨hwindow, hencodes, -⟩ := (requestForm_iff hcreated).mp goldenRequest_form
  obtain ⟨r, hr⟩ := haccept.mpr ⟨exactLibraries_verify.mpr (List.mem_singleton_self _), hwindow, _, _,
    hencodes, rfl, rfl⟩
  obtain ⟨hinput, -, hbid, -⟩ := hreturn r _ _ hr hencodes
  exact ⟨r, hr, hinput, hbid⟩

/-- A content of another version of the protocol. -/
def otherContent : JobRequestContent where
  protocol := text "soul-society/2"
  service := .fibonacci
  input := .fibonacci 10
  expires_at := some 1900000600

/-- Its request, signed with the key of the fixture. -/
def otherRequest : Event where
  id := text "f532fc5ef0fbf83e98a157db445dd41cd63ec828681f05e05c48dd8ef712a545"
  pubkey := goldenRequest.pubkey
  created_at := 1900000000
  kind := 5601
  tags := canonicalTags otherContent (some 21)
  content := otherContent.canonicalJson
  sig := text ("126922e65bf632e59cdcaad9370ab80f1d06a331ed619909ed2bc1482a72e966" ++
    "297dfcfd5cfa1b1e4c4eb5149351011cc70c0dc5ecb35bae84869c71d45ad6ff")

theorem otherRequest_encodes : Encodes otherRequest 1900000005 otherContent (some 21) where
  kind := rfl
  fits := ⟨by decide, by rintro e ⟨⟩; decide⟩
  bounds := rfl
  expiry := by rintro e ⟨⟩; decide
  bidOk := by rintro b ⟨⟩; decide
  content := rfl
  tags := rfl

/-- Bounds on the content are not enough: the request of another protocol version is rejected. -/
theorem otherRequest_rejected :
    (exactLibraries [otherRequest] fun _ => none).Lawful ∧
      (exactLibraries [otherRequest] fun _ => none).verify otherRequest = true ∧
      InWindow otherRequest 1900000005 ∧
      Encodes otherRequest 1900000005 otherContent (some 21) ∧
      ¬ ∃ r, parseRequestEvent (exactLibraries [otherRequest] fun _ => none) otherRequest
        1900000005 = .ok r := by
  have hL := exactLibraries_lawful [otherRequest] fun _ => none
  have hcreated : IsU64 otherRequest.created_at := (by decide : 1900000000 ≤ u64Max)
  refine ⟨hL, exactLibraries_verify.mpr (List.mem_singleton_self _), by constructor <;> decide,
    otherRequest_encodes, ?_⟩
  rintro ⟨r, hr⟩
  obtain ⟨c, bid, -, hform, -⟩ := (parseRequestEvent_eq_ok hL).mp hr
  obtain ⟨-, hencodes, hnew⟩ := (requestForm_iff hcreated).mp hform
  obtain ⟨rfl, -⟩ := otherRequest_encodes.unique hencodes
  exact absurd (congrArg JobRequestContent.protocol hnew) (by decide)

end SoulSociety.Core
