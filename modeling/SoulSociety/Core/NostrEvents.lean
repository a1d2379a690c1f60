import SoulSociety.Core.Results

/-! Signed Nostr event codec for the Soul Wire application protocol
    (`soul-core/src/nostr_events.rs`).

    Signatures, event JSON, the readers of `serde_json` and the URL parser come from other crates
    and are fields of `Libraries`. `Libraries.Lawful` collects what the codec relies on: readers
    undo the writers, and an authentic event has its NIP-01 text. -/

namespace SoulSociety.Core
open Lib

/-- Wire-level failures. -/
inductive WireError where
  | invalidEvent
  | unsupportedKind
  | invalidTimestamp
  | requestTooLarge
  | resultTooLarge
  | malformedJson
  | nonCanonicalJson
  | missingTag
  | duplicateTag
  | invalidTag
  | serviceKindMismatch
  | requestBindingMismatch
  | validation (e : ValidationError)
  deriving DecidableEq, Repr

/-- Stable public error code. -/
def WireError.publicCode : WireError → ErrorCode
  | .unsupportedKind | .serviceKindMismatch => .unsupportedService
  | .validation .expired => .expired
  | _ => .invalidRequest

/-- What the codec takes from `nostr`, `serde_json` and `url`. -/
structure Libraries where
  verify : Event → Bool
  tryAsJson : Event → Option Text
  fromJson : Text → Option Event
  requestFromStr : Text → Option JobRequestContent
  resultFromStr : Text → Option JobResultContent
  valueFromStr : Text → Option Json
  eventFromValue : Json → Option Event
  parseUrl : Text → Option Url

/-- Tag arrays as a JSON value. -/
def tagsJson (tags : List (List JsString)) : Json := .arr (tags.map fun tag => .arr (tag.map .str))

/-- The NIP-01 object of an event. -/
def eventJson (e : Event) : Json :=
  .obj [(key "id", jsonText e.id), (key "pubkey", jsonText e.pubkey),
    (key "created_at", jsonNat e.created_at), (key "kind", jsonNat e.kind),
    (key "tags", tagsJson (e.tags.map (List.map ofText))), (key "content", jsonText e.content),
    (key "sig", jsonText e.sig)]

/-- The NIP-01 text of an event. -/
def eventText (e : Event) : Text := Json.stringify (eventJson e)

/-- `EVENT_KEYS`. -/
def eventKeys : List JsString :=
  [key "id", key "pubkey", key "created_at", key "kind", key "tags", key "content", key "sig"]

/-- The integers that `serde_json` reads and writes for the wire types. -/
def IsU64 (n : ℕ) : Prop := n ≤ u64Max

instance : DecidablePred IsU64 := fun n => inferInstanceAs (Decidable (n ≤ u64Max))

/-- Readers undo writers, and read integers of the declared types only. The members of a value that
    `serde_json` reads may come in any order. -/
structure Libraries.Lawful (L : Libraries) : Prop where
  tryAsJson_eq : ∀ e, L.verify e = true → L.tryAsJson e = some (eventText e)
  fromJson_eventText : ∀ e, L.verify e = true → L.fromJson (eventText e) = some e
  requestFromStr_canonicalJson : ∀ c : JobRequestContent, c.Numbers IsU64 →
    L.requestFromStr c.canonicalJson = some c
  requestFromStr_numbers : ∀ t c, L.requestFromStr t = some c → c.Numbers IsU64
  resultFromStr_toText : ∀ c : JobResultContent, c.Numbers IsU64 → L.resultFromStr c.toText = some c
  valueFromStr_eventText : ∀ e, L.verify e = true → ∃ ms, L.valueFromStr (eventText e) =
    some (.obj ms) ∧ (ms.map Prod.fst).Perm eventKeys ∧ L.eventFromValue (.obj ms) = some e

/-! ### Requests -/

/-- Build canonical request tags. -/
def requestTags (content : JobRequestContent) (bid_msats : Option ℕ) :
    Except WireError (List (List Text)) := do
  rejectIf (∃ v ∈ bid_msats, v > maxSafeInteger) .invalidTag
  let input := content.canonicalJson
  return [[text "i", input, inputType], [text "protocol", soulWireProtocol],
      [text "service", content.service.asStr], [text "t", topic]] ++
    (content.expires_at.map fun e => [text "expiration", decimal e]).toList ++
    (bid_msats.map fun b => [text "bid", decimal b]).toList

/-- `optional_scalar_tag`: a tag that occurs at most once, with one value. -/
def optionalScalarTag (event : Event) (key : Text) : Except WireError (Option Text) :=
  match event.tags.filter fun tag => tag.head? = some key with
  | [] => .ok none
  | [[_, value]] => .ok (some value)
  | [_] => .error .invalidTag
  | _ => .error .duplicateTag

/-- `str::parse::<u64>`: an optional plus sign and decimal digits, leading zeros included. -/
def parseU64 (value : Text) : Option ℕ :=
  let digits := if value.head? = some '+' then value.tail else value
  let n := Nat.ofDigitChars 10 digits 0
  if digits ≠ [] ∧ digits.all Char.isDigit ∧ n ≤ u64Max then some n else none

/-- The bid, when there is one, as an unsigned integer. -/
def readBid (event : Event) : Except WireError (Option ℕ) := do
  match ← optionalScalarTag event (text "bid") with
  | none => return none
  | some value => do
    let bid ← orReject (parseU64 value) .invalidTag
    return some bid

/-- Parse and authenticate a Soul Wire request. -/
def parseRequestEvent (L : Libraries) (event : Event) (now : ℕ) : Except WireError JobRequest := do
  rejectIf (¬ L.verify event) .invalidEvent
  rejectIf (¬ ServiceType.isRequestKind event.kind) .unsupportedKind
  let service ← orReject (ServiceType.fromKind event.kind) .unsupportedKind
  rejectIf (utf8Len event.content > maxRequestBytes) .requestTooLarge
  rejectIf (event.created_at > saturatingAdd now maxFutureSkewSecs ∨
    now - event.created_at > maxRequestAgeSecs) .invalidTimestamp
  let content ← orReject (L.requestFromStr event.content) .malformedJson
  mapReject (content.validate event.created_at now) .validation
  rejectIf (content.service ≠ service) .serviceKindMismatch
  rejectIf (content.canonicalJson ≠ event.content) .nonCanonicalJson
  let bid_msats ← readBid event
  rejectIf (∃ v ∈ bid_msats, v > maxSafeInteger) .invalidTag
  let tags ← requestTags content bid_msats
  rejectIf (event.tags ≠ tags) .invalidTag
  let serialized_event ← orReject (L.tryAsJson event) .malformedJson
  return {
    id := event.id
    service := service
    input := content.input
    bid_msats := bid_msats.getD 0
    customer_pubkey := event.pubkey
    created_at := event.created_at
    expires_at := content.expires_at
    canonical_input := content.canonicalJson
    serialized_event := serialized_event }

/-- A parsed request is authentic and keeps the id of its event. -/
theorem authentic_of_parse {L : Libraries} {event : Event} {now : ℕ} {r : JobRequest}
    (h : parseRequestEvent L event now = .ok r) : L.verify event = true ∧ r.id = event.id := by
  simp only [parseRequestEvent, bind_eq_ok, rejectIf_eq_ok, orReject_eq_ok, mapReject_eq_ok,
    pure_eq_ok, exists_unit, not_not] at h
  obtain ⟨hverify, -, _, -, -, -, _, -, -, -, -, _, -, -, _, -, -, _, -, rfl⟩ := h
  exact ⟨hverify, rfl⟩

/-! ### Results -/

/-- Build canonical result tags, including a complete copy of the signed request event. -/
def resultTags (request : JobRequest) (result : JobResultContent) : List (List Text) :=
  [[text "request", request.serialized_event], [text "e", request.id],
    [text "p", request.customer_pubkey], [text "i", request.canonical_input, inputType],
    [text "status", result.status], [text "protocol", soulWireProtocol],
    [text "service", request.service.asStr], [text "t", topic]]

/-- `parse_embedded_request_event`: an event object with exactly the seven keys. -/
def parseEmbeddedRequestEvent (L : Libraries) (serialized : Text) : Except WireError Event := do
  let value ← orReject (L.valueFromStr serialized) .malformedJson
  match value with
  | .obj object => do
    rejectIf (object.length ≠ eventKeys.length ∨ ∃ k ∈ eventKeys, k ∉ object.map Prod.fst)
      .malformedJson
    let event ← orReject (L.eventFromValue (.obj object)) .malformedJson
    rejectIf (¬ L.verify event) .invalidEvent
    return event
  | _ => .error .malformedJson

/-- The statement of a success is about the requested service. -/
def serviceMatches (result : JobResultContent) (service : ServiceType) : Bool :=
  match result with
  | .success _ _ statement _ _ => statement.service = service
  | .error _ _ _ => true

/-- `actual_tags[0][1]` of eight tags, the first of which is a `request` tag with one value. -/
def embeddedRequest (tags : List (List Text)) : Option Text :=
  match tags with
  | [name, value] :: rest => if rest.length = 7 ∧ name = text "request" then some value else none
  | _ => none

/-- Authenticate a result and bind its kind, content, and tags to the original request. -/
def parseResultEvent (L : Libraries) (event : Event) (request : JobRequest) (now : ℕ) :
    Except WireError JobResultContent := do
  rejectIf (¬ L.verify event) .invalidEvent
  rejectIf (event.kind ≠ request.service.resultKind) .serviceKindMismatch
  rejectIf (utf8Len event.content > maxResultBytes) .resultTooLarge
  rejectIf (event.created_at < request.created_at ∨
    event.created_at > saturatingAdd now maxFutureSkewSecs) .invalidTimestamp
  let result ← orReject (L.resultFromStr event.content) .malformedJson
  mapReject (result.validate L.parseUrl) .validation
  rejectIf (result.requestId ≠ request.id) .requestBindingMismatch
  rejectIf (¬ serviceMatches result request.service) .serviceKindMismatch
  rejectIf (result.toText ≠ event.content) .nonCanonicalJson
  let embedded_serialized ← orReject (embeddedRequest event.tags) .invalidTag
  let embedded_request ← parseEmbeddedRequestEvent L embedded_serialized
  let expected_request ← orReject (L.fromJson request.serialized_event) .malformedJson
  rejectIf (¬ L.verify expected_request) .invalidEvent
  rejectIf (embedded_request ≠ expected_request) .requestBindingMismatch
  let expected_tags :=
    [text "request", embedded_serialized] :: (resultTags request result).tail
  rejectIf (event.tags ≠ expected_tags) .invalidTag
  return result

end SoulSociety.Core
