import SoulSociety.Protocol.Requests
import SoulSociety.Provider.Processor
import SoulSociety.Sdk.ResultDecoders

/-! What the two result validators accept. `ResultForm` says when an event is an answer to a request,
    without reference to a parser; it is what both sides check. Each side then has checks of its
    own: its URL policy, how it reads the embedded request, and in the SDK alone the comparison of
    the statement's public input with the request. -/

namespace SoulSociety.Protocol
open Lib SoulSociety.Core

/-! ### The form of an answer -/

/-- The status of a result as text. -/
def statusText : Sdk.JobResult → Text
  | .success _ => text "success"
  | .error _ => text "error"

/-- The tags of an answer whose `request` tag holds `embedded`. -/
def answerTags (embedded : Text) (request : JobRequest) (status : Text) : List (List Text) :=
  [[text "request", embedded], [text "e", request.id], [text "p", request.customer_pubkey],
    [text "i", request.canonical_input, inputType], [text "status", status],
    [text "protocol", soulWireProtocol], [text "service", request.service.asStr], [text "t", topic]]

/-- The statement of a success is about the service. -/
def AboutService (c : Sdk.JobResult) (service : ServiceType) : Prop :=
  ∀ r, c = .success r → r.statement.service = service

/-- `event` answers `request` with content `c`, and its `request` tag holds `embedded`. -/
structure ResultForm (event : Event) (request : JobRequest) (now : ℕ) (embedded : Text)
    (c : Sdk.JobResult) : Prop where
  kind : event.kind = request.service.resultKind
  size : utf8Len event.content ≤ maxResultBytes
  notBefore : request.created_at ≤ event.created_at
  notFuture : event.created_at ≤ saturatingAdd now maxFutureSkewSecs
  shaped : c.Shaped
  requestId : c.requestId = ofText request.id
  service : AboutService c request.service
  content : event.content = Sdk.serializeResult c
  tags : event.tags = answerTags embedded request (statusText c)

/-- An event is an answer in one way only. -/
theorem ResultForm.unique {event : Event} {request request' : JobRequest} {now now' : ℕ}
    {embedded embedded' : Text} {c c' : Sdk.JobResult}
    (h : ResultForm event request now embedded c)
    (h' : ResultForm event request' now' embedded' c') : embedded = embedded' ∧ c = c' := by
  refine ⟨?_, Sdk.serializeResult_inj h.shaped h'.shaped (h.content.symm.trans h'.content)⟩
  have htags := h.tags.symm.trans h'.tags
  rw [answerTags, answerTags, List.cons.injEq, List.cons.injEq, List.cons.injEq] at htags
  exact htags.1.2.1

/-- JavaScript can hold an answer. -/
theorem ResultForm.safe {event : Event} {request : JobRequest} {now : ℕ} {embedded : Text}
    {c : Sdk.JobResult} (h : ResultForm event request now embedded c)
    (hclock : now < 2 ^ 53 - 4000) : event.created_at < 2 ^ 53 ∧ event.kind < 2 ^ 53 := by
  have hfuture := h.notFuture
  rw [saturatingAdd_eq hclock, maxFutureSkewSecs] at hfuture
  refine ⟨by omega, ?_⟩
  rw [h.kind]
  cases request.service <;> decide

/-- The statement of a success carries the public projection of the request's input. -/
def Bound (c : Sdk.JobResult) (input : JobInput) : Prop :=
  ∀ r, c = .success r →
    r.statement.public_input = (Provider.publicInput input).map FeltHex.toSdk

/-! ### The Rust validator -/

theorem status_eq : ∀ c : JobResultContent, c.status = statusText c.toSdk
  | .success _ _ _ _ _ => rfl
  | .error _ _ _ => rfl

theorem requestId_toSdk : ∀ c : JobResultContent, c.toSdk.requestId = ofText c.requestId
  | .success _ _ _ _ _ => rfl
  | .error _ _ _ => rfl

theorem serviceMatches_iff : ∀ {c : JobResultContent} {service : ServiceType},
    serviceMatches c service = true ↔ AboutService c.toSdk service
  | .success _ _ statement _ _, service => by
    rw [serviceMatches, decide_eq_true_eq]
    constructor
    · rintro h r hr
      cases hr
      exact h
    · intro h
      exact h _ rfl
  | .error _ _ _, service => by
    constructor
    · rintro - r hr
      cases hr
    · intro _
      rfl

theorem resultTags_tail (embedded : Text) (request : JobRequest) (c : JobResultContent) :
    [text "request", embedded] :: (resultTags request c).tail =
      answerTags embedded request (statusText c.toSdk) := by
  rw [← status_eq]; rfl

/-- `parse_result_event` accepts exactly the authentic answers whose URL `soul-core` allows and
    whose embedded event it reads as the request. -/
theorem parseResultEvent_eq_ok {L : Libraries} (hL : L.Lawful) {source : Event}
    (hsource : L.verify source = true) {event : Event} {request : JobRequest}
    (hserialized : request.serialized_event = eventText source) {now : ℕ} {c : JobResultContent} :
    parseResultEvent L event request now = .ok c ↔ ∃ embedded, L.verify event = true ∧
      ResultForm event request now embedded c.toSdk ∧ c.UrlOk L.parseUrl ∧
        parseEmbeddedRequestEvent L embedded = .ok source := by
  have hexpected : L.fromJson request.serialized_event = some source := by
    rw [hserialized]; exact hL.fromJson_eventText source hsource
  simp only [parseResultEvent, bind_eq_ok, rejectIf_eq_ok, orReject_eq_ok, mapReject_eq_ok,
    pure_eq_ok, exists_unit, not_not, not_or, JobResultContent.validate_iff, hexpected,
    Option.some.injEq, exists_eq_left', resultTags_tail, serviceMatches_iff]
  constructor
  · rintro ⟨hverify, hkind, hsize, ⟨hbefore, hfuture⟩, result, -, ⟨hshaped, hurl⟩, hid, hservice,
      hcanon, embedded, -, read, hread, -, rfl, htags, rfl⟩
    refine ⟨embedded, hverify, ⟨hkind, Nat.not_lt.mp hsize, Nat.not_lt.mp hbefore,
      Nat.not_lt.mp hfuture, Sdk.shaped_toSdk.mpr hshaped, ?_, hservice, ?_, htags⟩, hurl, hread⟩
    · rw [requestId_toSdk, hid]
    · rw [Sdk.serializeResult_toSdk hshaped, hcanon]
  · rintro ⟨embedded, hverify, hform, hurl, hread⟩
    have hshaped : c.Shaped := Sdk.shaped_toSdk.mp hform.shaped
    have hcanon : c.toText = event.content := by
      rw [hform.content, Sdk.serializeResult_toSdk hshaped]
    have hid : c.requestId = request.id := by
      have h := hform.requestId
      rw [requestId_toSdk] at h
      exact ofText_inj.mp h
    refine ⟨hverify, hform.kind, Nat.not_lt.mpr hform.size,
      ⟨Nat.not_lt.mpr hform.notBefore, Nat.not_lt.mpr hform.notFuture⟩, c, ?_, ⟨hshaped, hurl⟩, hid,
      hform.service, hcanon, embedded, ?_, source, hread, hsource, rfl, hform.tags, rfl⟩
    · rw [← hcanon]
      refine hL.resultFromStr_toText c (JobResultContent.numbers_of_shaped ?_ hshaped)
      exact fun n hn => Nat.le_trans hn (by decide)
    · rw [hform.tags]; rfl

/-! ### The public values of a statement -/

/-- What the SDK expects is the public projection, and the output that the layout prescribes. -/
theorem expectedPublic_eq {i : JobInput} (hi : i.validate = .ok ()) {s : ProofStatement}
    (hs : s.layoutMatches = true) (hservice : s.service = i.service) :
    Sdk.expectedPublic i.toSdk s.output.toSdk =
      .ok ((Provider.publicInput i).map FeltHex.toSdk, s.public_output.map FeltHex.toSdk) := by
  have hsafe : i.Numbers (· ≤ maxSafeInteger) :=
    JobInput.numbers_of_valid (fun n hn => Nat.le_trans hn (by decide)) hi
  obtain ⟨service, program, inputs, outputs, output⟩ := s
  cases i with
  | fibonacci n =>
    obtain rfl : service = .fibonacci := hservice
    cases output with
    | fibonacci result =>
      simp only [ProofStatement.layoutMatches, Bool.and_eq_true, decide_eq_true_eq] at hs
      rw [hs.2]
      simp only [JobInput.toSdk, JobOutput.toSdk, Sdk.expectedPublic, Sdk.feltFromNumber_eq hsafe]
      rfl
    | hashVerify _ => cases hs
    | merkleProof _ => cases hs
  | hashVerify hash preimage =>
    obtain rfl : service = .hashVerify := hservice
    cases output with
    | fibonacci _ => cases hs
    | hashVerify valid =>
      simp only [ProofStatement.layoutMatches, Bool.and_eq_true, decide_eq_true_eq] at hs
      rw [hs.2]
      simp only [JobInput.toSdk, JobOutput.toSdk, Sdk.expectedPublic, Sdk.booleanFelt_eq]
      rfl
    | merkleProof _ => cases hs
  | merkleProof root leaf proof index =>
    obtain rfl : service = .merkleProof := hservice
    cases output with
    | fibonacci _ => cases hs
    | hashVerify _ => cases hs
    | merkleProof valid =>
      simp only [ProofStatement.layoutMatches, Bool.and_eq_true, decide_eq_true_eq] at hs
      rw [hs.2]
      simp only [JobInput.toSdk, JobOutput.toSdk, Sdk.expectedPublic, Sdk.feltFromNumber_eq hsafe,
        Sdk.booleanFelt_eq]
      rfl

/-- `JSON.stringify` tells lists of field elements apart. -/
theorem stringifyStrings_inj {fs gs : List FeltHex} :
    Sdk.stringifyStrings (fs.map FeltHex.toSdk) = Sdk.stringifyStrings (gs.map FeltHex.toSdk) ↔
      fs = gs := by
  rw [Sdk.stringifyStrings, Sdk.stringifyStrings, map_toJson_eq, map_toJson_eq]
  constructor
  · intro h
    exact feltsJson_inj.mp (Json.arr.inj (Json.stringify_inj (plain_felts fs) (plain_felts gs) h))
  · rintro rfl
    rfl

/-- The comparison that the SDK makes is the one that the provider makes before it publishes. -/
theorem assertStatementBound_iff {q : JobRequestContent} {created_at now : ℕ}
    (hq : q.validate created_at now = .ok ()) {s : ProofStatement} (hs : s.validate = .ok ()) :
    Sdk.assertStatementBoundToRequest s.toSdk q.toSdk = .ok () ↔
      Provider.statementMatchesRequest s q.input = true := by
  obtain ⟨hnew, hinput, -⟩ := JobRequestContent.validate_iff.mp hq
  obtain ⟨-, hlayout⟩ := ProofStatement.validate_iff.mp hs
  have houtput : s.output.service = s.service := (Sdk.layoutMatches_bounds hlayout).1
  have hservice : q.service = q.input.service := by
    conv_lhs => rw [hnew]
    rfl
  rw [Provider.statementMatchesRequest_iff, ← hservice]
  simp only [Sdk.assertStatementBoundToRequest, bind_eq_ok, rejectIf_eq_ok, exists_unit, not_or,
    not_not, Prod.exists]
  constructor
  · rintro ⟨⟨hsame, -⟩, ins, outs, hexpected, hin, -⟩
    have hsame : s.service = q.service := hsame
    have heq := (expectedPublic_eq hinput hlayout (hsame.trans hservice)).symm.trans hexpected
    simp only [Except.ok.injEq, Prod.mk.injEq] at heq
    rw [← heq.1] at hin
    exact ⟨hsame, stringifyStrings_inj.mp hin⟩
  · rintro ⟨hsame, hin⟩
    refine ⟨⟨hsame, ?_⟩, _, _, expectedPublic_eq hinput hlayout (hsame.trans hservice),
      stringifyStrings_inj.mpr hin, rfl⟩
    rw [show q.toSdk.service = s.service from hsame.symm, ← houtput]
    exact type_toSdk s.output

/-- The binding check of the SDK on a shaped result. -/
theorem assertBound_iff {q : JobRequestContent} {created_at now : ℕ}
    (hq : q.validate created_at now = .ok ()) {c : Sdk.JobResult} (hc : c.Shaped) :
    Sdk.assertBound c q.toSdk = .ok () ↔ AboutService c q.service ∧ Bound c q.input := by
  have hservice := JobRequestContent.service_of_validate hq
  cases c with
  | success r =>
    obtain ⟨-, -, ⟨s, hs, hstatement⟩, -, -⟩ := hc
    rw [Sdk.assertBound, ← hstatement, assertStatementBound_iff hq hs,
      Provider.statementMatchesRequest_iff, hservice]
    refine and_congr ?_ ?_
    · constructor
      · rintro h r' hr
        cases hr
        rw [← hstatement]
        exact h
      · intro h
        have hr := h r rfl
        rw [← hstatement] at hr
        exact hr
    · rw [← (List.map_injective_iff.mpr FeltHex.toSdk_injective).eq_iff]
      constructor
      · rintro h r' hr
        cases hr
        rw [← hstatement]
        exact h
      · intro h
        have hr := h r rfl
        rw [← hstatement] at hr
        exact hr
  | error r =>
    constructor
    · intro _
      exact ⟨by rintro _ ⟨⟩, by rintro _ ⟨⟩⟩
    · intro _
      rfl

/-! ### The SDK validator -/

/-- The SDK reads the embedded event and finds the request in it. -/
def ReadsRequest (P : Sdk.Platform) (embedded : Text) (request : Sdk.Event) : Prop :=
  ∃ read, Sdk.parseEmbeddedEvent P (ofText embedded) = .ok read ∧
    Sdk.assertSameEvent read request = .ok ()

theorem status_toSdk : ∀ c : Sdk.JobResult, c.status = ofText (statusText c)
  | .success _ => rfl
  | .error _ => rfl

theorem embeddedRequest_toSdk : ∀ tags : List (List Text),
    Sdk.embeddedRequest (tagsToSdk tags) = (embeddedRequest tags).map ofText
  | [] => rfl
  | [] :: _ => rfl
  | [_] :: _ => rfl
  | [name, value] :: rest => by
    have hname : ofText name = Sdk.js "request" ↔ name = text "request" := ofText_inj
    have hlen : (rest.map (List.map ofText)).length = rest.length := List.length_map ..
    simp only [tagsToSdk, List.map_cons, List.map_nil, Sdk.embeddedRequest, embeddedRequest, hname,
      hlen]
    split
    · rfl
    · rfl
  | (_ :: _ :: _ :: _) :: _ => rfl

/-- The SDK expects the tags of the answer. -/
theorem expectedTags_toSdk (embedded : Text) (source : Event) (q : JobRequestContent)
    (bid : Option ℕ) (c : Sdk.JobResult) :
    Sdk.expectedTags (ofText embedded) ⟨source.toSdk, q.toSdk, ofText q.canonicalJson⟩ c =
      tagsToSdk (answerTags embedded (requestOf source q bid) (statusText c)) := by
  rw [Sdk.expectedTags, status_toSdk, serviceValue_eq]; rfl

theorem precedes_natToSdk {created_at n : ℕ} (h : n < 2 ^ 53) :
    Sdk.precedes created_at (natToSdk n) ↔ created_at < n := by
  rw [(natToSdk_eq_nat h).mpr rfl]; rfl

/-- `validateResultEvent` accepts exactly the authentic answers whose URL the SDK allows, whose
    public input is that of the request, and whose embedded event it reads as the request. -/
theorem validateResultEvent_eq_ok {P : Sdk.Platform} {source : Event} {q : JobRequestContent}
    {bid₁ : Option ℕ} {now₁ : ℕ} (hclock₁ : now₁ < 2 ^ 53 - 4000)
    (hsource : RequestForm source now₁ q bid₁) {event : Event} {now : ℕ}
    (hclock : now < 2 ^ 53 - 4000) (bid : Option ℕ) {w : Sdk.ValidatedResult} :
    Sdk.validateResultEvent P event.toSdk ⟨source.toSdk, q.toSdk, ofText q.canonicalJson⟩ now =
        .ok w ↔
      ∃ embedded c, P.verifyEvent event.toSdk = true ∧
        ResultForm event (requestOf source q bid) now embedded c ∧ c.UrlOk P.parseUrl ∧
        Bound c q.input ∧ ReadsRequest P embedded source.toSdk ∧ w = ⟨event.toSdk, c⟩ := by
  have hkinds : Sdk.getResultKind q.toSdk.service = q.service.resultKind := getResultKind_eq _
  have hkindlt : q.service.resultKind < 2 ^ 53 := by cases q.service <;> decide
  have hskew := saturatingAdd_eq hclock
  have hcreated₁ : source.created_at < 2 ^ 53 := by
    have h := hsource.notFuture
    rw [saturatingAdd_eq hclock₁, maxFutureSkewSecs] at h
    omega
  simp only [Sdk.validateResultEvent, bind_eq_ok, rejectIf_eq_ok, orReject_eq_ok, pure_eq_ok,
    exists_unit, not_not, not_or, hkinds]
  constructor
  · rintro ⟨hverify, hkind, hsize, created_at, hcreated, ⟨hbefore, hfuture⟩, doc, hdoc, c, hparse,
      hcanon, hid, hbound, embeddedText, htag, read, hread, hsame, htags, rfl⟩
    obtain ⟨hsafe, rfl⟩ := safeNumber_natToSdk.mp hcreated
    obtain ⟨hshaped, hurl⟩ := Sdk.parseResult_sound (Json.stringsPaired_of_parse hdoc) hparse
    obtain ⟨hservice, hinput⟩ := (assertBound_iff hsource.valid hshaped).mp hbound
    have htag' : (embeddedRequest event.tags).map ofText = some embeddedText :=
      (embeddedRequest_toSdk event.tags).symm.trans htag
    obtain ⟨embedded, -, rfl⟩ := Option.map_eq_some_iff.mp htag'
    rw [expectedTags_toSdk embedded source q bid c] at htags
    refine ⟨embedded, c, hverify, ⟨(natToSdk_eq_nat hkindlt).mp hkind, ?_, ?_, ?_, hshaped, hid,
      hservice, (ofText_inj.mp hcanon).symm, ?_⟩, hurl, hinput, ⟨read, hread, hsame⟩, rfl⟩
    · rw [← encodedLen_ofText]; exact Nat.not_lt.mp hsize
    · exact Nat.not_lt.mp fun h => hbefore ((precedes_natToSdk hcreated₁).mpr h)
    · rw [hskew]; exact Nat.not_lt.mp hfuture
    · exact tagsToSdk_injective
        ((stringifyTags_inj (tagsPaired_ofText _) (tagsPaired_ofText _)).mp htags)
  · rintro ⟨embedded, c, hverify, hform, hurl, hinput, ⟨read, hread, hsame⟩, rfl⟩
    have hfuture : event.created_at ≤ now + maxFutureSkewSecs := hskew ▸ hform.notFuture
    have hsafe : event.created_at ≤ maxSafeInteger := by
      rw [maxFutureSkewSecs] at hfuture
      rw [maxSafeInteger]
      omega
    have hdoc : Json.parse event.toSdk.content = some (Sdk.resultJson c) := by
      rw [Event.toSdk, hform.content]
      exact Sdk.parse_serializeResult hform.shaped
    have hbefore : ¬ Sdk.precedes event.created_at (natToSdk source.created_at) := by
      rw [precedes_natToSdk hcreated₁]
      exact Nat.not_lt.mpr hform.notBefore
    refine ⟨hverify, (natToSdk_eq_nat hkindlt).mpr hform.kind, ?_, event.created_at,
      safeNumber_natToSdk.mpr ⟨hsafe, rfl⟩, ⟨hbefore, Nat.not_lt.mpr hfuture⟩, _, hdoc, c,
      Sdk.parseResult_json hform.shaped hurl, congrArg ofText hform.content.symm, hform.requestId,
      (assertBound_iff hsource.valid hform.shaped).mpr ⟨hform.service, hinput⟩, ofText embedded, ?_,
      read, hread, hsame, ?_, rfl⟩
    · rw [show event.toSdk.content = ofText event.content from rfl, encodedLen_ofText]
      exact Nat.not_lt.mpr hform.size
    · rw [show event.toSdk.tags = tagsToSdk event.tags from rfl, embeddedRequest_toSdk, hform.tags]
      rfl
    · rw [expectedTags_toSdk embedded source q bid c,
        show event.toSdk.tags = tagsToSdk event.tags from rfl, hform.tags]

end SoulSociety.Protocol
