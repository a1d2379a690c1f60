import SoulSociety.Provider.HandlerReplay
import SoulSociety.Session.QuietRun

/-! Retries at the provider. A retry signs a new request, but what it signs differs from the request of
    an earlier execution in nothing but the second of the clock: within one second the event has the
    same id, and a handler that answered the first one replays its answer. -/

namespace SoulSociety.Session
open Lib Sdk

/-- The id of an authentic event is an injective function of those fields. -/
def NostrIds (P : Platform) : Prop :=
  ∀ event event', P.verifyEvent event = true → P.verifyEvent event' = true →
    (event.id = event'.id ↔ SameFields event event')

variable {C : SoulNostrClient} {options : JobOptions} {input : JobInput} {t : ℕ}
  {request : ValidatedRequest}

/-- What a built-in signer signed at one clock reading differs in the key at most. -/
theorem SignedAt.sameFields (hsigner : BuiltIn C.platform C.signer) {request' : ValidatedRequest}
    (h : SignedAt C options input t request) (h' : SignedAt C options input t request')
    (hpubkey : request.event.pubkey = request'.event.pubkey) :
    SameFields request.event request'.event := by
  obtain ⟨template, _, _, _, htemplate, hsigned, hvalid⟩ := h
  obtain ⟨template', _, _, _, htemplate', hsigned', hvalid'⟩ := h'
  obtain rfl := Except.ok.inj (htemplate.symm.trans htemplate')
  obtain ⟨rfl, -⟩ := verified_of_validate hvalid
  obtain ⟨rfl, -⟩ := verified_of_validate hvalid'
  obtain ⟨-, hfields⟩ := hsigner.signs hsigned
  obtain ⟨-, hfields'⟩ := hsigner.signs hsigned'
  exact {
    pubkey := hpubkey
    created_at := hfields.created_at.trans hfields'.created_at.symm
    kind := hfields.kind.trans hfields'.kind.symm
    tags := hfields.tags.trans hfields'.tags.symm
    content := hfields.content.trans hfields'.content.symm }

/-- A built-in signer stamps the clock reading of the execution. -/
theorem SignedAt.created_at (hsigner : BuiltIn C.platform C.signer)
    (h : SignedAt C options input t request) : request.event.created_at = .nat t := by
  obtain ⟨template, _, _, _, htemplate, hsigned, hvalid⟩ := h
  obtain ⟨template', htemplate', hcreated, -⟩ := requestTemplate_eq_ok options input t
  obtain rfl := Except.ok.inj (htemplate.symm.trans htemplate')
  obtain ⟨rfl, -⟩ := verified_of_validate hvalid
  rw [(hsigner.signs hsigned).2.created_at, hcreated]

namespace SoulJob

/-- Execution `j` published the request event. -/
def Published (s : SoulJob) (j : ℕ) (event : Event) : Prop := .effect j (.publish event) ∈ s.log

/-- The request of an execution has an id that no earlier execution used. -/
def RetriesAreNew (s : SoulJob) : Prop :=
  ∀ i j event event', i < j → s.Published i event → s.Published j event' → event.id ≠ event'.id

/-- In every run of a handler, a published request whose id came, if at all, from earlier executions is
    looked up, claimed and processed. -/
def ProcessedAfresh (s : SoulJob) : Prop :=
  ∀ (P : Provider.Setup) (capacity : ℕ) (ls : List Provider.SignedJobHandler.Label)
    (h : Provider.SignedJobHandler), 0 < capacity →
    exec (Provider.SignedJobHandler.step P) (.new capacity) ls = some h →
      ∀ j event now request, s.Published j event.toSdk →
        Core.parseRequestEvent P.L event now = .ok request →
          (request.id ∈ Provider.SignedJobHandler.deliveredIds h.log →
            ∃ i earlier, i < j ∧ s.Published i earlier ∧ earlier.id = ofText request.id) →
              ∃ h', exec (Provider.SignedJobHandler.step P) h
                  [.deliver event now, .claim h.calls.length] = some h' ∧
                h'.log = h.log ++ [.delivered request.id] ++ [.claimed request.id]

variable {ls : List (Label C.signer.Answer)} {s : SoulJob} {j : ℕ} {event : Event}

/-- What an execution published was signed from its template. -/
theorem signed_of_published
    (hs : exec (step C options) (new input) ls = some s) (h : s.Published j event) :
    ∃ e, s.executions[j]? = some e ∧ ∃ request,
      SignedAt C options (canonicalizeInput input) e.createdAt request ∧ request.event = event := by
  have hprovenance := Provenance.visits (Visits.last hs)
  have hmem : .effect j (.publish event) ∈ s.session.log := List.mem_filter.mpr ⟨h, rfl⟩
  obtain ⟨t, p, request, hexecution, hsigned, hevent⟩ := hprovenance.signed j event hmem
  rw [session, List.getElem?_map, Option.map_eq_some_iff] at hexecution
  obtain ⟨e, hexecution, heq⟩ := hexecution
  obtain ⟨rfl, -⟩ := Prod.mk.inj heq
  exact ⟨e, hexecution, request, hsigned, hevent⟩

/-- New ids are all that the provider needs. -/
theorem processed_of_new (h : s.RetriesAreNew) : s.ProcessedAfresh := by
  intro P capacity ls m hcapacity hm j event now request hpublished hparse hdelivered
  refine Provider.SignedJobHandler.processed_of_not_delivered hcapacity
    (Visits.last hm) hparse fun hmem => ?_
  obtain ⟨i, earlier, hij, hearlier, hid⟩ := hdelivered hmem
  refine h i j earlier event.toSdk hij hearlier hpublished (hid.trans ?_)
  rw [(Core.authentic_of_parse hparse).2]
  rfl

/-- The requests of a job have new ids, and are processed afresh by every provider, exactly when no two
    of them agree in all fields. With a signer of the SDK that is the case exactly when those made at
    the same second are signed with different keys. -/
theorem retry_is_new_iff (C : SoulNostrClient) (options : JobOptions) (hids : NostrIds C.platform)
    (input : JobInput) (ls : List (Label C.signer.Answer)) (s : SoulJob)
    (hs : exec (step C options) (new input) ls = some s) :
    ((s.RetriesAreNew ∧ s.ProcessedAfresh) ↔ ∀ i j event event', i < j → s.Published i event →
        s.Published j event' → ¬ SameFields event event') ∧
      (BuiltIn C.platform C.signer → ((s.RetriesAreNew ∧ s.ProcessedAfresh) ↔
        ∀ i j event event' e e', i < j → s.Published i event → s.Published j event' →
          s.executions[i]? = some e → s.executions[j]? = some e' → e.createdAt = e'.createdAt →
            event.pubkey ≠ event'.pubkey)) := by
  have hnew : s.RetriesAreNew ↔ ∀ i j event event', i < j → s.Published i event →
      s.Published j event' → ¬ SameFields event event' := by
    refine forall₄_congr fun i j event event' => forall₃_congr fun _ hi hj => not_congr ?_
    obtain ⟨_, -, request, hsigned, rfl⟩ := signed_of_published hs hi
    obtain ⟨_, -, request', hsigned', rfl⟩ := signed_of_published hs hj
    exact hids _ _ hsigned.verified hsigned'.verified
  have hboth : (s.RetriesAreNew ∧ s.ProcessedAfresh) ↔ s.RetriesAreNew :=
    and_iff_left_of_imp processed_of_new
  refine ⟨hboth.trans hnew, fun hsigner => (hboth.trans hnew).trans ?_⟩
  constructor
  · intro h i j event event' e e' hij hi hj he he' hclock hpubkey
    obtain ⟨x, hx, request, hsigned, rfl⟩ := signed_of_published hs hi
    obtain ⟨x', hx', request', hsigned', rfl⟩ := signed_of_published hs hj
    obtain rfl := Option.some.inj (hx.symm.trans he)
    obtain rfl := Option.some.inj (hx'.symm.trans he')
    rw [← hclock] at hsigned'
    exact h i j _ _ hij hi hj (hsigned.sameFields hsigner hsigned' hpubkey)
  · intro h i j event event' hij hi hj hsame
    obtain ⟨x, hx, request, hsigned, rfl⟩ := signed_of_published hs hi
    obtain ⟨x', hx', request', hsigned', rfl⟩ := signed_of_published hs hj
    refine h i j _ _ x x' hij hi hj hx hx' ?_ hsame.pubkey
    have hclock := hsame.created_at
    rw [hsigned.created_at hsigner, hsigned'.created_at hsigner] at hclock
    exact Number.nat.inj hclock

/-! ### Two executions that publish -/

section
variable {template template' : EventTemplate} {answer answer' : C.signer.Answer}
  {signed signed' : Event} {request' : ValidatedRequest} {now now' t' : ℕ} {snapshot : JobSnapshot}
  {log : List Observation} {point : Point} {failing : List (Label C.signer.Answer)}

/-- Where the first execution fails in a way that can be retried, the second one publishes too. -/
theorem exec_publish_twice
    (htemplate : requestTemplate options (canonicalizeInput input) now = .ok template)
    (hsigned : C.signer.signEvent template answer = .ok signed)
    (hvalid : validateRequestEvent C.platform signed t = .ok request)
    (hfailing : exec (step C options) ((new input).latest
        (publishedSnapshot (new input).snapshot request) (some 0) []
        [.effect 0 (.publish request.event)] ⟨now, .publish request 1, true, false⟩) failing =
      some ((new input).latest snapshot none [] log ⟨now, point, true, true⟩))
    (hretry : snapshot.state = .failed ∧ ∃ failure ∈ snapshot.failure, failure.retryable = true)
    (hinput : snapshot.input = canonicalizeInput input)
    (htemplate' : requestTemplate options (canonicalizeInput input) now' = .ok template')
    (hsigned' : C.signer.signEvent template' answer' = .ok signed')
    (hvalid' : validateRequestEvent C.platform signed' t' = .ok request') :
    ∃ s, exec (step C options) (new input)
        (.start now :: ([.proceed now, .complete 0 (.signed answer t), .proceed now, .proceed now] ++
          (failing ++ .retry :: .proceed now' :: [.proceed now', .complete 1 (.signed answer' t'),
            .proceed now', .proceed now']))) = some s ∧
      s.log = log ++ [.effect 1 (.publish request'.event)] ∧
      s.executions = [⟨now, point, true, true⟩, ⟨now', .publish request' 1, true, false⟩] := by
  obtain ⟨s, hs⟩ : ∃ s, s = (new input).latest snapshot none [] log ⟨now, point, true, true⟩ := ⟨_, rfl⟩
  rw [← hs] at hfailing
  have hstart : step C options (new input) (.start now) = some ((new input).start options now) := rfl
  have hfirst : exec (step C options) ((new input).start options now)
      [.proceed now, .complete 0 (.signed answer t), .proceed now, .proceed now] =
        some ((new input).latest (publishedSnapshot (new input).snapshot request) (some 0) []
          [.effect 0 (.publish request.event)] ⟨now, .publish request 1, true, false⟩) :=
    exec_publish rfl rfl rfl rfl rfl htemplate hsigned hvalid
  have hagain : requestTemplate options s.redrafted.snapshot.input now' = .ok template' := by
    rw [redrafted, Patch.apply_input, hs]
    change requestTemplate options snapshot.input now' = _
    rw [hinput, htemplate']
  have hsecond := exec_publish (C := C) (s := s.redrafted) (by rw [hs]; rfl) (by rw [hs]; rfl)
    (by rw [hs]; rfl) (by rw [hs]; rfl) rfl hagain hsigned' hvalid'
  have hcount : s.redrafted.executions.length = 1 := by rw [hs]; rfl
  rw [hcount] at hsecond
  refine ⟨s.redrafted.latest (publishedSnapshot s.redrafted.snapshot request') (some 1) []
    (s.redrafted.log ++ [.effect 1 (.publish request'.event)]) ⟨now', .publish request' 1, true, false⟩,
    ?_, by rw [hs]; rfl, by rw [hs]; rfl⟩
  rw [exec_cons hstart, exec_append, hfirst, Option.bind_some, exec_append, hfailing, Option.bind_some,
    exec_retry (by rw [hs]; rfl) (by rw [hs]; rfl) (by rw [hs]; rfl) (by rw [hs]; exact hretry),
    hsecond]

end

/-! ### A retry within a second -/

/-- Events with different ids and different times or kinds. -/
theorem nostrIds_exact {events : List Core.Event} {parseUrl : Text → Option Url}
    (hsafe : ∀ e ∈ events, e.created_at < 2 ^ 53 ∧ e.kind < 2 ^ 53)
    (hid : (events.map fun e => e.id).Nodup)
    (hfields : (events.map fun e => (e.created_at, e.kind)).Nodup) :
    NostrIds (Protocol.exactPlatform events parseUrl) := by
  intro event event' h h'
  obtain ⟨e, he, rfl⟩ := List.mem_map.mp (of_decide_eq_true h)
  obtain ⟨e', he', rfl⟩ := List.mem_map.mp (of_decide_eq_true h')
  constructor
  · intro heq
    rw [List.inj_on_of_nodup_map hid he he' (ofText_inj.mp heq)]
    exact ⟨rfl, rfl, rfl, rfl, rfl⟩
  · intro hsame
    obtain ⟨hcreated, hkind⟩ := hsafe e' he'
    have hsecond := hsame.created_at
    have hsort := hsame.kind
    rw [show e'.toSdk.created_at = .nat e'.created_at from (Protocol.natToSdk_eq_nat hcreated).mpr rfl]
      at hsecond
    rw [show e'.toSdk.kind = .nat e'.kind from (Protocol.natToSdk_eq_nat hkind).mpr rfl] at hsort
    rw [List.inj_on_of_nodup_map hfields he he' (Prod.ext
      ((Protocol.natToSdk_eq_nat hcreated).mp hsecond) ((Protocol.natToSdk_eq_nat hkind).mp hsort))]

/-- The busy result, signed in the second of the request. -/
def quickResult : Core.Event := Protocol.busyResult 1900000000
  "5fbe4d87737c3648acde305e2dd5a268af105a731014933db778cae8e33c63d1"
  ("536f7b1ec92ee2b9b1e15236c88dea5e76474538d1800ee20f1207e6864b9182" ++
    "a87c4bd9bdfcd0be26c3ecbcf7de0183e0491c50b13f46b2db8e3af0e7b9669e")

def laterContent : Core.JobRequestContent := .new (.fibonacci 10) (some 1900000601)

/-- The request, signed a second later. -/
def laterRequest : Core.Event :=
  { Core.goldenRequest with
    id := Core.text "860f369fb24910b4810769a7ad577d5c1f6e713dc956d26d6c2c9a5b170bb8f8"
    created_at := 1900000001
    tags := Core.canonicalTags laterContent (some 21)
    content := laterContent.canonicalJson
    sig := Core.text ("6c36da7d81c50dbdc55a009fcdf5c2ec409e3829ed97603e8849ce77f981ae4" ++
      "4403707bd842651785ff80fd2e6765f24e26b6db209cb4ac3aeeb6981d20521a1") }

def quickEvents : List Core.Event := [Core.goldenRequest, quickResult, laterRequest]

/-- A browser client for these events. -/
def quickClient : SoulNostrClient :=
  { exampleClient with
    platform := Protocol.exactPlatform quickEvents Protocol.exampleUrls.parse
    signer := Nip07Signer (Protocol.exactPlatform quickEvents Protocol.exampleUrls.parse) }

theorem quickClient_ids : NostrIds quickClient.platform :=
  nostrIds_exact (by decide) (by decide +kernel) (by decide)

theorem quickClient_verifies {event : Core.Event} (h : event ∈ quickEvents) :
    quickClient.platform.verifyEvent event.toSdk = true :=
  decide_eq_true (List.mem_map_of_mem h)

theorem quickResult_form : Protocol.ResultForm quickResult Core.goldenJob 1900000000
    (Core.eventText Core.goldenRequest) Protocol.busyContent.toSdk := by
  have hshaped : Protocol.busyContent.Shaped := ⟨rfl, by decide +kernel, by decide +kernel, by decide +kernel⟩
  exact {
    kind := rfl
    size := Core.errorResult_fits (by decide +kernel) _ _
    notBefore := (by decide : 1900000000 ≤ 1900000000)
    notFuture := (by decide : 1900000000 ≤ Core.saturatingAdd 1900000000 Core.maxFutureSkewSecs)
    shaped := Sdk.shaped_toSdk.mpr hshaped
    requestId := rfl
    service := by rintro _ ⟨⟩
    content := (Sdk.serializeResult_toSdk hshaped).symm
    tags := rfl }

theorem goldenRequest_form_quick :
    Core.RequestForm Core.goldenRequest 1900000000 Core.goldenContent (some 21) :=
  { Core.goldenRequest_form with
    notFuture := by decide
    notOld := by decide
    valid := rfl }

theorem quickClient_accepts_request :
    validateRequestEvent quickClient.platform Core.goldenRequest.toSdk 1900000000 =
      .ok Protocol.goldenValidated :=
  (Protocol.validateRequestEvent_eq_ok (by decide)).mpr ⟨Core.goldenContent, some 21,
    quickClient_verifies (List.mem_cons_self ..), goldenRequest_form_quick, rfl⟩

theorem quickClient_accepts_result : ResultWait.acceptable quickClient Protocol.goldenValidated
    (quickResult.toSdk, 1900000000) = some ⟨quickResult.toSdk, Protocol.busyContent.toSdk⟩ := by
  have htrusted : quickClient.acceptsProvider quickResult.toSdk.pubkey = true := by decide +kernel
  have hvalid : validateResultEvent quickClient.platform quickResult.toSdk Protocol.goldenValidated
      1900000000 = .ok ⟨quickResult.toSdk, Protocol.busyContent.toSdk⟩ := by
    refine (Protocol.validateResultEvent_eq_ok (by decide) Core.goldenRequest_form (by decide)
      (some 21)).mpr ⟨Core.eventText Core.goldenRequest, _, ?_, quickResult_form, ?_, ?_, ?_, rfl⟩
    · exact quickClient_verifies (List.mem_cons_of_mem _ (List.mem_cons_self ..))
    · trivial
    · rintro _ ⟨⟩
    · exact (Protocol.readsRequest_iff (by decide) Core.goldenRequest_form
        (quickClient_verifies (List.mem_cons_self ..))).mpr
          (Protocol.spells_eventText (by decide) (by decide)
            (Protocol.signedEvents_hexForm _ Protocol.goldenRequest_mem))
  rw [ResultWait.acceptable, if_pos htrusted, hvalid]
  rfl

/-- A provider at capacity answers at once, and the job is retried at once. -/
def quickRetry : List (Label quickClient.signer.Answer) :=
  .start 1900000000 :: ([.proceed 1900000000,
    .complete 0 (.signed (answerOf Core.goldenRequest) 1900000000), .proceed 1900000000,
    .proceed 1900000000] ++ (([.complete 0 .published, .proceed 1900000000,
    .complete 0 (.event quickResult.toSdk 1900000000), .complete 0 .resumed] ++
    [.proceed 1900000000, .proceed 1900000000, .finalize 0]) ++ .retry :: .proceed 1900000000 ::
    [.proceed 1900000000, .complete 1 (.signed (answerOf Core.goldenRequest) 1900000000),
    .proceed 1900000000, .proceed 1900000000]))

theorem quickClient_signs {event : Core.Event} (h : event ∈ quickEvents) :
    quickClient.signer.signEvent (templateOf event) (answerOf event) = .ok event.toSdk := by
  have hsafe : ∀ e ∈ quickEvents, e.created_at < 2 ^ 53 ∧ e.kind < 2 ^ 53 := by decide
  have hkeys : ∀ e ∈ quickEvents, isHex64 e.toSdk.pubkey = true := by decide +kernel
  exact signEvent_answerOf (hsafe event h).1 (hsafe event h).2 (hkeys event h)
    (quickClient_verifies h)

theorem quickRetry_run : ∃ s, exec (step quickClient exampleOptions) (new (.fibonacci 10)) quickRetry =
    some s ∧ s.Published 0 Core.goldenRequest.toSdk ∧ s.Published 1 Core.goldenRequest.toSdk := by
  obtain ⟨s, hs, hlog, -⟩ := exec_publish_twice requestTemplate_golden
    (quickClient_signs (List.mem_cons_self ..)) quickClient_accepts_request
    (exec_errorResult rfl rfl quickClient_accepts_result rfl)
    ⟨rfl, _, rfl, rfl⟩ rfl requestTemplate_golden (quickClient_signs (List.mem_cons_self ..))
    quickClient_accepts_request
  refine ⟨s, hs, ?_, ?_⟩
  · rw [Published, hlog]
    exact List.mem_append_left _ (List.mem_append_left _ (List.mem_cons_self ..))
  · rw [Published, hlog]
    exact List.mem_append_right _ (List.mem_cons_self ..)

/-- Both executions of this run publish one and the same event, and the provider that answered the
    first one with its busy result answers the second one with that result as well. -/
theorem quick_retry_replays : NostrIds quickClient.platform ∧
    BuiltIn quickClient.platform quickClient.signer ∧
    (∃ s, exec (step quickClient exampleOptions) (new (.fibonacci 10)) quickRetry = some s ∧
      s.Published 0 Core.goldenRequest.toSdk ∧ s.Published 1 Core.goldenRequest.toSdk ∧
      ¬ (s.RetriesAreNew ∧ s.ProcessedAfresh)) ∧
    ∃ h h', exec (Provider.SignedJobHandler.step (Protocol.exampleSetup quickResult)) (.new 64)
        [.deliver Core.goldenRequest 1900000000, .claim 0,
          .complete 0 Provider.busyAnswers 1900000000, .remember 0] = some h ∧
      Provider.SignedJobHandler.step (Protocol.exampleSetup quickResult) h
        (.deliver Core.goldenRequest 1900000000) = some h' ∧
      h'.log = h.log ++ [.delivered Core.goldenRequest.id,
        .returned Core.goldenRequest.id (some quickResult)] := by
  obtain ⟨s, hs, hfirst, hsecond⟩ := quickRetry_run
  refine ⟨quickClient_ids, .nip07, ⟨s, hs, hfirst, hsecond, ?_⟩, ?_⟩
  · rintro ⟨hnew, -⟩
    exact hnew 0 1 _ _ Nat.zero_lt_one hfirst hsecond rfl
  · have hparse : Core.parseRequestEvent (Protocol.exampleSetup quickResult).L Core.goldenRequest
        1900000000 = .ok Core.goldenJob :=
      (Core.parseRequestEvent_eq_ok (Core.exactLibraries_lawful _ _)).mpr ⟨_, _,
        Core.exactLibraries_verify.mpr (List.mem_cons_self ..), goldenRequest_form_quick, rfl⟩
    exact Provider.SignedJobHandler.answer_replayed hparse (Protocol.exampleSetup_emits _ _ _)

/-- No relay takes the request, and the job is retried a second later. -/
def laterRetry : List (Label quickClient.signer.Answer) :=
  .start 1900000000 :: ([.proceed 1900000000,
    .complete 0 (.signed (answerOf Core.goldenRequest) 1900000000), .proceed 1900000000,
    .proceed 1900000000] ++ ([.complete 0 (.publishFailed (.other (js "offline"))),
    .proceed 1900000000, .finalize 0] ++ .retry :: .proceed 1900000001 ::
    [.proceed 1900000001, .complete 1 (.signed (answerOf laterRequest) 1900000001),
    .proceed 1900000001, .proceed 1900000001]))

theorem requestTemplate_later :
    requestTemplate exampleOptions (canonicalizeInput (.fibonacci 10)) 1900000001 =
      .ok (templateOf laterRequest) := by
  decide +kernel

theorem quickClient_accepts_later :
    validateRequestEvent quickClient.platform laterRequest.toSdk 1900000001 =
      .ok ⟨laterRequest.toSdk, laterContent.toSdk, ofText laterContent.canonicalJson⟩ :=
  (Protocol.validateRequestEvent_eq_ok (by decide)).mpr ⟨laterContent, some 21,
    quickClient_verifies (by simp [quickEvents]), {
      kind := rfl
      fits := ⟨by decide, by rintro e ⟨⟩; decide⟩
      size := by decide +kernel
      notFuture := by decide
      notOld := by decide
      valid := rfl
      content := rfl
      bidOk := by rintro b ⟨⟩; decide
      tags := rfl }, rfl⟩

/-- A retry in another second is a new request. -/
theorem later_retry_is_new : ∃ s,
    exec (step quickClient exampleOptions) (new (.fibonacci 10)) laterRetry = some s ∧
      s.Published 0 Core.goldenRequest.toSdk ∧ s.Published 1 laterRequest.toSdk ∧
      s.RetriesAreNew ∧ s.ProcessedAfresh := by
  have hthrows : complete quickClient exampleOptions (new (.fibonacci 10)).aborts
      (.publish Protocol.goldenValidated 1) (.publishFailed (.other (js "offline"))) =
        some (.throws (publishFailed (.other (js "offline")))) := rfl
  obtain ⟨s, hs, hlog, hexecutions⟩ := exec_publish_twice requestTemplate_golden
    (quickClient_signs (List.mem_cons_self ..)) quickClient_accepts_request
    (exec_rejected rfl JobState.noConfusion rfl hthrows) ⟨rfl, _, rfl, rfl⟩ rfl requestTemplate_later
    (quickClient_signs (by simp [quickEvents])) quickClient_accepts_later
  have hpublished : ∀ j event, s.Published j event ↔ j = 0 ∧ event = Core.goldenRequest.toSdk ∨
      j = 1 ∧ event = laterRequest.toSdk := by
    intro j event
    rw [Published, hlog]
    simp [Protocol.goldenValidated]
  refine ⟨s, hs, (hpublished _ _).mpr (Or.inl ⟨rfl, rfl⟩), (hpublished _ _).mpr (Or.inr ⟨rfl, rfl⟩),
    ((retry_is_new_iff quickClient exampleOptions quickClient_ids _ laterRetry s hs).2 .nip07).mpr ?_⟩
  intro i j event event' e e' hij hi hj he he' hclock
  rcases (hpublished i event).mp hi with ⟨rfl, -⟩ | ⟨rfl, -⟩
  · rcases (hpublished j event').mp hj with ⟨rfl, -⟩ | ⟨rfl, -⟩
    · exact absurd hij (Nat.lt_irrefl 0)
    · rw [hexecutions] at he he'
      cases he
      cases he'
      exact absurd hclock (by decide)
  · rcases (hpublished j event').mp hj with ⟨rfl, -⟩ | ⟨rfl, -⟩
    · exact absurd hij (Nat.not_lt_zero 1)
    · exact absurd hij (Nat.lt_irrefl 1)

end SoulJob

end SoulSociety.Session
