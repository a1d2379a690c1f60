import SoulSociety.Protocol.ArtifactUrls
import SoulSociety.Protocol.EmbeddedRequest

/-! One result protocol in two languages, except for what only one side checks. The validators agree
    on every event that is no answer, and on an answer exactly when the checks of their own have one
    outcome. The SDK compares the public input of the statement with the request, as the provider
    does before it publishes; `parse_result_event` does not, so it takes a proof of another
    computation for an answer. -/

namespace SoulSociety.Protocol
open Lib SoulSociety.Core

/-! ### What one side takes -/

/-- What `soul-core` asks of an answer: strings that a Rust value can hold, a URL with HTTPS or on a
    loopback host, and an embedded event that its libraries read as the request. -/
structure CoreTakes (L : Libraries) (source : Event) (embedded : Text) (c : Sdk.JobResult) :
    Prop where
  unicode : c.Unicode
  url : ∀ r, c = .success r → ∃ url, L.parseUrl (toUsv r.proof.url) = some url ∧
    (url.scheme = text "https" ∨ url.scheme = text "http" ∧ url.OnLoopback)
  request : NostrReads L embedded source

/-- What the SDK asks of an answer: a URL without credentials and fragment, with HTTPS or on a loopback
    host or under `localhost`, the public input of the request, and an embedded text that spells
    the request. -/
structure SdkTakes (L : Libraries) (source : Event) (input : JobInput) (embedded : Text)
    (c : Sdk.JobResult) : Prop where
  url : ∀ r, c = .success r → ∃ url, L.parseUrl (toUsv r.proof.url) = some url ∧
    ¬ url.Decorated ∧ (url.scheme = text "https" ∨
      url.scheme = text "http" ∧ (url.OnLoopback ∨ url.UnderLocalhost))
  bound : Bound c input
  request : Spells embedded source

/-- The answers that one side takes and the other does not. -/
inductive Divides (L : Libraries) (source : Event) (input : JobInput) (embedded : Text)
    (c : Sdk.JobResult) : Prop where
  -- `soul-core` takes them
  | anotherInput (h : CoreTakes L source embedded c) (hinput : ¬ Bound c input)
  | decorated (h : CoreTakes L source embedded c) {r : Sdk.SuccessfulJobResult} {url : Url}
      (hc : c = .success r) (hurl : L.parseUrl (toUsv r.proof.url) = some url)
      (hdecorated : url.Decorated)
  | respelled (h : CoreTakes L source embedded c) (hspelling : ¬ Spells embedded source)
  -- the SDK takes them
  | surrogate (h : SdkTakes L source input embedded c) (hunicode : ¬ c.Unicode)
  | underLocalhost (h : SdkTakes L source input embedded c) {r : Sdk.SuccessfulJobResult}
      {url : Url} (hc : c = .success r) (hurl : L.parseUrl (toUsv r.proof.url) = some url)
      (hscheme : url.scheme = text "http") (hhost : url.UnderLocalhost)
  | unread (h : SdkTakes L source input embedded c) (hreads : ¬ NostrReads L embedded source)

/-- A name under `localhost` is not a loopback host to `soul-core`. -/
theorem not_onLoopback_of_underLocalhost {url : Url} (h : url.UnderLocalhost) :
    ¬ url.OnLoopback := by
  rintro ⟨host, hhost, hloopback⟩
  obtain ⟨name, hname⟩ := h
  obtain rfl := Option.some.inj (hname.symm.trans hhost)
  rcases hloopback with hlocal | hlocal
  · have hlen := congrArg List.length (Host.domain.inj hlocal)
    rw [List.length_append] at hlen
    simp at hlen
  · cases hlocal

/-- The six kinds are all the differences between the two sides. -/
theorem divides_iff {L : Libraries} {source : Event} {input : JobInput} {embedded : Text}
    {c : Sdk.JobResult} : Divides L source input embedded c ↔
      ¬ (CoreTakes L source embedded c ↔ SdkTakes L source input embedded c) := by
  have hne : text "http" ≠ text "https" := by decide
  constructor
  · rintro h hsame
    cases h with
    | anotherInput h hinput => exact hinput (hsame.mp h).bound
    | decorated h hc hurl hdecorated =>
      obtain ⟨url', hurl', hplain, -⟩ := (hsame.mp h).url _ hc
      obtain rfl := Option.some.inj (hurl.symm.trans hurl')
      exact hplain hdecorated
    | respelled h hspelling => exact hspelling (hsame.mp h).request
    | surrogate h hunicode => exact hunicode (hsame.mpr h).unicode
    | underLocalhost h hc hurl hscheme hhost =>
      obtain ⟨url', hurl', hallowed⟩ := (hsame.mpr h).url _ hc
      obtain rfl := Option.some.inj (hurl.symm.trans hurl')
      rcases hallowed with hhttps | ⟨-, hloopback⟩
      · exact hne (hscheme.symm.trans hhttps)
      · exact not_onLoopback_of_underLocalhost hhost hloopback
    | unread h hreads => exact hreads (hsame.mpr h).request
  · intro hdiffer
    by_contra hnone
    refine hdiffer ⟨fun h => ?_, fun h => ?_⟩
    · refine ⟨fun r hc => ?_, ?_, ?_⟩
      · obtain ⟨url, hurl, hallowed⟩ := h.url r hc
        refine ⟨url, hurl, fun hdecorated => hnone (.decorated h hc hurl hdecorated), ?_⟩
        exact hallowed.imp_right fun ⟨hhttp, hloopback⟩ => ⟨hhttp, Or.inl hloopback⟩
      · by_contra hinput
        exact hnone (.anotherInput h hinput)
      · by_contra hspelling
        exact hnone (.respelled h hspelling)
    · refine ⟨?_, fun r hc => ?_, ?_⟩
      · by_contra hunicode
        exact hnone (.surrogate h hunicode)
      · obtain ⟨url, hurl, -, hallowed⟩ := h.url r hc
        refine ⟨url, hurl, hallowed.imp_right fun ⟨hhttp, hhost⟩ => ⟨hhttp, ?_⟩⟩
        exact hhost.resolve_right fun hunder => hnone (.underLocalhost h hc hurl hhttp hunder)
      · by_contra hreads
        exact hnone (.unread h hreads)

/-! ### What both sides accept -/

/-- The URL policy of `soul-core`, where there is a URL. -/
theorem coreUrl_iff {parseUrl : Text → Option Url} (hweb : Url.WebHosts parseUrl) :
    ∀ {c : JobResultContent}, c.UrlOk parseUrl ↔ ∀ r, c.toSdk = .success r →
      ∃ url, parseUrl (toUsv r.proof.url) = some url ∧
        (url.scheme = text "https" ∨ url.scheme = text "http" ∧ url.OnLoopback)
  | .success _ _ _ d _ => by
    have hurl : toUsv d.toSdk.url = d.url := toUsv_ofText d.url
    simp only [JobResultContent.toSdk, Sdk.JobResult.success.injEq, forall_eq', hurl]
    exact exists_congr fun url => and_congr_right fun hparse => core_urlAllowed_iff hweb hparse
  | .error _ _ _ => by simp [JobResultContent.UrlOk, JobResultContent.toSdk]

/-- The URL policy of the SDK, where there is a URL. -/
theorem sdkUrl_iff {parseUrl : Text → Option Url} (hweb : Url.WebHosts parseUrl) :
    ∀ {c : Sdk.JobResult}, c.UrlOk parseUrl ↔ ∀ r, c = .success r →
      ∃ url, parseUrl (toUsv r.proof.url) = some url ∧ ¬ url.Decorated ∧
        (url.scheme = text "https" ∨
          url.scheme = text "http" ∧ (url.OnLoopback ∨ url.UnderLocalhost))
  | .success r => by
    simp only [Sdk.JobResult.UrlOk, Sdk.JobResult.success.injEq, forall_eq',
      Sdk.isSafeArtifactUrl]
    constructor
    · intro h
      split at h
      · rename_i url hparse
        exact ⟨url, hparse, (sdk_urlAllowed_iff hweb hparse).mp h⟩
      · cases h
    · rintro ⟨url, hparse, h⟩
      rw [hparse]
      exact (sdk_urlAllowed_iff hweb hparse).mpr h
  | .error _ => by simp [Sdk.JobResult.UrlOk]

/-- `parse_result_event` accepts the authentic answers that `soul-core` takes. -/
theorem parseResultEvent_accepts {L : Libraries} (hL : L.Lawful) (hweb : Url.WebHosts L.parseUrl)
    {source : Event} (hsource : L.verify source = true) {event : Event} {request : JobRequest}
    (hserialized : request.serialized_event = eventText source) {now : ℕ} :
    (∃ c, parseResultEvent L event request now = .ok c) ↔ ∃ embedded c, L.verify event = true ∧
      ResultForm event request now embedded c ∧ CoreTakes L source embedded c := by
  simp only [parseResultEvent_eq_ok hL hsource hserialized, parseEmbeddedRequestEvent_eq_ok,
    hsource, and_true, coreUrl_iff hweb]
  constructor
  · rintro ⟨c, embedded, hverify, hform, hurl, hread⟩
    exact ⟨embedded, c.toSdk, hverify, hform, hform.shaped.unicode_iff.mpr ⟨c, rfl⟩, hurl, hread⟩
  · rintro ⟨embedded, c, hverify, hform, hunicode, hurl, hread⟩
    obtain ⟨r, rfl⟩ := hform.shaped.unicode_iff.mp hunicode
    exact ⟨r, embedded, hverify, hform, hurl, hread⟩

/-- Both validators accept, and return one value, or both reject. -/
def ResultValidatorsAgree (L : Libraries) (P : Sdk.Platform) (event : Event) (request : JobRequest)
    (validated : Sdk.ValidatedRequest) (now : ℕ) : Prop :=
  ((∃ c, parseResultEvent L event request now = .ok c) ↔
    ∃ w, Sdk.validateResultEvent P event.toSdk validated now = .ok w) ∧
  ∀ c w, parseResultEvent L event request now = .ok c →
    Sdk.validateResultEvent P event.toSdk validated now = .ok w → w.content = c.toSdk

/-- The validators agree on an event exactly when it is no authentic answer of the six kinds. -/
theorem result_validators_agree_iff {L : Libraries} {P : Sdk.Platform} (hL : L.Lawful)
    (hauth : AuthenticityAgrees L P) (hparse : P.parseUrl = L.parseUrl)
    (hweb : Url.WebHosts L.parseUrl) {source : Event} {now₀ now₁ : ℕ} {request : JobRequest}
    {validated : Sdk.ValidatedRequest} (hrequest : parseRequestEvent L source now₀ = .ok request)
    (hclock₁ : now₁ < 2 ^ 53 - 4000)
    (hvalidated : Sdk.validateRequestEvent P source.toSdk now₁ = .ok validated) (event : Event)
    {now : ℕ} (hclock : now < 2 ^ 53 - 4000) :
    ResultValidatorsAgree L P event request validated now ↔
      ∀ embedded c, L.verify event = true → ResultForm event request now embedded c →
        ¬ Divides L source request.input embedded c := by
  obtain ⟨q, bid, hsource, hform₀, rfl⟩ := (parseRequestEvent_eq_ok hL).mp hrequest
  obtain ⟨q', bid₁, hverify, hform₁, rfl⟩ := (validateRequestEvent_eq_ok hclock₁).mp hvalidated
  obtain rfl : q = q' := hform₀.content_unique hform₁
  have hsdk : (∃ w, Sdk.validateResultEvent P event.toSdk
      ⟨source.toSdk, q.toSdk, ofText q.canonicalJson⟩ now = .ok w) ↔ ∃ embedded c,
        L.verify event = true ∧ ResultForm event (requestOf source q bid) now embedded c ∧
          SdkTakes L source q.input embedded c := by
    simp only [validateResultEvent_eq_ok hclock₁ hform₁ hclock bid, hparse, sdkUrl_iff hweb,
      readsRequest_iff hclock₁ hform₁ hverify]
    constructor
    · rintro ⟨_, embedded, c, hevent, hform, hurl, hbound, hreads, -⟩
      obtain ⟨hcreated, hkind⟩ := hform.safe hclock
      exact ⟨embedded, c, (hauth event hcreated hkind).trans hevent, hform, hurl, hbound, hreads⟩
    · rintro ⟨embedded, c, hevent, hform, hurl, hbound, hreads⟩
      obtain ⟨hcreated, hkind⟩ := hform.safe hclock
      exact ⟨_, embedded, c, (hauth event hcreated hkind).symm.trans hevent, hform, hurl, hbound,
        hreads, rfl⟩
  rw [ResultValidatorsAgree, parseResultEvent_accepts hL hweb hsource rfl, hsdk]
  simp only [divides_iff, not_not]
  constructor
  · rintro ⟨haccept, -⟩ embedded c hevent hform
    constructor
    · intro hcore
      obtain ⟨_, _, -, hform', htakes⟩ := haccept.mp ⟨embedded, c, hevent, hform, hcore⟩
      obtain ⟨rfl, rfl⟩ := hform.unique hform'
      exact htakes
    · intro htakes
      obtain ⟨_, _, -, hform', hcore⟩ := haccept.mpr ⟨embedded, c, hevent, hform, htakes⟩
      obtain ⟨rfl, rfl⟩ := hform.unique hform'
      exact hcore
  · intro hsame
    refine ⟨⟨?_, ?_⟩, ?_⟩
    · rintro ⟨embedded, c, hevent, hform, hcore⟩
      exact ⟨embedded, c, hevent, hform, (hsame embedded c hevent hform).mp hcore⟩
    · rintro ⟨embedded, c, hevent, hform, htakes⟩
      exact ⟨embedded, c, hevent, hform, (hsame embedded c hevent hform).mpr htakes⟩
    · intro c w hc hw
      obtain ⟨_, -, hform, -⟩ := (parseResultEvent_eq_ok hL hsource rfl).mp hc
      obtain ⟨_, _, -, hform', -, -, -, rfl⟩ :=
        (validateResultEvent_eq_ok hclock₁ hform₁ hclock bid).mp hw
      exact (hform.unique hform').2.symm

/-! ### Signed results -/

/-- The digest of the proof in `protocol/fixtures/wire`. -/
def fixtureSha : Text := text "5d23ce867fb5c3e2f3346e090e5a7dd4f1d5e088735b9b968f0812c4f350504e"

def fixtureUrl : Url where
  scheme := text "https"
  username := []
  password := none
  host := some (.domain (text "proofs.example"))
  port := none
  path := text "/v1/proofs/" ++ fixtureSha ++ text ".json"
  query := none
  fragment := none

def fixtureUrlText : Text := text "https://proofs.example/v1/proofs/" ++ fixtureSha ++ text ".json"

/-- A URL parser, as far as the fixtures need it. -/
def fixtureParseUrl (t : Text) : Option Url := if t = fixtureUrlText then some fixtureUrl else none

/-- A success for the signed request whose statement is about the Fibonacci number `n`. The one in
    `protocol/fixtures/wire` has `n = 10`, which is what the request asks for. -/
def resultContent (n : ℕ) : JobResultContent :=
  .newSuccess goldenRequest.id
    { service := .fibonacci
      program := cairoProgram
      public_input := [FeltHex.fromU64 n]
      public_output := [FeltHex.fromU64 55]
      output := .fibonacci (FeltHex.fromU64 55) }
    { format := proofFormat
      media_type := proofMediaType
      url := fixtureUrlText
      sha256 := fixtureSha
      byte_size := 29
      program_hash := FeltHex.fromU64 9
      channel := proofChannel }
    { execution_ms := 1, proving_ms := 2, verification_ms := 3 }

/-- An event of the test provider with the content. -/
def resultEvent (content : JobResultContent) (id sig : String) : Event where
  id := text id
  pubkey := text "c6047f9441ed7d6d3045406e95c07cd85c778e4b8cef3ca7abac09b95c709ee5"
  created_at := 1900000002
  kind := 6601
  tags := resultTags goldenJob content
  content := content.toText
  sig := text sig

/-- The signed result in `protocol/fixtures/wire`. -/
def goldenResult : Event := resultEvent (resultContent 10)
  "a4422cacde597debbcc5535e7a0886697f98fe9daf2ec9b104e82d8deeb4d745"
  ("161ffe90afbd0b60cfc62517bfa0029c836052f9c592bd015ed8eb0d3f8f28c7" ++
    "7e81b61246a56dc4e2c7c9caa00e57ccc0af920359d6ac016e5890ef1d167ab7")

/-- The same provider signs a statement about another number. -/
def misboundResult : Event := resultEvent (resultContent 11)
  "1d0337773747c0b8d5f3b908bb8ff12e81f9dc732b013158b5512654905adb97"
  ("4de640f004e08b40a9096a5e85ea9f3f69773cf272133ca7122d324ddd3c7cd3" ++
    "ac207dae79b06df9b1d3e720712a5142c66c024bd71a435bf0b07fc3e8cfce9a")

def signedEvents : List Event := [goldenRequest, goldenResult, misboundResult]

theorem goldenRequest_mem : goldenRequest ∈ signedEvents := List.mem_cons_self ..

theorem misboundResult_mem : misboundResult ∈ signedEvents :=
  List.mem_cons_of_mem _ (List.mem_cons_of_mem _ (List.mem_cons_self ..))

theorem signedEvents_hexForm : ∀ e ∈ signedEvents, HexForm e := by
  simp only [signedEvents, List.forall_mem_cons]
  refine ⟨?_, ?_, ?_, by simp⟩ <;>
    exact ⟨by decide +kernel, by decide +kernel, by decide +kernel⟩

theorem resultContent_shaped (n : ℕ) : (resultContent n).Shaped := by
  have hid : isLowerHex goldenRequest.id 64 = true := by decide +kernel
  have hsha : isLowerHex fixtureSha 64 = true := by decide +kernel
  refine ⟨rfl, hid, ⟨rfl, ?_⟩, ⟨⟨rfl, rfl, rfl, by decide, by decide⟩, hsha⟩, by decide, by decide,
    by decide⟩
  simp [ProofStatement.layoutMatches]

theorem resultContent_urlOk (n : ℕ) : (resultContent n).UrlOk fixtureParseUrl :=
  ⟨fixtureUrl, if_pos rfl, by decide⟩

/-- The test provider's events are answers, whatever number they are about. -/
theorem resultEvent_form {n : ℕ} (hsize : utf8Len (resultContent n).toText ≤ maxResultBytes)
    (id sig : String) : ResultForm (resultEvent (resultContent n) id sig) goldenJob 1900000005
      (eventText goldenRequest) (resultContent n).toSdk where
  kind := rfl
  size := hsize
  notBefore := (by decide : 1900000000 ≤ 1900000002)
  notFuture := (by decide : 1900000002 ≤ saturatingAdd 1900000005 maxFutureSkewSecs)
  shaped := Sdk.shaped_toSdk.mpr (resultContent_shaped n)
  requestId := rfl
  service := by rintro _ ⟨⟩; rfl
  content := (Sdk.serializeResult_toSdk (resultContent_shaped n)).symm
  tags := rfl

theorem goldenResult_form : ResultForm goldenResult goldenJob 1900000005
    (eventText goldenRequest) (resultContent 10).toSdk :=
  resultEvent_form (by decide +kernel) _ _

theorem misboundResult_form : ResultForm misboundResult goldenJob 1900000005
    (eventText goldenRequest) (resultContent 11).toSdk :=
  resultEvent_form (by decide +kernel) _ _

/-- The Rust validator takes a statement about another number. -/
theorem misboundResult_accepted :
    parseResultEvent (exactLibraries signedEvents fixtureParseUrl) misboundResult goldenJob
      1900000005 = .ok (resultContent 11) := by
  have hL := exactLibraries_lawful signedEvents fixtureParseUrl
  have hsource : (exactLibraries signedEvents fixtureParseUrl).verify goldenRequest = true :=
    exactLibraries_verify.mpr goldenRequest_mem
  refine (parseResultEvent_eq_ok hL hsource rfl).mpr ⟨eventText goldenRequest, ?_,
    misboundResult_form, resultContent_urlOk 11, parseEmbeddedRequestEvent_eventText hL hsource⟩
  exact exactLibraries_verify.mpr misboundResult_mem

theorem not_bound_eleven : ¬ Bound (resultContent 11).toSdk goldenJob.input := by
  intro h
  exact absurd (h _ rfl) (by decide)

/-- The fixtures' parser has one URL, whose host is a standard domain. -/
theorem fixtureParseUrl_webHosts : Url.WebHosts fixtureParseUrl := by
  have honly : ∀ {t u}, fixtureParseUrl t = some u → u = fixtureUrl := fun h =>
    (Option.some.inj (Option.ite_none_right_eq_some.mp h).2).symm
  have hlast : ((text "proofs.example").splitOn '.').getLast? = some (text "example") := by decide
  refine ⟨?_, ?_⟩
  · intro t u h _
    rw [honly h]
    rfl
  · intro t u name h _ hhost
    rw [honly h] at hhost
    obtain rfl := Host.domain.inj (Option.some.inj hhost)
    refine ⟨by decide, by decide, by decide, ?_⟩
    rintro ⟨label, hlabel, -, hdigits⟩
    obtain rfl := Option.some.inj (hlast.symm.trans hlabel)
    exact absurd hdigits (by decide)

/-- The validators of the two languages differ on a statement about another number. -/
theorem misboundResult_divides :
    (exactLibraries signedEvents fixtureParseUrl).Lawful ∧
    AuthenticityAgrees (exactLibraries signedEvents fixtureParseUrl)
      (exactPlatform signedEvents fixtureParseUrl) ∧
    (exactPlatform signedEvents fixtureParseUrl).parseUrl =
      (exactLibraries signedEvents fixtureParseUrl).parseUrl ∧
    Url.WebHosts (exactLibraries signedEvents fixtureParseUrl).parseUrl ∧
    parseRequestEvent (exactLibraries signedEvents fixtureParseUrl) goldenRequest 1900000005 =
      .ok goldenJob ∧
    Sdk.validateRequestEvent (exactPlatform signedEvents fixtureParseUrl) goldenRequest.toSdk
      1900000005 = .ok goldenValidated ∧
    parseResultEvent (exactLibraries signedEvents fixtureParseUrl) misboundResult goldenJob
      1900000005 = .ok (resultContent 11) ∧
    ¬ ∃ w, Sdk.validateResultEvent (exactPlatform signedEvents fixtureParseUrl)
      misboundResult.toSdk goldenValidated 1900000005 = .ok w := by
  obtain ⟨hrequest, hvalidated⟩ := goldenRequest_accepted goldenRequest_mem fixtureParseUrl
  refine ⟨exactLibraries_lawful _ _, authenticityAgrees_exact _ _, rfl, fixtureParseUrl_webHosts,
    hrequest, hvalidated, misboundResult_accepted, ?_⟩
  rintro ⟨w, hw⟩
  obtain ⟨_, _, -, hform, -, hbound, -, -⟩ :=
    (validateResultEvent_eq_ok (by decide) goldenRequest_form (by decide) (some 21)).mp hw
  obtain ⟨-, rfl⟩ := misboundResult_form.unique hform
  exact not_bound_eleven hbound

/-- Both sides take the test provider's successes, but for the public input. -/
theorem resultContent_takes (n : ℕ) :
    CoreTakes (exactLibraries signedEvents fixtureParseUrl) goldenRequest (eventText goldenRequest)
        (resultContent n).toSdk ∧
      ∀ r, (resultContent n).toSdk = .success r → ∃ url,
        (exactLibraries signedEvents fixtureParseUrl).parseUrl (toUsv r.proof.url) = some url ∧
          ¬ url.Decorated ∧ url.scheme = text "https" := by
  have hL := exactLibraries_lawful signedEvents fixtureParseUrl
  have hsource : (exactLibraries signedEvents fixtureParseUrl).verify goldenRequest = true :=
    exactLibraries_verify.mpr goldenRequest_mem
  have hurl : ∀ r, (resultContent n).toSdk = .success r →
      fixtureParseUrl (toUsv r.proof.url) = some fixtureUrl := by
    rintro r ⟨⟩
    exact (congrArg fixtureParseUrl (toUsv_ofText fixtureUrlText)).trans (if_pos rfl)
  have hunicode : (resultContent n).toSdk.Unicode :=
    (Sdk.shaped_toSdk.mpr (resultContent_shaped n)).unicode_iff.mpr ⟨_, rfl⟩
  refine ⟨⟨hunicode, fun r hc => ⟨_, hurl r hc, Or.inl rfl⟩, nostrReads_eventText hL hsource⟩,
    fun r hc => ⟨_, hurl r hc, ?_, rfl⟩⟩
  rintro (h | h | h) <;> exact h rfl

/-- The validators agree on the signed result in `protocol/fixtures/wire`, and differ on the one about
    another number. -/
theorem signedResults_agreement :
    ResultValidatorsAgree (exactLibraries signedEvents fixtureParseUrl)
        (exactPlatform signedEvents fixtureParseUrl) goldenResult goldenJob goldenValidated
        1900000005 ∧
      ¬ ResultValidatorsAgree (exactLibraries signedEvents fixtureParseUrl)
        (exactPlatform signedEvents fixtureParseUrl) misboundResult goldenJob goldenValidated
        1900000005 := by
  obtain ⟨hrequest, hvalidated⟩ := goldenRequest_accepted goldenRequest_mem fixtureParseUrl
  have hiff := fun event => result_validators_agree_iff (exactLibraries_lawful _ _)
    (authenticityAgrees_exact _ _) rfl fixtureParseUrl_webHosts hrequest (by decide) hvalidated event
    (show 1900000005 < 2 ^ 53 - 4000 by decide)
  refine ⟨(hiff goldenResult).mpr ?_, fun hagree => ?_⟩
  · intro embedded c _ hform
    obtain ⟨rfl, rfl⟩ := goldenResult_form.unique hform
    obtain ⟨hcore, hurl⟩ := resultContent_takes 10
    rw [divides_iff, not_not]
    refine iff_of_true hcore ⟨fun r hc => ?_, ?_, ?_⟩
    · obtain ⟨url, hparse, hplain, hhttps⟩ := hurl r hc
      exact ⟨url, hparse, hplain, Or.inl hhttps⟩
    · rintro r ⟨⟩
      rfl
    · exact spells_eventText (by decide) (by decide) (signedEvents_hexForm _ goldenRequest_mem)
  · exact (hiff misboundResult).mp hagree _ _ (exactLibraries_verify.mpr misboundResult_mem)
      misboundResult_form (.anotherInput (resultContent_takes 11).1 not_bound_eleven)

end SoulSociety.Protocol
