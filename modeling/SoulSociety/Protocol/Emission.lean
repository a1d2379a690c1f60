import SoulSociety.Core.Sizes
import SoulSociety.Protocol.Results
import SoulSociety.Provider.Handler

/-! What the provider sends. Its clients accept a signed result as soon as two things hold that
    `handle_event` leaves to chance: the result carries no earlier time than the request, which the
    window for requests from the future admits, and the request is not from the provider's own key,
    whose `p` tag the event builder would drop. -/

namespace SoulSociety.Protocol
open Lib SoulSociety.Core

/-! ### URLs -/

/-- What is joined to the base URL of a provider is a URL that clients may fetch. -/
theorem urlAllowed_of_base {U : Provider.UrlLibrary} (hU : U.Lawful) {value : Text} {base : Url}
    (hbase : Provider.validatePublicBaseUrl U value = some base) (path : Text) :
    Sdk.urlAllowed { base with path := path } = true := by
  obtain ⟨url, hparse, h⟩ := Option.bind_eq_some_iff.mp hbase
  obtain ⟨hallowed, hslash⟩ := Option.ite_none_right_eq_some.mp h
  obtain ⟨_, rfl⟩ : ∃ p, base = { url with path := p } := by
    rw [← Option.some.inj hslash, Provider.withSlash]
    split
    · exact ⟨_, rfl⟩
    · exact ⟨_, rfl⟩
  simp only [Provider.baseUrlAllowed, Bool.and_eq_true, Bool.or_eq_true, decide_eq_true_eq,
    Option.isNone_iff_eq_none, Bool.not_eq_true', Bool.and_eq_false_iff, decide_eq_false_iff_not,
    Bool.not_eq_false'] at hallowed
  obtain ⟨⟨⟨⟨⟨⟨hscheme, hhost⟩, husername⟩, hpassword⟩, -⟩, hfragment⟩, hloopback⟩ := hallowed
  have hlower : ∀ name, url.host = some (.domain name) →
      name ≠ [] ∧ name.map Char.toLower = name := fun name =>
    hU.domain_lower value url name hparse hscheme
  have hname : ({ url with path := path } : Url).hostname ≠ [] :=
    hostname_ne_nil (fun name hname => (hlower name hname).1) hhost
  have hprotocol : url.scheme ++ [':'] = text "https:" ∨
      url.scheme ++ [':'] = text "http:" ∧ Sdk.isLoopbackHostname url.hostname = true := by
    rcases hscheme with hhttp | hhttps
    · refine Or.inr ⟨by rw [hhttp]; rfl, isLoopbackHostname_of_onLoopback ?_⟩
      refine (isLoopbackHost_iff fun name hname => (hlower name hname).2).mp ?_
      exact hloopback.resolve_left fun h => h hhttp
    · exact Or.inl (by rw [hhttps]; rfl)
  simp only [Sdk.urlAllowed, Bool.and_eq_true, Bool.or_eq_true, decide_eq_true_eq]
  refine ⟨⟨⟨⟨hname, husername⟩, ?_⟩, ?_⟩, hprotocol⟩
  · simp [Url.passwordText, hpassword]
  · simp [Url.hash, Url.delimited, hfragment]

/-! ### What is published -/

/-- A result about the request that passes the checks of both sides. -/
structure Publishable (parseUrl : Text → Option Url) (request : JobRequest)
    (c : JobResultContent) : Prop where
  shaped : c.Shaped
  coreUrl : c.UrlOk parseUrl
  sdkUrl : c.toSdk.UrlOk parseUrl
  requestId : c.requestId = request.id
  service : AboutService c.toSdk request.service
  bound : Bound c.toSdk request.input

/-- Whatever the proof pipeline returned, the result is about the request and passes every check. -/
theorem publishable_resultFor {U : Provider.UrlLibrary} (hU : U.Lawful) {value : Text} {base : Url}
    (hbase : Provider.validatePublicBaseUrl U value = some base) {request : JobRequest}
    (hid : isLowerHex request.id 64 = true) (hservice : request.service = request.input.service)
    (answers : Provider.Answers) :
    Publishable U.parse request
      (Provider.resultFor request (Provider.process U base answers request)) := by
  cases hprocess : Provider.process U base answers request with
  | error e =>
    refine ⟨⟨rfl, hid, Provider.messageOk_publicMessage e⟩, trivial, trivial, rfl, ?_, ?_⟩
    · rintro r ⟨⟩
    · rintro r ⟨⟩
  | ok result =>
    obtain ⟨artifact, stored, descriptor, -, -, hdescriptor, hmatch, rfl, hvalid⟩ :=
      Provider.process_eq_ok hprocess
    obtain ⟨hshaped, hurl⟩ := JobResultContent.validate_iff.mp hvalid
    obtain ⟨hsame, hinput⟩ := Provider.statementMatchesRequest_iff.mp hmatch
    refine ⟨hshaped, hurl, ?_, rfl, ?_, ?_⟩
    · obtain ⟨url, hjoin, rfl⟩ := Option.map_eq_some_iff.mp hdescriptor
      have hsha : isLowerHex stored.sha256 64 = true := hshaped.2.2.2.1.2
      have hparse := hU.parse_toText value base _ url hbase hjoin
      rw [hU.join_artifactPath value base stored.sha256 hbase hsha] at hjoin
      change Sdk.isSafeArtifactUrl U.parse (ofText (U.toText url)) = true
      rw [Sdk.isSafeArtifactUrl, toUsv_ofText, hparse, ← Option.some.inj hjoin]
      exact urlAllowed_of_base hU hbase _
    · rintro r ⟨⟩
      exact hsame.trans hservice.symm
    · rintro r ⟨⟩
      exact congrArg (List.map FeltHex.toSdk) hinput

/-! ### Acceptance -/

/-- `parse_result_event` and `validateResultEvent` both take the event for an answer. -/
def AcceptedByClients (L : Libraries) (Q : Sdk.Platform) (e : Event) (request : JobRequest)
    (validated : Sdk.ValidatedRequest) (now : ℕ) : Prop :=
  (∃ c, parseResultEvent L e request now = .ok c) ∧
    ∃ w, Sdk.validateResultEvent Q e.toSdk validated now = .ok w

/-- A provider at work: its libraries obey the laws, and its base URL passed
    `validate_public_base_url`. -/
structure Operated (P : Provider.Setup) : Prop where
  libraries : P.L.Lawful
  hexFields : HexFields P.L
  urls : P.U.Lawful
  keys : P.keys.Lawful P.L
  base : ∃ value, Provider.validatePublicBaseUrl P.U value = some P.base

/-- A provider at work and its clients, whose libraries agree. -/
structure Deployment (P : Provider.Setup) (Q : Sdk.Platform) : Prop extends Operated P where
  authenticity : AuthenticityAgrees P.L Q
  coreParseUrl : P.L.parseUrl = P.U.parse
  sdkParseUrl : Q.parseUrl = P.U.parse

/-- What the provider emits for an accepted request is accepted from then on, on both sides, exactly
    when it was not stamped before the request and the request is not from the provider itself. -/
theorem emitted_result_accepted_iff {P : Provider.Setup} {Q : Sdk.Platform} (D : Deployment P Q)
    {source : Event} {now now₁ t : ℕ} {request : JobRequest} {validated : Sdk.ValidatedRequest}
    (hrequest : parseRequestEvent P.L source now = .ok request) (hclock₁ : now₁ < 2 ^ 53 - 4000)
    (hvalidated : Sdk.validateRequestEvent Q source.toSdk now₁ = .ok validated)
    {answers : Provider.Answers} (hclock : t < 2 ^ 53 - 4000) {e : Event}
    (hemitted : Provider.handleClaimed P request answers t = .ok e) :
    (∀ now', t ≤ now' → now' < 2 ^ 53 - 4000 →
        AcceptedByClients P.L Q e request validated now') ↔
      request.created_at ≤ t ∧ request.customer_pubkey ≠ P.keys.publicKey := by
  have hL := D.libraries
  obtain ⟨value, hbase⟩ := D.base
  obtain ⟨q, bid, hsource, hform₀, rfl⟩ := (parseRequestEvent_eq_ok hL).mp hrequest
  obtain ⟨q', bid₁, hverify, hform₁, rfl⟩ := (validateRequestEvent_eq_ok hclock₁).mp hvalidated
  obtain rfl : q = q' := hform₀.content_unique hform₁
  have hservice := JobRequestContent.service_of_validate hform₀.valid
  have hpub : Publishable P.U.parse (requestOf source q bid) _ :=
    publishable_resultFor D.urls hbase (D.hexFields source hsource).1 hservice answers
  obtain ⟨hcreated, hkind₁⟩ := safe_of_requestForm hclock₁ hform₁
  obtain ⟨hsize, hsign⟩ := Provider.signResult_eq_ok.mp hemitted
  obtain ⟨hauthentic, -, hstamp, hkind, hcontent, htags⟩ := D.keys _ _ _ _ _ hsign
  constructor
  · intro haccepted
    obtain ⟨⟨c, hc⟩, -⟩ := haccepted t (Nat.le_refl t) hclock
    obtain ⟨embedded, -, hform, -⟩ := (parseResultEvent_eq_ok hL hsource rfl).mp hc
    refine ⟨hstamp ▸ hform.notBefore, ?_⟩
    intro hself
    rw [← hself] at htags
    have hlen : 7 = 8 :=
      (Provider.length_buildTags_self _ _).symm.trans
        (congrArg List.length (htags.symm.trans hform.tags))
    exact absurd hlen (by decide)
  · rintro ⟨hbefore, hother⟩ now' hnow hclock'
    rw [Provider.buildTags_resultTags hother] at htags
    have hform : ResultForm e (requestOf source q bid) now' (eventText source) _ :=
      { kind := hkind
        size := hcontent ▸ hsize
        notBefore := hstamp ▸ hbefore
        notFuture := by
          rw [saturatingAdd_eq hclock', hstamp]
          exact Nat.le_trans hnow (Nat.le_add_right _ _)
        shaped := Sdk.shaped_toSdk.mpr hpub.shaped
        requestId := by rw [requestId_toSdk, hpub.requestId]
        service := hpub.service
        content := by rw [hcontent, Sdk.serializeResult_toSdk hpub.shaped]
        tags := htags.trans (resultTags_tail (eventText source) _ _) }
    refine ⟨⟨_, (parseResultEvent_eq_ok hL hsource rfl).mpr ⟨_, hauthentic, hform, ?_,
      parseEmbeddedRequestEvent_eventText hL hsource⟩⟩, ⟨_,
      (validateResultEvent_eq_ok hclock₁ hform₁ hclock' bid).mpr ⟨_, _, ?_, hform, ?_, hpub.bound,
        (readsRequest_iff hclock₁ hform₁ hverify).mpr (spells_eventText hcreated hkind₁
          (D.hexFields source hsource)), rfl⟩⟩⟩
    · rw [D.coreParseUrl]; exact hpub.coreUrl
    · obtain ⟨hcreated', hkind'⟩ := hform.safe hclock'
      rw [← D.authenticity e hcreated' hkind']
      exact hauthentic
    · rw [D.sdkParseUrl]; exact hpub.sdkUrl

/-! ### Two signed results -/

/-- The URLs of one origin, as far as the fixtures need them. -/
def exampleOrigin : Text := text "https://proofs.example/"

def exampleUrl (rest : Text) : Url := { fixtureUrl with path := '/' :: rest }

def exampleUrls : Provider.UrlLibrary where
  parse t := if exampleOrigin.isPrefixOf t then some (exampleUrl (t.drop exampleOrigin.length))
    else none
  join base path := some { base with path := base.path ++ path }
  toText url := exampleOrigin ++ url.path.tail

theorem exampleUrls_parse (rest : Text) :
    exampleUrls.parse (exampleOrigin ++ rest) = some (exampleUrl rest) := by
  have hprefix : exampleOrigin.isPrefixOf (exampleOrigin ++ rest) = true :=
    List.isPrefixOf_iff_prefix.mpr (List.prefix_append _ _)
  simp only [exampleUrls, hprefix, List.drop_left, if_true]

theorem exampleUrls_base {value : Text} {base : Url}
    (h : Provider.validatePublicBaseUrl exampleUrls value = some base) :
    ∃ rest, base = exampleUrl rest := by
  obtain ⟨url, hparse, h⟩ := Option.bind_eq_some_iff.mp h
  obtain ⟨-, hslash⟩ := Option.ite_none_right_eq_some.mp h
  obtain ⟨-, hurl⟩ := Option.ite_none_right_eq_some.mp hparse
  rw [← Option.some.inj hslash, ← Option.some.inj hurl, Provider.withSlash]
  split
  · exact ⟨_, rfl⟩
  · exact ⟨_, rfl⟩

theorem exampleUrls_lawful : exampleUrls.Lawful where
  domain_lower value url name hparse _ hhost := by
    obtain ⟨-, hurl⟩ := Option.ite_none_right_eq_some.mp hparse
    rw [← Option.some.inj hurl] at hhost
    cases hhost
    decide
  join_artifactPath _ _ _ _ _ := rfl
  parse_toText value base path url hbase hjoin := by
    obtain ⟨rest, rfl⟩ := exampleUrls_base hbase
    cases hjoin
    exact exampleUrls_parse (rest ++ path)

theorem exampleUrls_origin :
    Provider.validatePublicBaseUrl exampleUrls exampleOrigin = some (exampleUrl []) := by
  decide +kernel

/-- What a busy provider answers to the signed request. -/
def busyContent : JobResultContent :=
  .newError goldenRequest.id .busy Provider.ProcessingError.busy.publicMessage

def busyResult (t : ℕ) (id sig : String) : Event :=
  { resultEvent busyContent id sig with created_at := t }

/-- A provider whose key signs one event. -/
noncomputable def exampleSetup (e : Event) : Provider.Setup where
  L := exactLibraries [goldenRequest, e] exampleUrls.parse
  U := exampleUrls
  base := exampleUrl []
  keys := {
    publicKey := e.pubkey
    sign := fun t kind content tags =>
      if e.created_at = t ∧ e.kind = kind ∧ e.content = content ∧
        e.tags = Provider.buildTags e.pubkey tags then some e else none }

theorem exampleSetup_emits (t : ℕ) (id sig : String) :
    Provider.handleClaimed (exampleSetup (busyResult t id sig)) goldenJob Provider.busyAnswers t =
      .ok (busyResult t id sig) := by
  refine Provider.signResult_eq_ok.mpr ⟨errorResult_fits (by decide) _ _, if_pos ⟨rfl, rfl, rfl, ?_⟩⟩
  have hother : goldenJob.customer_pubkey ≠ (resultEvent busyContent id sig).pubkey := by
    change goldenRequest.pubkey ≠ goldenResult.pubkey
    decide +kernel
  exact (Provider.buildTags_resultTags hother _).symm

/-- The two parties around a signed busy result. -/
theorem exampleDeployment {e : Event} (hid : isLowerHex e.id 64 = true)
    (hpubkey : isLowerHex e.pubkey 64 = true) (hsig : isLowerHex e.sig 128 = true) :
    Deployment (exampleSetup e) (exactPlatform [goldenRequest, e] exampleUrls.parse) where
  libraries := exactLibraries_lawful _ _
  hexFields := by
    intro g hg
    rcases List.mem_cons.mp (exactLibraries_verify.mp hg) with rfl | hg
    · exact signedEvents_hexForm _ goldenRequest_mem
    · obtain rfl := List.mem_singleton.mp hg
      exact ⟨hid, hpubkey, hsig⟩
  authenticity := authenticityAgrees_exact _ _
  urls := exampleUrls_lawful
  coreParseUrl := rfl
  sdkParseUrl := rfl
  keys := by
    intro t kind content tags g hg
    obtain ⟨⟨rfl, rfl, rfl, htags⟩, heq⟩ := Option.ite_none_right_eq_some.mp hg
    obtain rfl := Option.some.inj heq
    refine ⟨exactLibraries_verify.mpr ?_, rfl, rfl, rfl, rfl, htags⟩
    exact List.mem_cons_of_mem _ (List.mem_singleton_self _)
  base := ⟨exampleOrigin, exampleUrls_origin⟩

/-- The busy result, signed ten seconds before the time that the request carries. -/
def earlyResult : Event := busyResult 1899999990
  "0b275d968a265190260ba0d327143e2ea5aefef8c88bf2070bd5d4122f0fc17a"
  ("806bd3b4f8501ee8ea6d8adaf3f23a1a82013d63a521bc582efdb23023280c04" ++
    "3e7a9925f5c5a693cf3f23ef7ef6a11f67dcb6c6ad37fa4fb37c516f63a5e952")

/-- The busy result, signed a second after the request was seen. -/
def promptResult : Event := busyResult 1900000006
  "b68db9676db0a53bffd2e59ca8f6dd4c1c03408749083196a8d119ccc54eeb11"
  ("7e0cc08107314dc76f76f01e6850b048024254398feb18524d829b73c6a66f01" ++
    "2fc36144432e48bce76107f8f3604c2cf6a48eb7391b7ce40269b75cfe3de65f")

theorem earlyDeployment :
    Deployment (exampleSetup earlyResult) (exactPlatform [goldenRequest, earlyResult]
      exampleUrls.parse) :=
  exampleDeployment (by decide +kernel) (by decide +kernel) (by decide +kernel)

theorem promptDeployment :
    Deployment (exampleSetup promptResult) (exactPlatform [goldenRequest, promptResult]
      exampleUrls.parse) :=
  exampleDeployment (by decide +kernel) (by decide +kernel) (by decide +kernel)

/-- A provider whose clock is ten seconds behind the requester's takes the request, and stamps an
    answer that neither validator takes. -/
theorem earlyResult_rejected :
    Deployment (exampleSetup earlyResult) (exactPlatform [goldenRequest, earlyResult]
      exampleUrls.parse) ∧
    parseRequestEvent (exampleSetup earlyResult).L goldenRequest 1899999990 = .ok goldenJob ∧
    Sdk.validateRequestEvent (exactPlatform [goldenRequest, earlyResult] exampleUrls.parse)
      goldenRequest.toSdk 1900000005 = .ok goldenValidated ∧
    Provider.handleClaimed (exampleSetup earlyResult) goldenJob Provider.busyAnswers 1899999990 =
      .ok earlyResult ∧
    ∀ now', now' < 2 ^ 53 - 4000 →
      (¬ ∃ c, parseResultEvent (exampleSetup earlyResult).L earlyResult goldenJob now' = .ok c) ∧
      ¬ ∃ w, Sdk.validateResultEvent (exactPlatform [goldenRequest, earlyResult] exampleUrls.parse)
        earlyResult.toSdk goldenValidated now' = .ok w := by
  have hmem : goldenRequest ∈ [goldenRequest, earlyResult] := List.mem_cons_self ..
  have hL : (exampleSetup earlyResult).L.Lawful := exactLibraries_lawful _ _
  have hsource : (exampleSetup earlyResult).L.verify goldenRequest = true :=
    exactLibraries_verify.mpr hmem
  have hform : RequestForm goldenRequest 1899999990 goldenContent (some 21) :=
    { goldenRequest_form with notFuture := by decide, notOld := by decide, valid := rfl }
  have hstamp : ¬ goldenJob.created_at ≤ earlyResult.created_at :=
    (by decide : ¬ 1900000000 ≤ 1899999990)
  refine ⟨earlyDeployment, (parseRequestEvent_eq_ok hL).mpr ⟨_, _, hsource, hform, rfl⟩,
    (goldenRequest_accepted hmem _).2, exampleSetup_emits _ _ _, fun now' hclock => ⟨?_, ?_⟩⟩
  · rintro ⟨c, hc⟩
    obtain ⟨_, -, hanswer, -⟩ := (parseResultEvent_eq_ok hL hsource rfl).mp hc
    exact hstamp hanswer.notBefore
  · rintro ⟨w, hw⟩
    obtain ⟨_, _, -, hanswer, -⟩ :=
      (validateResultEvent_eq_ok (by decide) goldenRequest_form hclock (some 21)).mp hw
    exact hstamp hanswer.notBefore

/-- With a clock that is not behind, both take it at once. -/
theorem promptResult_accepted : AcceptedByClients (exampleSetup promptResult).L
    (exactPlatform [goldenRequest, promptResult] exampleUrls.parse) promptResult goldenJob
    goldenValidated 1900000006 := by
  obtain ⟨hrequest, hvalidated⟩ :=
    goldenRequest_accepted (List.mem_cons_self ..) exampleUrls.parse
  have hother : goldenJob.customer_pubkey ≠ promptResult.pubkey := by
    change goldenRequest.pubkey ≠ goldenResult.pubkey
    decide +kernel
  exact (emitted_result_accepted_iff promptDeployment hrequest (by decide) hvalidated (by decide)
    (exampleSetup_emits 1900000006 _ _)).mpr ⟨(by decide : 1900000000 ≤ 1900000006), hother⟩
    1900000006 le_rfl (by decide)

end SoulSociety.Protocol
