import SoulSociety.Core.RequestImage
import SoulSociety.Protocol.Serving
import SoulSociety.Provider.Engine
import SoulSociety.Session.Correctness

/-! What the honest parties can do. The SDK signs only requests that both sides take while they are in
    time, and every success of a provider can be verified: there is a run of the job that ends with the
    bytes that the engine made. -/

namespace SoulSociety.Session
open Lib Sdk

/-! ### The request of a job -/

/-- When a request made at `t` is taken: not more than five minutes before, and until it expires or is
    older than ten minutes. -/
structure JobOptions.InTime (options : JobOptions) (t now : ℕ) : Prop where
  notFuture : t ≤ now + Core.maxFutureSkewSecs
  notOld : now - t ≤ Core.maxRequestAgeSecs
  notExpired : now < t + options.expiresInSeconds

variable {C : SoulNostrClient} {options : JobOptions} {t now : ℕ} {template : EventTemplate}
  {source : Core.Event}

/-- The content of the request that a job makes at `t`. -/
def JobOptions.content (options : JobOptions) (i : Core.JobInput) (t : ℕ) : Core.JobRequestContent :=
  .new i (some (t + options.expiresInSeconds))

theorem eq_of_natToSdk {n m : ℕ} (h : Core.natToSdk n = .nat m) : n < 2 ^ 53 ∧ n = m := by
  rw [Core.natToSdk] at h
  split at h
  · rename_i hlt
    exact ⟨hlt, Number.nat.inj h⟩
  · cases h

/-- JavaScript can hold what it signs. -/
theorem safe_of_signs {i : Core.JobInput} (htemplate : requestTemplate options i.toSdk t = .ok template)
    (hsigns : source.toSdk.Signs template) : source.created_at < 2 ^ 53 ∧ source.kind < 2 ^ 53 := by
  simp only [requestTemplate, bind_eq_ok, pure_eq_ok] at htemplate
  obtain ⟨tags, -, rfl⟩ := htemplate
  exact ⟨(eq_of_natToSdk hsigns.created_at).1, (eq_of_natToSdk hsigns.kind).1⟩

/-- The fields of a signed template. -/
theorem fields_of_signs {i : Core.JobInput} (htemplate : requestTemplate options i.toSdk t = .ok template)
    (hsigns : source.toSdk.Signs template) :
    source.kind = (options.content i t).service.requestKind ∧ source.created_at = t ∧
      source.content = (options.content i t).canonicalJson ∧
      source.tags = Core.canonicalTags (options.content i t) (some options.bidMsats) ∧
      Core.BidOk (some options.bidMsats) := by
  simp only [requestTemplate, bind_eq_ok, pure_eq_ok, Core.buildRequestContent_toSdk] at htemplate
  obtain ⟨tags, htags, rfl⟩ := htemplate
  obtain ⟨hbid, rfl⟩ := (Protocol.requestTags_toSdk (c := options.content i t) rfl).mp htags
  have hcontent : ofText source.content = ofText (serializeRequestContent
      (Core.JobRequestContent.new i (some (t + options.expiresInSeconds))).toSdk) := hsigns.content
  rw [Core.serializeRequestContent_toSdk, ofText_inj] at hcontent
  refine ⟨?_, (eq_of_natToSdk hsigns.created_at).2, hcontent, ?_, hbid⟩
  · exact (eq_of_natToSdk hsigns.kind).2.trans (Protocol.getRequestKind_eq _)
  · exact Core.tagsToSdk_injective ((Protocol.stringifyTags_inj (Core.tagsPaired_ofText _)
      (Core.tagsPaired_ofText _)).mp hsigns.tags)

/-- What carries the template of a job has the form of a request exactly while it is in time. -/
theorem form_iff_inTime {i : Core.JobInput} (hi : i.validate = .ok ())
    (htemplate : requestTemplate options i.toSdk t = .ok template)
    (hsigns : source.toSdk.Signs template) (hclock : now < 2 ^ 53 - 4000) :
    Core.RequestForm source now (options.content i t) (some options.bidMsats) ↔
      options.InTime t now := by
  obtain ⟨hkind, hcreated, hcontent, htags, hbid⟩ := fields_of_signs htemplate hsigns
  have hskew := Core.saturatingAdd_eq hclock
  constructor
  · rintro ⟨-, -, -, hfuture, hold, hvalid, -, -, -⟩
    rw [hcreated] at hfuture hold
    rw [hskew] at hfuture
    obtain ⟨-, -, hexpiry⟩ := Core.JobRequestContent.validate_iff.mp hvalid
    exact ⟨hfuture, hold, (hexpiry _ rfl).1⟩
  · rintro ⟨hfuture, hold, hexpired⟩
    have hle := options.expiresInSeconds_le
    have hexpiry : ∀ e ∈ some (t + options.expiresInSeconds), Core.IsU64 e := by
      rintro e ⟨⟩
      rw [Core.maxFutureSkewSecs] at hfuture
      exact show t + options.expiresInSeconds ≤ 2 ^ 64 - 1 by omega
    have hnumbers : i.Numbers Core.IsU64 :=
      Core.JobInput.numbers_of_valid (fun n hn => Nat.le_trans hn (by decide)) hi
    have hvalid : (options.content i t).validate t now = .ok () :=
      Core.JobRequestContent.validate_iff.mpr ⟨rfl, hi, by
        rintro e ⟨⟩
        exact ⟨hexpired, Nat.le_add_right _ _, (Nat.add_sub_cancel_left t _).trans_le hle⟩⟩
    exact {
      kind := hkind
      fits := ⟨hnumbers, hexpiry⟩
      size := by rw [hcontent]; exact Core.canonicalJson_fits hi hexpiry
      notFuture := by rw [hcreated, hskew]; exact hfuture
      notOld := by rw [hcreated]; exact hold
      valid := by rw [hcreated]; exact hvalid
      content := hcontent
      bidOk := hbid
      tags := htags }

/-- A request that a job signed is taken by both sides exactly while it is in time, whatever the input
    and the options of the job are: neither the checks nor the size limit refuse anything that the SDK
    signs. What is taken is the request of the job. -/
theorem own_request_accepted_iff (C : SoulNostrClient) (hsigner : BuiltIn C.platform C.signer)
    {L : Core.Libraries} (hL : L.Lawful) (hauth : Protocol.AuthenticityAgrees L C.platform)
    (options : JobOptions) {value : Option Json} {input : JobInput}
    (hinput : validateJobInput value = .ok input)
    (htemplate : requestTemplate options (canonicalizeInput input) t = .ok template)
    {answer : C.signer.Answer} (hsigned : C.signer.signEvent template answer = .ok source.toSdk)
    (hclock : now < 2 ^ 53 - 4000) :
    ((∃ v, validateRequestEvent C.platform source.toSdk now = .ok v) ↔ options.InTime t now) ∧
    ((∃ r, Core.parseRequestEvent L source now = .ok r) ↔ options.InTime t now) ∧
    (∀ v, validateRequestEvent C.platform source.toSdk now = .ok v →
      v.event = source.toSdk ∧
        v.content = buildRequestContent input (some (t + options.expiresInSeconds))) ∧
    ∀ r, Core.parseRequestEvent L source now = .ok r →
      r.id = source.id ∧ r.input.toSdk = input ∧
        r.expires_at = some (t + options.expiresInSeconds) ∧ r.bid_msats = options.bidMsats := by
  obtain ⟨i, hi, rfl⟩ := validateJobInput_sound hinput
  rw [Core.canonicalizeInput_eq] at htemplate
  obtain ⟨hverify, hsigns⟩ := hsigner.signs hsigned
  have hform := form_iff_inTime hi htemplate hsigns hclock
  obtain ⟨hcreated, hkind⟩ := safe_of_signs htemplate hsigns
  have hcore : L.verify source = true := (hauth source hcreated hkind).trans hverify
  have hunique : ∀ {c bid}, Core.RequestForm source now c bid →
      c = options.content i t ∧ bid = some options.bidMsats := by
    intro c bid h
    obtain ⟨-, -, hcontent, htags, hbid⟩ := fields_of_signs htemplate hsigns
    exact ⟨Core.JobRequestContent.canonicalJson_injective (h.content.symm.trans hcontent),
      Except.ok.inj ((Core.readBid_eq_ok h.bidOk h.tags).symm.trans (Core.readBid_eq_ok hbid htags))⟩
  refine ⟨⟨?_, fun h => ?_⟩, ⟨?_, fun h => ?_⟩, ?_, ?_⟩
  · rintro ⟨v, hv⟩
    obtain ⟨c, bid, -, h, -⟩ := (Protocol.validateRequestEvent_eq_ok hclock).mp hv
    obtain ⟨rfl, rfl⟩ := hunique h
    exact hform.mp h
  · exact ⟨_, (Protocol.validateRequestEvent_eq_ok hclock).mpr ⟨_, _, hverify, hform.mpr h, rfl⟩⟩
  · rintro ⟨r, hr⟩
    obtain ⟨c, bid, -, h, -⟩ := (Core.parseRequestEvent_eq_ok hL).mp hr
    obtain ⟨rfl, rfl⟩ := hunique h
    exact hform.mp h
  · exact ⟨_, (Core.parseRequestEvent_eq_ok hL).mpr ⟨_, _, hcore, hform.mpr h, rfl⟩⟩
  · intro v hv
    obtain ⟨c, bid, -, h, rfl⟩ := (Protocol.validateRequestEvent_eq_ok hclock).mp hv
    obtain ⟨rfl, -⟩ := hunique h
    exact ⟨rfl, (Core.buildRequestContent_toSdk _ _).symm⟩
  · intro r hr
    obtain ⟨c, bid, -, h, rfl⟩ := (Core.parseRequestEvent_eq_ok hL).mp hr
    obtain ⟨rfl, rfl⟩ := hunique h
    exact ⟨rfl, rfl, rfl, rfl⟩

/-! ### A success of a provider -/

/-- The request is signed and published, one event is delivered, one response is read and the verifier
    accepts the bytes and leaves them; nothing else happens. -/
def honestRun {Answer : Type} (t t₁ t₂ : ℕ) (answer : Answer) (event : Event) (fetched : FetchAnswer)
    (proofBytes : ProofBytes) : List (Label Answer) :=
  .start t :: ([.proceed t, .complete 0 (.signed answer t₁), .proceed t, .proceed t] ++
    ([.complete 0 .published, .proceed t₂, .complete 0 (.event event t₂), .complete 0 .resumed] ++
    [.proceed t₂, .proceed t₂, .proceed t₂, .proceed t₂, .complete 0 (.fetched fetched false),
      .proceed t₂, .complete 0 (.verified (some true) proofBytes), .proceed t₂]))

variable {H : Provider.Bytes → Provider.Digest} {P : Provider.Setup} {e : Core.Event}

/-- A success that a provider emitted for a request is an answer that the SDK accepts, unless it is
    stamped out of its time or the provider answers itself. -/
theorem accepted_of_delivers {Q : Platform} (D : Protocol.Deployment P Q) {K : Provider.ContentStore H}
    {m : Provider.Publisher K} {q : Core.JobRequestContent} {bid bid' : Option ℕ} {now₁ now₂ : ℕ}
    (hclock₁ : now₁ < 2 ^ 53 - 4000) (hclock₂ : now₂ < 2 ^ 53 - 4000)
    (hform : Core.RequestForm source now₁ q bid) (hverify : Q.verifyEvent source.toSdk = true)
    (hservice : q.service = q.input.service)
    (hemitted : m.Emitted P (Core.requestOf source q bid') e)
    {artifact : Provider.VerifiedProofArtifact} {d : Core.ProofDescriptor}
    (hdelivers : m.Delivers P (Core.requestOf source q bid') e artifact d)
    (hother : source.pubkey ≠ P.keys.publicKey) (hafter : source.created_at ≤ e.created_at)
    (hskew : e.created_at ≤ now₂ + Core.maxFutureSkewSecs) :
    validateResultEvent Q e.toSdk ⟨source.toSdk, q.toSdk, ofText q.canonicalJson⟩ now₂ = .ok
      ⟨e.toSdk, (Core.JobResultContent.newSuccess source.id artifact.statement d
        artifact.metrics).toSdk⟩ := by
  obtain ⟨value, hbase⟩ := D.base
  obtain ⟨hcreated, hkind'⟩ := Protocol.safe_of_requestForm hclock₁ hform
  have hsource : P.L.verify source = true := (D.authenticity source hcreated hkind').trans hverify
  obtain ⟨answers, t', hsigned⟩ := hemitted.signed
  obtain ⟨hsize, hsign⟩ := Provider.signResult_eq_ok.mp hsigned
  obtain ⟨hauthentic, -, -, hkind, hcontent, htags⟩ := D.keys _ _ _ _ _ hsign
  have hpub : Protocol.Publishable P.U.parse (Core.requestOf source q bid') _ :=
    Protocol.publishable_resultFor D.urls hbase (D.hexFields source hsource).1 hservice answers
  rw [← Core.JobResultContent.toText_injective (hdelivers.content.symm.trans hcontent)] at hpub
  rw [Provider.buildTags_resultTags hother,
    ← Core.JobResultContent.toText_injective (hdelivers.content.symm.trans hcontent)] at htags
  have hanswer : Protocol.ResultForm e (Core.requestOf source q bid') now₂ (Core.eventText source)
      (Core.JobResultContent.newSuccess source.id artifact.statement d artifact.metrics).toSdk := {
    kind := hkind
    size := hcontent ▸ hsize
    notBefore := hafter
    notFuture := by rw [Core.saturatingAdd_eq hclock₂]; exact hskew
    shaped := shaped_toSdk.mpr hpub.shaped
    requestId := by rw [Protocol.requestId_toSdk]; rfl
    service := hpub.service
    content := by rw [hdelivers.content]; exact (serializeResult_toSdk hpub.shaped).symm
    tags := htags.trans (Protocol.resultTags_tail (Core.eventText source) _ _) }
  obtain ⟨hcreated₂, hkind₂⟩ := hanswer.safe hclock₂
  refine (Protocol.validateResultEvent_eq_ok hclock₁ hform hclock₂ bid').mpr ⟨Core.eventText source, _,
    (D.authenticity e hcreated₂ hkind₂).symm.trans hauthentic, hanswer, ?_, hpub.bound,
      (Protocol.readsRequest_iff hclock₁ hform hverify).mpr
        (Protocol.spells_eventText hcreated hkind' (D.hexFields source hsource)), rfl⟩
  rw [D.sdkParseUrl]
  exact hpub.sdkUrl

/-- What the engine made, the verifier of a client with the same program accepts. -/
theorem verifies_of_proveJob {B : Wasm.LoadedBrowserVerifier} {hash : JsString}
    (hmanifest : B.program_hash = hash)
    (hread : ∀ p : Core.ProofStatement, B.statementFromStr (Core.Serde.toText p.toJson) = .ok p)
    {M : Provider.CairoVm B.stwo} {engine : Provider.VerifiableJobEngine}
    (hprogram : engine.expected_program_hash.toSdk = hash) {files : Provider.Files}
    {i : Core.JobInput} {metrics : Core.JobMetrics} {artifact : Provider.VerifiedProofArtifact}
    (hproved : engine.proveJob M files i metrics = .ok artifact) :
    artifact.program_hash.toSdk = hash ∧ artifact.statement.validate = .ok () ∧
      B.verifyProof artifact.proof_bytes hash (serializeProofStatement artifact.statement.toSdk) =
        some true := by
  obtain ⟨-, ⟨proof, data, hbinds⟩, hpinned, -⟩ := Provider.proveJob_eq_ok.mp hproved
  refine ⟨by rw [hpinned, hprogram], hbinds.valid, ?_⟩
  rw [Protocol.serializeProofStatement_eq hbinds.valid,
    Wasm.LoadedBrowserVerifier.verifyProof_eq_true (hread artifact.statement)]
  refine ⟨hmanifest.symm, proof, data, ?_⟩
  rw [← hprogram, Core.FeltHex.toSdk, toUsv_ofText]
  exact hbinds

/-- Every success that a provider returned for the request of a job, in whatever run and with whatever
    else going on, can be verified while it is in time: when the result reaches the job and the HTTP
    application of the provider is asked for the proof, then the response passes all checks in whatever
    chunks it comes, the verifier of the web application accepts, and the job ends verified with the
    bytes that the engine made for its input. -/
theorem success_verifies (C : SoulNostrClient) (hsigner : BuiltIn C.platform C.signer)
    (options : JobOptions) {value : Option Json} {input : JobInput}
    (hinput : validateJobInput value = .ok input) (D : Protocol.Deployment P C.platform)
    (hhash : ∀ bytes, C.sha256 bytes = ofText (H bytes).val)
    (htrusted : ofText P.keys.publicKey ∈ C.trustedProviderPubkeys)
    (B : Wasm.LoadedBrowserVerifier) (hmanifest : B.program_hash = C.trustedProgramHash)
    (hread : ∀ p : Core.ProofStatement, B.statementFromStr (Core.Serde.toText p.toJson) = .ok p)
    (M : Provider.CairoVm B.stwo) (engine : Provider.VerifiableJobEngine)
    (hprogram : engine.expected_program_hash.toSdk = C.trustedProgramHash)
    (decode : Text → Option Text) (hdecode : ∀ t, '%' ∉ t → decode t = some t)
    -- the run of the provider
    (K : Provider.ContentStore H) (capacity : ℕ) (hcapacity : 0 < capacity)
    (ls : List Provider.Publisher.Label) (m : Provider.Publisher K)
    (hm : exec (Provider.Publisher.step P) (.new K capacity) ls = some m)
    (hengine : ∀ i a, (i, a) ∈ m.proofs → ∃ files metrics, engine.proveJob M files i metrics = .ok a)
    -- the request, and the success that was returned for it
    (htemplate : requestTemplate options (canonicalizeInput input) t = .ok template)
    {answer : C.signer.Answer} (hsigned : C.signer.signEvent template answer = .ok source.toSdk)
    (honly : ∀ (a : Core.Event) now, .deliver a now ∈ ls → P.L.verify a = true → a.id = source.id →
      a = source)
    (hother : source.pubkey ≠ P.keys.publicKey)
    (hanswered : Provider.SignedJobHandler.Answered m.handler.log source.id e)
    (hsuccess : ∀ code message,
      e.content ≠ (Core.JobResultContent.newError source.id code message).toText)
    -- the clocks
    {t₁ t₂ : ℕ} (ht₁ : options.InTime t t₁) (hclock₁ : t₁ < 2 ^ 53 - 4000)
    (hclock₂ : t₂ < 2 ^ 53 - 4000) (hafter : t ≤ e.created_at)
    (hskew : e.created_at ≤ t₂ + Core.maxFutureSkewSecs) :
    ∃ (i : Core.JobInput) (artifact : Provider.VerifiedProofArtifact) (d : Core.ProofDescriptor),
      i.toSdk = input ∧ (i, artifact) ∈ m.proofs ∧
      ∀ chunks : List ProofBytes, chunks.flatten = artifact.proof_bytes → ∀ cancel,
        ∃ s job, exec (SoulJob.step C options) (.new input) (honestRun t t₁ t₂ answer e.toSdk
            (.response (Protocol.received (ofText d.url) (Provider.artifactRouter decode
              (Protocol.Publisher.read m) .get ('/' :: Provider.artifactPath d.sha256)) chunks
                cancel)) artifact.proof_bytes) = some s ∧
          s.snapshot.state = .verified ∧ s.snapshot.verified = some job ∧
          job.request.event = source.toSdk ∧ job.result.event = e.toSdk ∧
          job.proofBytes = artifact.proof_bytes ∧
          ∀ j bytes hash statement verdict left,
            .answered j bytes hash statement verdict left ∈ s.log →
              verdict = B.verifyProof bytes hash statement ∧ left = bytes := by
  obtain ⟨i, hi, rfl⟩ := validateJobInput_sound hinput
  have htemplate' := htemplate
  rw [Core.canonicalizeInput_eq] at htemplate'
  obtain ⟨hverify, hsigns⟩ := hsigner.signs hsigned
  obtain ⟨-, hcreated, hcontent, -, -⟩ := fields_of_signs htemplate' hsigns
  have hform := (form_iff_inTime hi htemplate' hsigns hclock₁).mpr ht₁
  -- what was returned is a delivered success about this request
  obtain ⟨request, ⟨event, now, hdelivered, hparse⟩, hid, hemitted⟩ :=
    Provider.Publisher.emitted_visits D.keys hcapacity (Visits.last hm) hanswered
  obtain ⟨q, bid, hauthentic, hq, rfl⟩ := (Core.parseRequestEvent_eq_ok D.libraries).mp hparse
  obtain rfl : source = event := (honly event now hdelivered hauthentic hid).symm
  obtain rfl : q = options.content i t :=
    Core.JobRequestContent.canonicalJson_injective (hq.content.symm.trans hcontent)
  obtain ⟨artifact, d, hdelivers⟩ : ∃ artifact d, m.Delivers P _ e artifact d := by
    refine hemitted.delivered.resolve_left ?_
    rintro ⟨err, herror⟩
    exact hsuccess _ _ herror
  have hresult := accepted_of_delivers D hclock₁ hclock₂ hform hverify rfl hemitted hdelivers hother
    (hcreated.trans_le hafter) hskew
  refine ⟨i, artifact, d, rfl, hdelivers.made, fun chunks hchunks cancel => ?_⟩
  obtain ⟨files, metrics, hproved⟩ := hengine _ _ hdelivers.made
  obtain ⟨hpinned, hvalid, haccepts⟩ := verifies_of_proveJob hmanifest hread hprogram hproved
  obtain ⟨publicBaseUrl, hbase⟩ := D.base
  have hserved := Protocol.served_of_delivers D.urls hbase D.sdkParseUrl hhash hdecode hdelivers
  have hdescribed : d.program_hash = artifact.program_hash := by
    obtain ⟨url, -, rfl⟩ := Option.map_eq_some_iff.mp hdelivers.described
    rfl
  let r : SuccessfulJobResult := ⟨ofText Core.soulWireProtocol, ofText source.id,
    artifact.statement.toSdk, d.toSdk, artifact.metrics⟩
  have hprogram' : r.proof.program_hash = C.trustedProgramHash :=
    (congrArg Core.FeltHex.toSdk hdescribed).trans hpinned
  have hcheck : checkProgram r C.trustedProgramHash = .ok () := by
    refine rejectIf_eq_ok.mpr (not_or.mpr ⟨not_not.mpr hprogram', not_not.mpr ?_⟩)
    exact congrArg ofText (Core.ProofStatement.validate_iff.mp hvalid).1
  have htaken : C.acceptsProvider e.toSdk.pubkey = true := by
    obtain ⟨answers, t', hsigned⟩ := hemitted.signed
    obtain ⟨-, hsign⟩ := Provider.signResult_eq_ok.mp hsigned
    obtain ⟨-, hauthor, -⟩ := D.keys _ _ _ _ _ hsign
    have hmem : e.toSdk.pubkey ∈ C.trustedProviderPubkeys := by
      rw [Core.Event.toSdk, hauthor]
      exact htrusted
    rw [SoulNostrClient.acceptsProvider, C.isHex64_of_mem _ hmem, Bool.true_and]
    exact decide_eq_true hmem
  have haccept : ResultWait.acceptable C
      ⟨source.toSdk, (options.content i t).toSdk, ofText (options.content i t).canonicalJson⟩
      (e.toSdk, t₂) = some ⟨e.toSdk, .success r⟩ := by
    rw [ResultWait.acceptable, if_pos htaken, hresult]
    rfl
  obtain ⟨s, hs, hverifies⟩ := SoulJob.exec_to_verified artifact.proof_bytes htemplate hsigned
    ((Protocol.validateRequestEvent_eq_ok hclock₁).mpr ⟨_, _, hverify, hform, rfl⟩) haccept rfl
    hprogram' hcheck (fun signals => hserved.downloads chunks hchunks cancel signals)
  refine ⟨s, _, hs, hverifies.state, hverifies.record, rfl, rfl, rfl,
    fun j bytes hash statement verdict left hmem => ?_⟩
  obtain ⟨-, rfl, rfl, rfl, rfl, rfl⟩ := hverifies.answered _ _ _ _ _ _ hmem
  exact ⟨haccepts.symm, rfl⟩

/-! ### The signed success -/

/-- A client of the provider that made the signed result. -/
def servedClient : SoulNostrClient where
  platform := Protocol.exactPlatform [Core.goldenRequest, Protocol.goldenResult]
    Protocol.exampleUrls.parse
  sha256 _ := ofText Protocol.fixtureSha
  signer := Nip07Signer (Protocol.exactPlatform [Core.goldenRequest, Protocol.goldenResult]
    Protocol.exampleUrls.parse)
  trustedProgramHash := exampleClient.trustedProgramHash
  trustedProviderPubkeys := exampleClient.trustedProviderPubkeys
  isFieldElement_trustedProgramHash := exampleClient.isFieldElement_trustedProgramHash
  isHex64_of_mem := exampleClient.isHex64_of_mem

theorem servedClient_verifies {event : Core.Event}
    (h : event ∈ [Core.goldenRequest, Protocol.goldenResult]) :
    servedClient.platform.verifyEvent event.toSdk = true :=
  decide_eq_true (List.mem_map_of_mem h)

theorem servedClient_signs : servedClient.signer.signEvent (templateOf Core.goldenRequest)
    (answerOf Core.goldenRequest) = .ok Core.goldenRequest.toSdk :=
  signEvent_answerOf (by decide) (by decide) (by decide)
    (servedClient_verifies (List.mem_cons_self ..))

theorem exampleOptions_inTime : exampleOptions.InTime 1900000000 1900000005 := by
  constructor <;> decide

/-- The signed request is taken by both sides. -/
theorem golden_own_request : (∃ v, validateRequestEvent servedClient.platform
    Core.goldenRequest.toSdk 1900000005 = .ok v) ∧
      ∃ r, Core.parseRequestEvent (Protocol.exampleSetup Protocol.goldenResult).L Core.goldenRequest
        1900000005 = .ok r := by
  obtain ⟨hsdk, hcore, -, -⟩ := own_request_accepted_iff servedClient .nip07
    Protocol.goldenDeployment.libraries Protocol.goldenDeployment.authenticity exampleOptions
    golden_validates requestTemplate_golden servedClient_signs (by decide : 1900000005 < 2 ^ 53 - 4000)
  exact ⟨hsdk.mpr exampleOptions_inTime, hcore.mpr exampleOptions_inTime⟩

def goldenEngine : Provider.VerifiableJobEngine :=
  ⟨Provider.exampleEngine.executable, Core.FeltHex.fromU64 9⟩

theorem goldenEngine_proves : goldenEngine.proveJob (Provider.exampleVm goldenStwo () (List.replicate 29 0))
    Provider.exampleFiles (.fibonacci 10) ⟨1, 2, 3⟩ = .ok Protocol.fixtureArtifact := by
  have hstatement : Protocol.fixtureArtifact.statement = goldenStatement := by decide
  have hbinds := golden_binds
  rw [← hstatement] at hbinds
  exact Provider.proveJob_eq_ok.mpr ⟨Provider.exampleVm_proves rfl, ⟨(), _, hbinds⟩, rfl, rfl⟩

/-- The signed success is verified. -/
theorem golden_success_verifies : ∃ ls s job,
    exec (SoulJob.step servedClient exampleOptions) (.new (.fibonacci 10)) ls = some s ∧
      s.snapshot.state = .verified ∧ s.snapshot.verified = some job ∧
      job.result.event = Protocol.goldenResult.toSdk := by
  obtain ⟨m, hm, hanswered, hmade⟩ := Protocol.golden_run_made
  have hengine : ∀ i a, (i, a) ∈ m.proofs → ∃ files metrics, goldenEngine.proveJob
      (Provider.exampleVm goldenStwo () (List.replicate 29 0)) files i metrics = .ok a := by
    rw [hmade]
    intro i a hmem
    cases List.mem_singleton.mp hmem
    exact ⟨_, _, goldenEngine_proves⟩
  have honly : ∀ (a : Core.Event) now, .deliver a now ∈ Protocol.goldenLabels →
      (Protocol.exampleSetup Protocol.goldenResult).L.verify a = true →
        a.id = Core.goldenRequest.id → a = Core.goldenRequest := by
    intro a now _ ha hid
    have hdistinct : Protocol.goldenResult.id ≠ Core.goldenRequest.id := by decide
    rcases List.mem_cons.mp (Core.exactLibraries_verify.mp ha) with rfl | ha
    · rfl
    · obtain rfl := List.mem_singleton.mp ha
      exact absurd hid hdistinct
  obtain ⟨i, artifact, d, -, -, hruns⟩ := success_verifies servedClient .nip07 exampleOptions golden_validates
    Protocol.goldenDeployment (fun _ => rfl) (List.mem_cons_self ..) goldenVerifier rfl
    goldenVerifier_reads (Provider.exampleVm goldenStwo () (List.replicate 29 0)) goldenEngine rfl some
    (fun _ _ => rfl) (Provider.memoryStore Protocol.fixtureHash) 64 (by decide) Protocol.goldenLabels m
    hm hengine requestTemplate_golden servedClient_signs honly (by decide) hanswered
    (fun _ _ => Protocol.goldenResult_ne_error _ _ _) exampleOptions_inTime (by decide)
    (by decide : 1900000005 < 2 ^ 53 - 4000) (by decide) (by decide)
  obtain ⟨s, job, hs, hstate, hverified, -, hevent, -⟩ := hruns [artifact.proof_bytes] (by simp) (.ok ())
  exact ⟨_, s, job, hs, hstate, hverified, hevent⟩

end SoulSociety.Session
