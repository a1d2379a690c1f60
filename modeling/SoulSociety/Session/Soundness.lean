import SoulSociety.Session.QuietRun

/-! What a verified job stands for. The record of a verified snapshot passed every check of the SDK on
    one request, one result and one buffer, whatever the relays and the server sent, whatever the
    verifier answered and wrote into that buffer before it answered, and whenever the listeners called
    back. Events, contents and, after that answer, bytes are values here: a listener that writes into
    the objects of a snapshot, a transport that writes into an event it handed over, and a verifier
    that keeps the buffer and writes later are left out. -/

namespace SoulSociety.Session
open Lib Sdk

variable {C : SoulNostrClient} {options : JobOptions} {input : JobInput} {t : ℕ}
  {log : List Observation} {job : VerifiedJob} {request : ValidatedRequest} {result : ValidatedResult}

/-- The event embeds the request. -/
def Embeds (P : Platform) (event request : Event) : Prop :=
  ∃ serialized embedded, embeddedRequest event.tags = some serialized ∧
    parseEmbeddedEvent P serialized = .ok embedded ∧ SameEvent embedded request

/-- The verifier only reads the buffer that it shares with `run`. -/
def LeavesBytes (log : List Observation) : Prop :=
  ∀ j proofBytes hash statement answer left,
    .answered j proofBytes hash statement answer left ∈ log → left = proofBytes

theorem Accepted.bytes_eq {proofBytes : ProofBytes} (h : Accepted C log proofBytes job)
    (hleaves : LeavesBytes log) : job.proofBytes = proofBytes := by
  obtain ⟨j, hmem⟩ := h
  exact hleaves _ _ _ _ _ _ hmem

/-- The record holds a result of a trusted provider about the job's own request, and what the verifier
    left of the bytes of a proof of it, which it accepted for the trusted program. -/
structure VerifiedJob.Sound (C : SoulNostrClient) (options : JobOptions) (input : JobInput)
    (log : List Observation) (job : VerifiedJob) (proofBytes : ProofBytes) : Prop where
  requestAuthentic : C.platform.verifyEvent job.request.event = true
  requestContent : ∃ createdAt, job.request.event.created_at = .nat createdAt ∧
    job.request.content =
      buildRequestContent input (some (createdAt + options.expiresInSeconds)) ∧
    job.request.event.content = ofText (serializeRequestContent job.request.content)
  resultAuthentic : C.platform.verifyEvent job.result.event = true
  resultTrusted : job.result.event.pubkey ∈ C.trustedProviderPubkeys
  resultKind : job.result.event.kind = .nat (getResultKind job.request.content.service)
  resultContent : job.result.event.content = ofText (serializeResult (.success job.result.content))
  resultEmbeds : Embeds C.platform job.result.event job.request.event
  proofSize : proofBytes.length = job.result.content.proof.byte_size
  proofDigest : C.sha256 proofBytes = job.result.content.proof.sha256
  program : job.result.content.proof.program_hash = C.trustedProgramHash
  publicInput : ∃ i : Core.JobInput, i.toSdk = input ∧
    job.result.content.statement.public_input = (Provider.publicInput i).map Core.FeltHex.toSdk
  verified : Accepted C log proofBytes job

/-- The content of a validated request is one that `soul-core` validates, in its canonical text. -/
theorem content_of_validate {P : Platform} {event : Event} {now : ℕ}
    (h : validateRequestEvent P event now = .ok request) :
    event.content = ofText (serializeRequestContent request.content) ∧
      ∃ (q : Core.JobRequestContent) (created_at : ℕ), q.validate created_at now = .ok () ∧
        q.toSdk = request.content := by
  simp only [validateRequestEvent, bind_eq_ok, rejectIf_eq_ok, orReject_eq_ok, pure_eq_ok,
    exists_unit, not_not] at h
  obtain ⟨-, _, -, -, -, created_at, -, -, _, -, content, hcontent, -, hcanonical, _, -, _, -, -, rfl⟩ := h
  obtain ⟨q, hq, hsame⟩ := parseRequestContent_sound hcontent
  exact ⟨hcanonical.symm, q, created_at, hq, hsame⟩

/-- Request contents of `soul-core` with one canonical text are equal. -/
theorem content_eq_of_serialize {q : Core.JobRequestContent} {i : Core.JobInput} {e : Option ℕ}
    {created_at now : ℕ} (hq : q.validate created_at now = .ok ())
    (h : serializeRequestContent q.toSdk = serializeRequestContent (buildRequestContent i.toSdk e)) :
    q = .new i e := by
  have hnew : q = .new q.input q.expires_at := (Core.JobRequestContent.validate_iff.mp hq).1
  refine Core.JobRequestContent.canonicalJson_injective ?_
  rw [hnew, Core.buildRequestContent_toSdk, Core.serializeRequestContent_toSdk,
    Core.serializeRequestContent_toSdk] at h
  rw [hnew]
  exact h

/-- What `validateResultEvent` has checked. -/
theorem authentic_of_validate {event : Event} {now created_at now₁ : ℕ} {q : Core.JobRequestContent}
    (hq : q.validate created_at now₁ = .ok ()) (hcontent : q.toSdk = request.content)
    (h : validateResultEvent C.platform event request now = .ok result) :
    result.event = event ∧ C.platform.verifyEvent event = true ∧
      event.kind = .nat (getResultKind request.content.service) ∧
      event.content = ofText (serializeResult result.content) ∧
      Embeds C.platform event request.event ∧ Protocol.Bound result.content q.input := by
  simp only [validateResultEvent, bind_eq_ok, rejectIf_eq_ok, orReject_eq_ok, pure_eq_ok,
    exists_unit, not_not] at h
  obtain ⟨hverify, hkind, -, _, -, -, doc, hdoc, c, hparse, hcanonical, -, hbound, serialized, htag,
    embedded, hembedded, hsame, -, rfl⟩ := h
  obtain ⟨hshaped, -⟩ := parseResult_sound (Json.stringsPaired_of_parse hdoc) hparse
  rw [← hcontent] at hbound
  exact ⟨rfl, hverify, hkind, hcanonical.symm,
    ⟨serialized, embedded, htag, hembedded, assertSameEvent_eq_ok.mp hsame⟩,
    ((Protocol.assertBound_iff hq hshaped).mp hbound).2⟩

/-- Everything that was checked adds up. -/
theorem Checked.sound (hsigner : BuiltIn C.platform C.signer) {i : Core.JobInput}
    (hinput : i.toSdk = input) {proofBytes : ProofBytes}
    (h : Checked C options input t log job proofBytes) :
    job.Sound C options input log proofBytes := by
  obtain ⟨template, answer, now, signed, htemplate, hsigned, hvalid⟩ := h.signed
  obtain ⟨event, now', htrusted, hresult⟩ := h.accepted
  obtain ⟨template', htemplate', hcreated, -, htext⟩ := requestTemplate_eq_ok options input t
  obtain rfl := Except.ok.inj (htemplate.symm.trans htemplate')
  obtain ⟨hverify, hsigns⟩ := hsigner.signs hsigned
  obtain ⟨hevent, -⟩ := verified_of_validate hvalid
  obtain ⟨hcanonical, q, created_at, hq, hcontent⟩ := content_of_validate hvalid
  -- the content that was validated is the one of the template
  have hown : q = .new i (some (t + options.expiresInSeconds)) := by
    refine content_eq_of_serialize hq ?_
    rw [hcontent, hinput]
    exact ofText_inj.mp (hcanonical.symm.trans (hsigns.content.trans htext))
  obtain ⟨hsame, hauthentic, hkind, hserialized, hembeds, hbound⟩ :=
    authentic_of_validate hq hcontent hresult
  obtain rfl : job.result.event = event := hsame
  exact {
    requestAuthentic := by rw [hevent]; exact hverify
    requestContent := by
      refine ⟨t, ?_, ?_, ?_⟩
      · rw [hevent, hsigns.created_at, hcreated]
      · rw [← hcontent, hown, ← hinput, Core.buildRequestContent_toSdk]
      · rw [hevent, hcanonical]
    resultAuthentic := hauthentic
    resultTrusted := by
      rw [SoulNostrClient.acceptsProvider, Bool.and_eq_true] at htrusted
      exact of_decide_eq_true htrusted.2
    resultKind := hkind
    resultContent := hserialized
    resultEmbeds := hembeds
    proofSize := h.downloaded.1
    proofDigest := h.downloaded.2
    program := h.trusted
    publicInput := by
      refine ⟨i, hinput, ?_⟩
      have hpublic := hbound job.result.content rfl
      rw [hown] at hpublic
      exact hpublic
    verified := h.verified }

/-- What is seen of a session is seen of the job. -/
theorem Accepted.of_session {s : SoulJob} {proofBytes : ProofBytes}
    (h : Accepted C s.session.log proofBytes job) : Accepted C s.log proofBytes job := by
  obtain ⟨j, hmem⟩ := h
  exact ⟨j, (List.mem_filter.mp hmem).1⟩

/-- What the proof server sends: the proof in one chunk. -/
def goldenResponse : HttpResponse where
  ok := true
  status := 200
  url := []
  mediaType := some (ofText Core.proofMediaType)
  contentLength := none
  body := some ⟨[List.replicate 29 0], none, .ok ()⟩

theorem golden_safe : isSafeArtifactUrl exampleClient.platform.parseUrl (ofText Protocol.fixtureUrlText) =
    true := by
  have hparse : Protocol.fixtureParseUrl Protocol.fixtureUrlText = some Protocol.fixtureUrl := if_pos rfl
  change isSafeArtifactUrl Protocol.fixtureParseUrl (ofText Protocol.fixtureUrlText) = true
  rw [isSafeArtifactUrl, toUsv_ofText, hparse]
  decide

/-- The descriptor in the signed result. -/
def goldenProof : ProofDescriptor :=
  ⟨ofText Core.proofFormat, ofText Core.proofMediaType, ofText Protocol.fixtureUrlText,
    ofText Protocol.fixtureSha, 29, (Core.FeltHex.fromU64 9).toSdk, ofText Core.proofChannel⟩

def goldenSuccess : SuccessfulJobResult where
  protocol := ofText Core.soulWireProtocol
  request_id := ofText Core.goldenRequest.id
  statement := {
    service := .fibonacci
    program := ofText Core.cairoProgram
    public_input := [(Core.FeltHex.fromU64 10).toSdk]
    public_output := [(Core.FeltHex.fromU64 55).toSdk]
    output := .fibonacci (Core.FeltHex.fromU64 55).toSdk }
  proof := goldenProof
  metrics := { execution_ms := 1, proving_ms := 2, verification_ms := 3 }

theorem golden_downloads (signals : FetchSignals) :
    fetchProofArtifact exampleClient.platform exampleClient.sha256 goldenProof signals
      (.response goldenResponse) = .ok (List.replicate 29 0) := by
  have hurl : validateFetchedUrl exampleClient.platform goldenProof.url = .ok () :=
    rejectIf_eq_ok.mpr (not_not.mpr golden_safe)
  have hchunks : readChunks 29 ⟨[List.replicate 29 0], none, .ok ()⟩ [List.replicate 29 0] 0 [] =
      .ok (29, [List.replicate 29 0]) := by decide
  have hread : readResponse exampleClient.platform exampleClient.sha256 goldenProof goldenResponse =
      .ok (List.replicate 29 0) := by
    simp only [readResponse, goldenResponse, bind_eq_ok, rejectIf_eq_ok, orReject_eq_ok, pure_eq_ok,
      exists_unit, if_true]
    exact ⟨by decide, hurl, by decide, by simp, _, rfl, _, hchunks, by decide,
      _, copyChunks_new rfl, by simp [exampleClient, goldenProof], by simp⟩
  have havailable : rejectIf (FetchAnswer.response goldenResponse = .unavailable)
      (fetchFailed "No Fetch implementation is available." false) = .ok () := if_neg FetchAnswer.noConfusion
  simp only [fetchProofArtifact, bind_eq_ok, exists_unit]
  refine ⟨havailable, hurl, ?_⟩
  rw [hread]

theorem golden_signs : exampleClient.signer.signEvent (templateOf Core.goldenRequest)
    (answerOf Core.goldenRequest) = .ok Core.goldenRequest.toSdk :=
  signEvent_answerOf (by decide) (by decide) (by decide)
    (exampleClient_verifies Protocol.goldenRequest_mem)

/-- The record, when the verifier leaves these bytes. -/
def goldenRecord (left : ProofBytes) : VerifiedJob :=
  ⟨Protocol.goldenValidated, ⟨Protocol.goldenResult.toSdk, goldenSuccess⟩, left⟩

/-- The signed request is published, answered with the signed result, downloaded and verified. -/
def goldenRun (left : ProofBytes) : List (Label exampleClient.signer.Answer) :=
  .start 1900000000 :: ([.proceed 1900000000,
    .complete 0 (.signed (answerOf Core.goldenRequest) 1900000005), .proceed 1900000000,
    .proceed 1900000000] ++ ([.complete 0 .published, .proceed 1900000005,
    .complete 0 (.event Protocol.goldenResult.toSdk 1900000005), .complete 0 .resumed] ++
    [.proceed 1900000005, .proceed 1900000005, .proceed 1900000005, .proceed 1900000005,
    .complete 0 (.fetched (.response goldenResponse) false), .proceed 1900000005,
    .complete 0 (.verified (some true) left), .proceed 1900000005]))

/-- The run, whatever the verifier leaves. -/
theorem goldenRun_verifies (left : ProofBytes) : ∃ s,
    exec (SoulJob.step exampleClient exampleOptions) (.new (.fibonacci 10)) (goldenRun left) = some s ∧
      s.Verifies exampleClient 0 (List.replicate 29 0) (goldenRecord left) := by
  have hcontent : (Protocol.resultContent 10).toSdk = .success goldenSuccess := rfl
  exact SoulJob.exec_to_verified left requestTemplate_golden golden_signs exampleClient_accepts_request
    ResultWait.golden_acceptable hcontent rfl (by decide) golden_downloads

/-- Nothing is written where the record holds the bytes that were verified. -/
theorem SoulJob.Verifies.leavesBytes {s : SoulJob} {j : ℕ} {proofBytes : ProofBytes}
    (h : s.Verifies C j proofBytes job) (hbytes : job.proofBytes = proofBytes) :
    LeavesBytes s.log := by
  intro i bytes hash statement answer left hmem
  obtain ⟨-, rfl, -, -, -, rfl⟩ := h.answered _ _ _ _ _ _ hmem
  exact hbytes

theorem golden_validates : validateJobInput (some (Core.JobInput.toJson (.fibonacci 10))) =
    .ok (.fibonacci 10) :=
  validateJobInput_toJson (by decide)

end SoulSociety.Session
