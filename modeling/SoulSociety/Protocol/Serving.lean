import SoulSociety.Protocol.Backing
import SoulSociety.Provider.Emitted
import SoulSociety.Provider.Router
import SoulSociety.Sdk.Download
import SoulSociety.Sdk.Relays

/-! From the engine over the store, the HTTP application and a browser to the bytes that a client
    verifies: what a published success points to can be downloaded, and is what the engine made. -/

namespace SoulSociety.Protocol
open Lib SoulSociety.Core Provider

/-! ### A response in a browser -/

/-- `toLowerCase()` of a code point of ASCII. -/
def lowerCase : CodePoint → CodePoint
  | .scalar c => .scalar c.toLower
  | p => p

/-- `split(';', 1)[0].trim().toLowerCase()` of a header in ASCII. -/
def mediaTypeOf (header : Text) : JsString :=
  (Sdk.trim (ofText (header.takeWhile fun c => c ≠ ';'))).map lowerCase

/-- What `fetch` makes of a response that comes without a redirect, in the chunks in which it comes.
    The content length of the provider is a decimal number. -/
def received (url : JsString) (response : Response) (chunks : List Sdk.ProofBytes)
    (cancel : Except Sdk.JsError Unit) : Sdk.HttpResponse where
  ok := 200 ≤ response.status && response.status ≤ 299
  status := response.status
  url := url
  mediaType := (response.header (text "content-type")).map mediaTypeOf
  contentLength := (response.header (text "content-length")).map fun t =>
    Sdk.numberOfDigits (ofText t)
  body := some ⟨chunks, none, cancel⟩

theorem mediaTypeOf_proofMediaType : mediaTypeOf proofMediaType = ofText proofMediaType := by
  decide

theorem numberOfDigits_decimal {n : ℕ} (h : n < 2 ^ 53) :
    Sdk.numberOfDigits (ofText (decimal n)) = .nat n := by
  have hval : Nat.ofDigitChars 10 (decimal n) 0 = n := Nat.ofDigitChars_ten_toDigits
  rw [Sdk.numberOfDigits, toUsv_ofText, hval, readNumber_nat h]

variable {U : UrlLibrary} {value : Text} {base : Url} {Q : Sdk.Platform} {d : ProofDescriptor}
  {H : Bytes → Digest} {bytes : Bytes} {hash : FeltHex} {sha256 : Sdk.ProofBytes → JsString}

/-- The URL of a descriptor leads to the path of the artifact behind the base URL, and clients may
    fetch it. -/
theorem url_of_described (hU : U.Lawful) (hbase : validatePublicBaseUrl U value = some base)
    {stored : StoredArtifact} (hsha : isLowerHex stored.sha256 64 = true)
    (hd : descriptorFor U base stored hash = some d) :
    U.parse d.url = some { base with path := base.path ++ artifactPath stored.sha256 } ∧
      Sdk.isSafeArtifactUrl U.parse (ofText d.url) = true := by
  obtain ⟨url, hjoin, rfl⟩ := Option.map_eq_some_iff.mp hd
  have hparse := hU.parse_toText value base _ url hbase hjoin
  rw [hU.join_artifactPath value base stored.sha256 hbase hsha] at hjoin
  rw [← Option.some.inj hjoin] at hparse
  refine ⟨?_, ?_⟩
  · rw [← Option.some.inj hjoin]
    exact hparse
  · rw [Sdk.isSafeArtifactUrl, toUsv_ofText, ← Option.some.inj hjoin, hparse]
    exact urlAllowed_of_base hU hbase _

/-- The headers of a served artifact agree with its descriptor. -/
theorem received_matches {digest : Text} {n : ℕ} (hsize : d.byte_size = n) (hn : n < 2 ^ 53)
    {url : JsString} (hurl : url = [] ∨ Sdk.isSafeArtifactUrl Q.parseUrl url = true)
    (chunks : List Sdk.ProofBytes) (cancel : Except Sdk.JsError Unit) :
    (received url ⟨200, artifactHeaders digest n, bytes⟩ chunks cancel).Matches Q d.toSdk where
  ok := rfl
  url := hurl
  mediaType := congrArg some mediaTypeOf_proofMediaType
  contentLength := by
    intro length hlength
    have hheader : (received url ⟨200, artifactHeaders digest n, bytes⟩ chunks cancel).contentLength =
        some (Sdk.numberOfDigits (ofText (decimal n))) := rfl
    rw [hheader, numberOfDigits_decimal hn] at hlength
    rw [← Option.some.inj hlength, ← hsize]
    rfl

/-- A client that hashes as the store does downloads the bytes, however they are cut. -/
theorem download_served (hhash : ∀ b, sha256 b = ofText (H b).val)
    (hdescribed : d.byte_size = bytes.length ∧ d.sha256 = (H bytes).val)
    (hmax : bytes.length ≤ Sdk.maxProofBytes)
    (hsafe : Sdk.isSafeArtifactUrl Q.parseUrl (ofText d.url) = true) {url : JsString}
    (hurl : url = [] ∨ url = ofText d.url) {chunks : List Sdk.ProofBytes}
    (hchunks : chunks.flatten = bytes) (cancel : Except Sdk.JsError Unit)
    (signals : Sdk.FetchSignals) :
    Sdk.fetchProofArtifact Q sha256 d.toSdk signals (.response (received url
      ⟨200, artifactHeaders (H bytes).val bytes.length, bytes⟩ chunks cancel)) = .ok bytes := by
  obtain ⟨hsize, hdigest⟩ := hdescribed
  have hn : bytes.length < 2 ^ 53 := Nat.lt_of_le_of_lt hmax (by decide)
  have hmatches : (received url ⟨200, artifactHeaders (H bytes).val bytes.length, bytes⟩ chunks
      cancel).Matches Q d.toSdk := by
    refine received_matches hsize hn ?_ chunks cancel
    rcases hurl with rfl | rfl
    · exact Or.inl rfl
    · exact Or.inr hsafe
  have hlimit : d.toSdk.byte_size ≤ Sdk.maxProofBytes := hsize.trans_le hmax
  have hbody : Sdk.readBody sha256 d.toSdk ⟨chunks, none, cancel⟩ = .ok bytes := by
    refine (Sdk.readBody_eq_ok rfl).mpr ⟨?_, hlimit, ?_, hchunks.symm⟩
    · rw [hchunks]; exact hsize.symm
    · rw [hchunks, hhash, ← hdigest]; rfl
  have hread := Sdk.readResponse_of_matches hmatches hsafe hlimit rfl hbody
  rw [Sdk.fetchProofArtifact_response hsafe, hread]

/-! ### Published proofs -/

variable {P : Setup} {K : ContentStore H}

/-- `store.get` of the provider: invalid keys return nothing. -/
def Publisher.read (s : Publisher K) (sha256 : Text) : Except ArtifactError (Option Bytes) :=
  if isLowerHex sha256 64 then .ok (K.get s.store sha256) else .ok none

/-- What a success of a run points to: a URL behind the base URL, and below the base URL a path that the
    application serves with the bytes of the artifact that the engine returned for the input of the
    request. A base URL with a path of its own presumes a proxy that strips it. -/
structure Served (P : Setup) (Q : Sdk.Platform) (sha256 : Sdk.ProofBytes → JsString)
    (decode : Text → Option Text) (s : Publisher K) (artifact : VerifiedProofArtifact)
    (d : ProofDescriptor) : Prop where
  url : Q.parseUrl d.url = some { P.base with path := P.base.path ++ artifactPath d.sha256 }
  served : (artifactRouter decode (Publisher.read s) .get ('/' :: artifactPath d.sha256)).body =
    artifact.proof_bytes
  head : artifactRouter decode (Publisher.read s) .head ('/' :: artifactPath d.sha256) =
    { artifactRouter decode (Publisher.read s) .get ('/' :: artifactPath d.sha256) with body := [] }
  downloads : ∀ chunks : List Sdk.ProofBytes, chunks.flatten = artifact.proof_bytes →
    ∀ (cancel : Except Sdk.JsError Unit) (signals : Sdk.FetchSignals),
      Sdk.fetchProofArtifact Q sha256 d.toSdk signals (.response (received (ofText d.url)
        (artifactRouter decode (Publisher.read s) .get ('/' :: artifactPath d.sha256)) chunks cancel)) =
          .ok artifact.proof_bytes

/-- A delivered success is served. -/
theorem served_of_delivers (hurls : P.U.Lawful)
    (hbase : validatePublicBaseUrl P.U value = some P.base) (hsdk : Q.parseUrl = P.U.parse)
    (hhash : ∀ b, sha256 b = ofText (H b).val) {decode : Text → Option Text}
    (hdecode : ∀ t, '%' ∉ t → decode t = some t) {s : Publisher K} {request : JobRequest} {e : Event}
    {artifact : VerifiedProofArtifact} (h : s.Delivers P request e artifact d) :
    Served P Q sha256 decode s artifact d := by
  obtain ⟨-, -, -, ⟨⟨-, -, -, -, hmax⟩, hsha⟩, -⟩ := (JobResultContent.validate_iff.mp h.valid).1
  have hlower : isLowerHex (H artifact.proof_bytes).val 64 = true := (H artifact.proof_bytes).property
  obtain ⟨hparse, hsafe⟩ := url_of_described hurls hbase hlower h.described
  have hdescribed : d.byte_size = artifact.proof_bytes.length ∧
      d.sha256 = (H artifact.proof_bytes).val := by
    obtain ⟨url, -, rfl⟩ := Option.map_eq_some_iff.mp h.described
    exact ⟨rfl, rfl⟩
  obtain ⟨hsize, hdigest⟩ := hdescribed
  have hread : Publisher.read s (H artifact.proof_bytes).val = .ok (some artifact.proof_bytes) := by
    rw [Publisher.read, if_pos hlower, h.stored]
  have hplain : '%' ∉ (H artifact.proof_bytes).val ++ text ".json" := by
    obtain ⟨-, hhex⟩ := (Bool.and_eq_true _ _).mp hlower
    intro hmem
    rcases List.mem_append.mp hmem with hmem | hmem
    · exact absurd (List.all_eq_true.mp hhex _ hmem) (by decide)
    · exact absurd hmem (by decide)
  obtain ⟨hget, hhead⟩ := artifactRouter_artifact hlower (hdecode _ hplain) hread
  rw [← hsdk] at hparse hsafe
  have hlength : artifact.proof_bytes.length ≤ Sdk.maxProofBytes := hsize.symm.trans_le hmax
  rw [← hdigest] at hget hhead
  refine ⟨by rw [hdigest]; exact hparse, ?_, ?_, ?_⟩
  · rw [hget]
  · rw [hget, hhead]
  · intro chunks hchunks cancel signals
    rw [hget, hdigest]
    exact download_served hhash ⟨hsize, hdigest⟩ hlength hsafe (Or.inr rfl) hchunks cancel signals

/-- Every success that a run of the provider returned, at once or again, can be downloaded then and
    ever after: the application serves the bytes that the engine made for the input of the request
    under the URL in the signed descriptor, and the SDK takes them in whatever chunks they come. -/
theorem published_proof_downloads (hurls : P.U.Lawful) (hkeys : P.keys.Lawful P.L)
    (hbase : validatePublicBaseUrl P.U value = some P.base) (hsdk : Q.parseUrl = P.U.parse)
    (K : ContentStore H) (sha256 : Sdk.ProofBytes → JsString) (hhash : ∀ b, sha256 b = ofText (H b).val)
    (decode : Text → Option Text) (hdecode : ∀ t, '%' ∉ t → decode t = some t)
    (capacity : ℕ) (hcapacity : 0 < capacity)
    (ls : List Publisher.Label) (s : Publisher K)
    (hs : exec (Publisher.step P) (Publisher.new K capacity) ls = some s) (id : Text) (e : Event)
    (he : SignedJobHandler.Answered s.handler.log id e) :
    ∃ event now request, parseRequestEvent P.L event now = .ok request ∧ request.id = id ∧
      ((∃ err : ProcessingError, e.content =
          (JobResultContent.newError request.id err.publicCode err.publicMessage).toText) ∨
        ∃ artifact d, (request.input, artifact) ∈ s.proofs ∧
          statementMatchesRequest artifact.statement request.input = true ∧
          e.content = (JobResultContent.newSuccess request.id artifact.statement d
            artifact.metrics).toText ∧
          ∀ ls' s', exec (Publisher.step P) s ls' = some s' →
            Served P Q sha256 decode s' artifact d) := by
  obtain ⟨request, ⟨event, now, -, hparse⟩, hid, hemitted⟩ :=
    Publisher.emitted_visits hkeys hcapacity (Visits.last hs) he
  refine ⟨event, now, request, hparse, hid, hemitted.delivered.imp_right ?_⟩
  rintro ⟨artifact, d, hdelivers⟩
  refine ⟨artifact, d, hdelivers.made, hdelivers.bound, hdelivers.content, fun ls' s' hs' => ?_⟩
  have hgrows := Publisher.grows_exec hs'
  exact served_of_delivers hurls hbase hsdk hhash hdecode { hdelivers with
    made := hgrows.proofs hdelivers.made
    stored := hgrows.store _ _ hdelivers.stored }

/-! ### The signed result -/

theorem goldenDeployment : Deployment (exampleSetup goldenResult)
    (exactPlatform [goldenRequest, goldenResult] exampleUrls.parse) :=
  exampleDeployment (by decide) (by decide +kernel) (by decide +kernel)

theorem goldenResult_ne_error (id : Text) (code : ErrorCode) (message : Text) :
    goldenResult.content ≠ (JobResultContent.newError id code message).toText := by
  intro h
  cases JobResultContent.toText_injective h

/-- The proof behind the signed result can be downloaded. -/
theorem golden_proof_downloads : ∃ (s : Publisher (memoryStore fixtureHash)) (a : VerifiedProofArtifact)
    (d : ProofDescriptor), exec (Publisher.step (exampleSetup goldenResult))
      (Publisher.new (memoryStore fixtureHash) 64) goldenLabels = some s ∧
      goldenResult.content = (JobResultContent.newSuccess goldenRequest.id a.statement d
        a.metrics).toText ∧
      Served (exampleSetup goldenResult) (exactPlatform [goldenRequest, goldenResult] exampleUrls.parse)
        (fun _ => ofText fixtureSha) some s a d := by
  obtain ⟨s, hs, hanswered⟩ := golden_run
  obtain ⟨value, hbase⟩ := goldenDeployment.base
  obtain ⟨event, now, request, -, hid, hoffers⟩ := published_proof_downloads goldenDeployment.urls
    goldenDeployment.keys hbase goldenDeployment.sdkParseUrl (memoryStore fixtureHash)
    (fun _ => ofText fixtureSha) (fun _ => rfl) some (fun _ _ => rfl) 64 (by decide) goldenLabels s hs
    _ _ hanswered
  rcases hoffers with ⟨err, hcontent⟩ | ⟨a, d, -, -, hcontent, hserved⟩
  · exact absurd hcontent (goldenResult_ne_error _ _ _)
  · rw [hid] at hcontent
    exact ⟨s, a, d, hs, hcontent, hserved [] s rfl⟩

end SoulSociety.Protocol
