import SoulSociety.Protocol.Serving
import SoulSociety.Provider.Emitted
import SoulSociety.Session.Points
import SoulSociety.Session.Soundness

/-! A client and any number of providers, with everything in between in the hands of an adversary that
    cannot forge signatures: relays deliver what they like to whom they like, as often as they like,
    the proof server answers what it likes. Whatever happens, a job is verified only with the bytes
    that the engine of a provider made for the input of this job. -/

namespace SoulSociety.Session
open Lib Sdk

variable {H : Provider.Bytes → Provider.Digest} {ι : Type}

/-- A job of the client, and the providers. -/
structure Network (K : ι → Provider.ContentStore H) where
  job : SoulJob
  providers : (p : ι) → Provider.Publisher (K p)

namespace Network

inductive Label (Answer : Type) (ι : Type) where
  | job (l : Session.Label Answer)
  | provider (p : ι) (l : Provider.Publisher.Label)

variable {K : ι → Provider.ContentStore H}

def new (K : ι → Provider.ContentStore H) (capacity : ℕ) (input : JobInput) : Network K where
  job := .new input
  providers p := .new (K p) capacity

/-- One of the parties moves. -/
def step [DecidableEq ι] (C : SoulNostrClient) (options : JobOptions) (P : ι → Provider.Setup)
    (s : Network K) : Label C.signer.Answer ι → Option (Network K)
  | .job l => (s.job.step C options l).map fun job => { s with job := job }
  | .provider p l => ((s.providers p).step (P p) l).map fun provider =>
      { s with providers := Function.update s.providers p provider }

/-- A provider has returned the event. -/
def Returned (s : Network K) (event : Event) : Prop :=
  ∃ (p : ι) (id : Text) (e : Core.Event), e.toSdk = event ∧
    Provider.SignedJobHandler.Answered (s.providers p).handler.log id e

/-- An authentic event of a trusted key was returned by a provider. -/
def Authored (C : SoulNostrClient) (s : Network K) (event : Event) : Prop :=
  C.platform.verifyEvent event = true → event.pubkey ∈ C.trustedProviderPubkeys → s.Returned event

/-- No event of a trusted key is delivered to the job before a provider has returned it. -/
def Unforged (C : SoulNostrClient) (s : Network K) : Label C.signer.Answer ι → Prop
  | .job l => Delivers (s.Authored C) l
  | .provider _ _ => True

variable [DecidableEq ι] {C : SoulNostrClient} {options : JobOptions} {P : ι → Provider.Setup}
  {s s' : Network K} {capacity : ℕ} {input : JobInput} {ls : List (Label C.signer.Answer ι)}

/-- Either the job has moved, or one provider has. -/
theorem moved_of_step {l : Label C.signer.Answer ι} (h : step C options P s l = some s') :
    (∃ k, l = .job k ∧ SoulJob.step C options s.job k = some s'.job ∧ s'.providers = s.providers) ∨
      ∃ p k, l = .provider p k ∧ s'.job = s.job ∧
        Provider.Publisher.step (P p) (s.providers p) k = some (s'.providers p) ∧
          ∀ q, q ≠ p → s'.providers q = s.providers q := by
  cases l with
  | job k =>
    obtain ⟨job, hjob, rfl⟩ := Option.map_eq_some_iff.mp h
    exact Or.inl ⟨k, rfl, hjob, rfl⟩
  | provider p k =>
    obtain ⟨provider, hprovider, rfl⟩ := Option.map_eq_some_iff.mp h
    refine Or.inr ⟨p, k, rfl, rfl, ?_, fun q hq => Function.update_of_ne hq _ _⟩
    simp only [Function.update_self]
    exact hprovider

/-- Each party goes through a run of its own. -/
theorem projects (hs : Visits (step C options P) (new K capacity input) ls s) :
    (∃ js, exec (SoulJob.step C options) (.new input) js = some s.job) ∧
      ∀ p, ∃ ps, exec (Provider.Publisher.step (P p)) (.new (K p) capacity) ps =
        some (s.providers p) := by
  refine hs.invariant (I := fun s : Network K =>
    (∃ js, exec (SoulJob.step C options) (.new input) js = some s.job) ∧
      ∀ p, ∃ ps, exec (Provider.Publisher.step (P p)) (.new (K p) capacity) ps =
        some (s.providers p)) ⟨⟨[], rfl⟩, fun p => ⟨[], rfl⟩⟩ ?_
  rintro m l m' ht ⟨⟨js, hjob⟩, hproviders⟩
  rcases moved_of_step ht.enabled with ⟨k, -, hk, hsame⟩ | ⟨p, k, -, hsame, hk, hothers⟩
  · rw [hsame]
    exact ⟨⟨js ++ [k], exec_concat.mpr ⟨_, hjob, hk⟩⟩, hproviders⟩
  · rw [hsame]
    refine ⟨⟨js, hjob⟩, fun q => ?_⟩
    obtain ⟨ps, hq⟩ := hproviders q
    by_cases hqp : q = p
    · subst hqp
      exact ⟨ps ++ [k], exec_concat.mpr ⟨_, hq, hk⟩⟩
    · rw [hothers q hqp]
      exact ⟨ps, hq⟩

/-- What was returned stays returned. -/
theorem returned_step {l : Label C.signer.Answer ι} (h : step C options P s l = some s')
    {event : Event} (hreturned : s.Returned event) : s'.Returned event := by
  obtain ⟨p, id, e, he, hanswered⟩ := hreturned
  refine ⟨p, id, e, he, ?_⟩
  rcases moved_of_step h with ⟨k, -, -, hsame⟩ | ⟨q, k, -, -, hq, hothers⟩
  · rw [hsame]
    exact hanswered
  · by_cases hpq : p = q
    · subst hpq
      rcases Provider.Publisher.moved_of_step hq with ⟨hhandler, -⟩ | ⟨m, handler, hm, heq, -⟩
      · rw [hhandler]
        exact hanswered
      · obtain ⟨seen, hlog⟩ := Provider.SignedJobHandler.log_moves hm
        rw [heq]
        change Provider.SignedJobHandler.Answered handler.log id e
        rw [hlog]
        exact Provider.SignedJobHandler.answered_append.mpr (Or.inl hanswered)
    · rw [hothers p hpq]
      exact hanswered

/-- Where nothing is forged, what the job goes on with was returned by a provider, if a trusted key
    signed it. -/
theorem delivered_visits (hunforged : ∀ m l m', Takes (step C options P) (new K capacity input) ls
      m l m' → m.Unforged C l) (hs : Visits (step C options P) (new K capacity input) ls s) :
    s.job.session.Everywhere fun _ p => p.Delivered (s.Authored C) := by
  refine hs.invariant (I := fun s : Network K =>
    s.job.session.Everywhere fun _ p => p.Delivered (s.Authored C))
    (JobSession.Everywhere.new _ input) ?_
  intro m l m' ht h
  have hgrows : ∀ (_ : List Act) (p : Point), p.Delivered (m.Authored C) →
      p.Delivered (m'.Authored C) := fun _ p => Point.Delivered.mono fun event hevent hverify htrusted =>
      returned_step ht.enabled (hevent hverify htrusted)
  refine JobSession.Everywhere.mono hgrows ?_
  rcases moved_of_step ht.enabled with ⟨k, rfl, hk, -⟩ | ⟨p, k, -, hsame, -⟩
  · exact h.moves (kept_delivered C options _) (hunforged m _ m' ht) (SoulJob.moves_of_step hk)
  · rw [hsame]
    exact h

end Network

/-! ### What the client accepts -/

/-- A request is validated with its canonical content. -/
theorem canonicalContent_of_validate {Q : Platform} {event : Event} {now : ℕ}
    {request : ValidatedRequest} (h : validateRequestEvent Q event now = .ok request) :
    request.canonicalContent = ofText (serializeRequestContent request.content) := by
  simp only [validateRequestEvent, bind_eq_ok, rejectIf_eq_ok, orReject_eq_ok, pure_eq_ok,
    exists_unit, not_not] at h
  obtain ⟨-, _, -, -, -, _, -, -, _, -, content, -, -, -, _, -, _, -, -, rfl⟩ := h
  rfl

theorem shaped_of_validate {Q : Platform} {event : Event} {request : ValidatedRequest} {now : ℕ}
    {result : ValidatedResult} (h : validateResultEvent Q event request now = .ok result) :
    result.content.Shaped := by
  simp only [validateResultEvent, bind_eq_ok, rejectIf_eq_ok, orReject_eq_ok, pure_eq_ok,
    exists_unit, not_not] at h
  obtain ⟨-, -, -, _, -, -, doc, hdoc, content, hparse, -, -, -, _, -, _, -, -, -, rfl⟩ := h
  exact (parseResult_sound (Json.stringsPaired_of_parse hdoc) hparse).1

/-- An accepted result of a provider is about the request that the provider has parsed: the ids and the
    canonical contents agree. -/
theorem same_request_of_validate {Q : Platform} {author : Text} {r : Core.JobRequest}
    {c : Core.JobResultContent} {e : Core.Event} {request : ValidatedRequest} {now now' : ℕ}
    {source : Event} {result : ValidatedResult}
    (htags : e.tags = Provider.buildTags author (Core.resultTags r c))
    (hhex : isHex64 request.event.pubkey = true)
    (hrequest : validateRequestEvent Q source now' = .ok request)
    (h : validateResultEvent Q e.toSdk request now = .ok result) :
    ofText r.id = request.event.id ∧
      ofText r.canonical_input = ofText (serializeRequestContent request.content) := by
  simp only [validateResultEvent, bind_eq_ok, rejectIf_eq_ok, orReject_eq_ok, pure_eq_ok,
    exists_unit, not_not] at h
  obtain ⟨-, -, -, _, -, -, doc, hdoc, content, hparse, -, hid, -, embedded, htag, _, -, -, hsame,
    rfl⟩ := h
  obtain ⟨hshaped, -⟩ := parseResult_sound (Json.stringsPaired_of_parse hdoc) hparse
  -- with its own name among the tags the provider would send seven of them
  have hother : r.customer_pubkey ≠ author := by
    rintro rfl
    have hlength : e.toSdk.tags.length = 7 :=
      (List.length_map ..).trans ((congrArg List.length htags).trans
        (Provider.length_buildTags_self r c))
    rw [embeddedRequest.eq_def] at htag
    split at htag
    · rename_i name value rest heq
      rw [heq, List.length_cons] at hlength
      have hrest : rest.length = 7 := (Option.ite_none_right_eq_some.mp htag).1.1
      omega
    · cases htag
  rw [Provider.buildTags_resultTags hother] at htags
  have hsdk : e.toSdk.tags = Core.tagsToSdk (Core.resultTags r c) := congrArg Core.tagsToSdk htags
  have hembedded : embedded = ofText r.serialized_event := by
    rw [hsdk] at htag
    exact (Option.some.inj htag).symm
  have hpaired : Core.TagsPaired (expectedTags embedded request content) := by
    have hcontentId : isHex64 request.event.id = true := by
      rw [← hid]
      cases content with
      | success r => exact hshaped.2.1
      | error r => exact hshaped.2.1
    simp only [Core.TagsPaired, expectedTags, List.forall_mem_cons, hembedded,
      canonicalContent_of_validate hrequest, Protocol.status_toSdk, Core.serviceValue_eq,
      List.not_mem_nil, false_implies, implies_true, and_true]
    have htext : ∀ t : Text, Paired (ofText t) := paired_ofText
    exact ⟨⟨htext _, htext _⟩, ⟨htext _, paired_of_isHexString hcontentId⟩,
      ⟨htext _, paired_of_isHexString hhex⟩, ⟨htext _, htext _, htext _⟩, ⟨htext _, htext _⟩,
      ⟨htext _, htext _⟩, ⟨htext _, htext _⟩, ⟨htext _, htext _⟩⟩
  have hequal : Core.tagsToSdk (Core.resultTags r c) = expectedTags embedded request content :=
    (Protocol.stringifyTags_inj (Core.tagsPaired_ofText _) hpaired).mp
      ((congrArg stringifyTags hsdk).symm.trans hsame)
  simp only [Core.tagsToSdk, Core.resultTags, expectedTags, List.map_cons, List.cons.injEq,
    canonicalContent_of_validate hrequest] at hequal
  exact ⟨hequal.2.1.2.1, hequal.2.2.2.1.2.1⟩

/-- What a provider has returned and a client takes for a success describes an artifact that the engine
    of the provider made for the input of the request. -/
theorem artifact_of_emitted {P : Provider.Setup} (D : Protocol.Operated P) {K : Provider.ContentStore H}
    {m : Provider.Publisher K} {r : Core.JobRequest} {e source : Core.Event} {now : ℕ}
    (hparse : Core.parseRequestEvent P.L source now = .ok r)
    (hemitted : m.Emitted P r e) {content : SuccessfulJobResult}
    (hcontent : e.toSdk.content = ofText (serializeResult (.success content)))
    (hshaped : (JobResult.success content).Shaped) :
    ∃ artifact, ∃ d : Core.ProofDescriptor, (r.input, artifact) ∈ m.proofs ∧
      content.statement = artifact.statement.toSdk ∧ content.proof = d.toSdk ∧
      d.byte_size = artifact.proof_bytes.length ∧ d.sha256 = (H artifact.proof_bytes).val := by
  obtain ⟨value, hbase⟩ := D.base
  obtain ⟨q, bid, hsource, hform, rfl⟩ := (Core.parseRequestEvent_eq_ok D.libraries).mp hparse
  obtain ⟨⟨answers, t, hsigned⟩, hdelivered⟩ := hemitted
  obtain ⟨-, hsign⟩ := Provider.signResult_eq_ok.mp hsigned
  obtain ⟨-, -, -, -, htext, -⟩ := D.keys _ _ _ _ _ hsign
  have hservice := Core.JobRequestContent.service_of_validate hform.valid
  have hpublishable : Protocol.Publishable P.U.parse (Core.requestOf source q bid) _ :=
    Protocol.publishable_resultFor D.urls hbase (D.hexFields source hsource).1 hservice answers
  -- the text stands for one result
  have hsame : JobResult.success content = (Provider.resultFor (Core.requestOf source q bid)
      (Provider.process P.U P.base answers (Core.requestOf source q bid))).toSdk := by
    refine serializeResult_inj hshaped (shaped_toSdk.mpr hpublishable.shaped) ?_
    rw [serializeResult_toSdk hpublishable.shaped, ← htext]
    exact (ofText_inj.mp hcontent).symm
  rcases hdelivered with ⟨err, herror⟩ | ⟨artifact, d, hdelivers⟩
  · rw [Core.JobResultContent.toText_injective (htext.symm.trans herror)] at hsame
    cases hsame
  · rw [Core.JobResultContent.toText_injective (htext.symm.trans hdelivers.content)] at hsame
    cases hsame
    obtain ⟨url, -, rfl⟩ := Option.map_eq_some_iff.mp hdelivers.described
    exact ⟨artifact, _, hdelivers.made, rfl, rfl, rfl, rfl⟩

/-! ### Agreement -/

open Network in
/-- Whatever the network does short of forging: the bytes that the verifier accepted have the digest of
    a proof that the engine of a provider made for exactly the input of this job, after it took exactly
    the request of this job, and the verified statement is the one of that proof. -/
theorem verified_agrees_with_provider [DecidableEq ι] (C : SoulNostrClient)
    (hsigner : BuiltIn C.platform C.signer) (options : JobOptions) {value : Option Json}
    {input : JobInput} (hinput : validateJobInput value = .ok input) (P : ι → Provider.Setup)
    (D : ∀ p, Protocol.Operated (P p))
    (hhash : ∀ bytes, C.sha256 bytes = ofText (H bytes).val)
    (hhex : ∀ event, C.platform.verifyEvent event = true → isHex64 event.pubkey = true)
    (K : ι → Provider.ContentStore H) (capacity : ℕ) (hcapacity : 0 < capacity)
    (ls : List (Network.Label C.signer.Answer ι)) (s : Network K)
    (hs : exec (Network.step C options P) (Network.new K capacity input) ls = some s)
    (hunforged : ∀ m l m', Takes (Network.step C options P) (Network.new K capacity input) ls m l m' →
      m.Unforged C l)
    (hstate : s.job.snapshot.state = .verified) :
    ∃ job proofBytes p source now request artifact, s.job.snapshot.verified = some job ∧
      Core.parseRequestEvent (P p).L source now = .ok request ∧
      ofText request.id = job.request.event.id ∧ request.input.toSdk = input ∧
      (request.input, artifact) ∈ (s.providers p).proofs ∧
      job.result.content.statement = artifact.statement.toSdk ∧
      Accepted C s.job.log proofBytes job ∧ proofBytes.length = artifact.proof_bytes.length ∧
      H proofBytes = H artifact.proof_bytes ∧
      (LeavesBytes s.job.log → job.proofBytes = proofBytes) := by
  have hvisits := Visits.last hs
  obtain ⟨⟨js, hjob⟩, hproviders⟩ := projects hvisits
  obtain ⟨i, -, hi⟩ := validateJobInput_sound hinput
  have hprovenance := Provenance.visits (Visits.last hjob)
  rw [Core.canonicalizeInput_eq] at hprovenance
  obtain ⟨job, t, proofBytes, hrecord, hchecked⟩ := hprovenance.checked hstate
  have hsound := hchecked.sound hsigner hi
  obtain ⟨_, _, now₁, signed, -, -, hvalidated⟩ := hchecked.signed
  obtain ⟨event, now₂, -, haccepted⟩ := hchecked.accepted
  have hevent : job.result.event = event := event_of_validateResult haccepted
  subst hevent
  -- the accepted event comes from a provider
  obtain ⟨_, hauthored⟩ := (delivered_visits hunforged hvisits).record job hrecord
  obtain ⟨p, id, e, he, hanswered⟩ := hauthored hsound.resultAuthentic hsound.resultTrusted
  obtain ⟨ps, hps⟩ := hproviders p
  obtain ⟨request, ⟨source, now, -, hparse⟩, rfl, hemitted⟩ :=
    Provider.Publisher.emitted_visits (D p).keys hcapacity (Visits.last hps) hanswered
  obtain ⟨answers, t', hsigned⟩ := hemitted.signed
  obtain ⟨-, hsign⟩ := Provider.signResult_eq_ok.mp hsigned
  obtain ⟨-, -, -, -, -, htags⟩ := (D p).keys _ _ _ _ _ hsign
  rw [← he] at haccepted
  -- it took the request of this job
  obtain ⟨hid, hcanonical⟩ := same_request_of_validate htags (hhex _ hsound.requestAuthentic)
    hvalidated haccepted
  have hown : request.input = i := by
    obtain ⟨q, bid, -, -, rfl⟩ := (Core.parseRequestEvent_eq_ok (D p).libraries).mp hparse
    obtain ⟨createdAt, -, hbuild, -⟩ := hsound.requestContent
    rw [hbuild, ← hi, Core.buildRequestContent_toSdk, Core.serializeRequestContent_toSdk] at hcanonical
    exact congrArg Core.JobRequestContent.input
      (Core.JobRequestContent.canonicalJson_injective (ofText_inj.mp hcanonical))
  have hcontent : e.toSdk.content = ofText (serializeResult (.success job.result.content)) := by
    rw [he]
    exact hsound.resultContent
  obtain ⟨artifact, d, hmade, hstatement, hproof, hsize, hdigest⟩ :=
    artifact_of_emitted (D p) hparse hemitted hcontent (shaped_of_validate haccepted)
  obtain ⟨hlength, hsha⟩ := hchecked.downloaded
  rw [hproof] at hlength hsha
  have hsame : H proofBytes = H artifact.proof_bytes := by
    refine Subtype.ext (ofText_inj.mp ?_)
    rw [← hhash, hsha, ← hdigest]
    rfl
  have haccepted : Accepted C s.job.log proofBytes job := hchecked.verified.of_session
  exact ⟨job, proofBytes, p, source, now, request, artifact, hrecord, hparse, hid, hown ▸ hi, hmade,
    hstatement, haccepted, hlength.trans hsize, hsame, haccepted.bytes_eq⟩

/-! ### A network of two -/

namespace Network

variable [DecidableEq ι] {C : SoulNostrClient} {options : JobOptions} {P : ι → Provider.Setup}
  {K : ι → Provider.ContentStore H} {s : Network K}

/-- A provider runs while the others wait. -/
theorem exec_provider {p : ι} {ls : List Provider.Publisher.Label} {s : Network K}
    {m : Provider.Publisher (K p)}
    (h : exec (Provider.Publisher.step (P p)) (s.providers p) ls = some m) :
    exec (step C options P) s (ls.map (.provider p)) =
      some { s with providers := Function.update s.providers p m } := by
  induction ls generalizing s with
  | nil =>
    cases h
    rw [List.map_nil, exec_nil, Function.update_eq_self]
  | cons l ls ih =>
    obtain ⟨n, hn, h⟩ := Option.bind_eq_some_iff.mp h
    have hstep : step C options P s (.provider p l) =
        some { s with providers := Function.update s.providers p n } := by
      rw [step, hn]
      rfl
    have hrest : exec (Provider.Publisher.step (P p)) (Function.update s.providers p n p) ls =
        some m := by
      rw [Function.update_self]
      exact h
    have hlast := ih (s := { s with providers := Function.update s.providers p n }) hrest
    rw [Function.update_idem] at hlast
    rw [List.map_cons, exec_cons hstep, hlast]

/-- The job runs while the providers wait. -/
theorem exec_job {ls : List (Session.Label C.signer.Answer)} {s : Network K} {job : SoulJob}
    (h : exec (SoulJob.step C options) s.job ls = some job) :
    exec (step C options P) s (ls.map .job) = some { s with job := job } := by
  induction ls generalizing s with
  | nil => cases h; rfl
  | cons l ls ih =>
    obtain ⟨n, hn, h⟩ := Option.bind_eq_some_iff.mp h
    have hstep : step C options P s (.job l) = some { s with job := n } := by
      rw [step, hn]
      rfl
    rw [List.map_cons, exec_cons hstep, ih h]

/-- While the job runs the providers are as they were. -/
theorem providers_of_takes {ks : List (Session.Label C.signer.Answer)} {m m' : Network K}
    {l : Label C.signer.Answer ι} (h : Takes (step C options P) s (ks.map .job) m l m') :
    m.providers = s.providers ∧ ∃ k ∈ ks, l = .job k := by
  constructor
  · refine h.visits.invariant (I := fun n : Network K => n.providers = s.providers) rfl ?_
    intro n l n' ht hn
    obtain ⟨k, -, rfl⟩ := List.mem_map.mp ht.mem
    rcases moved_of_step ht.enabled with ⟨_, -, -, hsame⟩ | ⟨p, _, hl, -⟩
    · exact hsame.trans hn
    · cases hl
  · obtain ⟨k, hk, rfl⟩ := List.mem_map.mp h.mem
    exact ⟨k, hk, rfl⟩

end Network

theorem goldenRun_delivers {Q : Event → Prop} (h : Q Protocol.goldenResult.toSdk) :
    ∀ l ∈ goldenRun (List.replicate 29 0), Delivers Q l := by
  simp only [goldenRun, List.cons_append, List.nil_append, List.forall_mem_cons, Delivers, h, true_and,
    List.not_mem_nil, false_implies, implies_true]

theorem exampleClient_hex {event : Event} (h : exampleClient.platform.verifyEvent event = true) :
    isHex64 event.pubkey = true := by
  have hall : ∀ e ∈ Protocol.signedEvents.map Core.Event.toSdk, isHex64 e.pubkey = true := by
    decide
  exact hall event (of_decide_eq_true h)

/-- The one provider that made the signed result. -/
noncomputable def exampleProviders (_ : Unit) : Provider.Setup :=
  Protocol.exampleSetup Protocol.goldenResult

def exampleStores (_ : Unit) : Provider.ContentStore Protocol.fixtureHash :=
  Provider.memoryStore Protocol.fixtureHash

/-- The provider makes its proof, and then the job verifies it. -/
def goldenNetwork : List (Network.Label exampleClient.signer.Answer Unit) :=
  Protocol.goldenLabels.map (.provider ()) ++ (goldenRun (List.replicate 29 0)).map .job

open Network in
/-- The verified bytes have the digest of the proof that the provider made. -/
theorem golden_network_agrees : ∃ (s : Network exampleStores) (job : VerifiedJob)
    (request : Core.JobRequest) (artifact : Provider.VerifiedProofArtifact),
    exec (step exampleClient exampleOptions exampleProviders)
      (new exampleStores 64 (.fibonacci 10)) goldenNetwork = some s ∧
      s.job.snapshot.verified = some job ∧ request.input.toSdk = .fibonacci 10 ∧
      (request.input, artifact) ∈ (s.providers ()).proofs ∧
      Protocol.fixtureHash job.proofBytes = Protocol.fixtureHash artifact.proof_bytes := by
  obtain ⟨m, hm, hanswered⟩ := Protocol.golden_run
  obtain ⟨job, hjob, hverifies⟩ := goldenRun_verifies (List.replicate 29 0)
  let start : Network exampleStores := new exampleStores 64 (.fibonacci 10)
  let served : Network exampleStores :=
    { start with providers := Function.update start.providers () m }
  have hserved : exec (step exampleClient exampleOptions exampleProviders) start
      (Protocol.goldenLabels.map (.provider ())) = some served := exec_provider hm
  have hs : exec (step exampleClient exampleOptions exampleProviders) start goldenNetwork =
      some { served with job := job } := by
    rw [goldenNetwork, exec_append, hserved, Option.bind_some]
    exact exec_job hjob
  have hreturned : served.Returned Protocol.goldenResult.toSdk := ⟨(), _, _, rfl, hanswered⟩
  have hunforged : ∀ n l n', Takes (step exampleClient exampleOptions exampleProviders) start
      goldenNetwork n l n' → n.Unforged exampleClient l := by
    intro n l n' ht
    rcases takes_append ht with ht | ⟨served', hserved', ht⟩
    · obtain ⟨k, -, rfl⟩ := List.mem_map.mp ht.mem
      trivial
    · obtain rfl := Option.some.inj (hserved.symm.trans hserved')
      obtain ⟨hsame, k, hk, rfl⟩ := providers_of_takes ht
      refine goldenRun_delivers (fun _ _ => ?_) k hk
      rw [Returned, hsame]
      exact hreturned
  obtain ⟨verified, proofBytes, _, source, now, request, artifact, hrecord, -, -, hinput, hmade, -,
      -, -, hdigest, hleft⟩ :=
    verified_agrees_with_provider exampleClient .nip07 exampleOptions golden_validates exampleProviders
      (fun _ => Protocol.goldenDeployment.toOperated) (fun _ => rfl) (fun _ => exampleClient_hex)
      exampleStores 64 (by decide) goldenNetwork _ hs hunforged hverifies.state
  have hbytes : verified.proofBytes = proofBytes := hleft (hverifies.leavesBytes rfl)
  exact ⟨_, verified, request, artifact, hs, hrecord, hinput, hmade, hbytes ▸ hdigest⟩

end SoulSociety.Session
