import SoulSociety.Protocol.Emission
import SoulSociety.Provider.Publishing

/-! Published successes and the artifacts behind them: in every run of the handler with its store,
    what `handle_event` returns is an error, or a success whose proof the store returns ever after. -/

namespace SoulSociety.Protocol
open Lib SoulSociety.Core Provider

/-- Event ids identify contents. -/
def IdsIdentify (L : Libraries) : Prop :=
  ∀ a b : Event, L.verify a = true → L.verify b = true → a.id = b.id → a.content = b.content

/-- A result that was returned, at once or again, is an error about its request, or a valid success
    backed by an artifact that the engine made for the request's input and that the store returns in
    this state and in every later one. A call with a failed stage signs an error. -/
theorem returned_success_backed {H : Bytes → Digest} (K : ContentStore H) (P : Setup)
    (hkeys : P.keys.Lawful P.L) (capacity : ℕ) (hcapacity : 0 < capacity)
    (ls : List Publisher.Label) :
    (∀ s id e, exec (Publisher.step P) (Publisher.new K capacity) ls = some s →
      SignedJobHandler.Answered s.handler.log id e →
        ∃ event now request, parseRequestEvent P.L event now = .ok request ∧ request.id = id ∧
          (IdsIdentify P.L → ∀ event' now' request',
            parseRequestEvent P.L event' now' = .ok request' → request'.id = id →
              request'.input = request.input) ∧
          ∀ ls' s', exec (Publisher.step P) s ls' = some s' → s'.Published P request e) ∧
    ∀ s i t s' request answers err e,
      Takes (Publisher.step P) (Publisher.new K capacity) ls s (.complete i t) s' →
        s.handler.calls[i]? = some ⟨request, .processing⟩ →
          (s.progress i).answers request = some answers →
            process P.U P.base answers request = .error err →
              s'.handler.calls[i]? = some ⟨request, .signed e⟩ →
                e.content = (JobResultContent.newError request.id err.publicCode
                  err.publicMessage).toText := by
  constructor
  · intro s id e hs hanswered
    have hbacked := Publisher.backed_visits hkeys hcapacity (Visits.last hs)
    obtain ⟨event, now, request, hparse, rfl, hpublished⟩ := hbacked.answered id e hanswered
    refine ⟨event, now, request, hparse, rfl, ?_, ?_⟩
    · intro hids event' now' request' hparse' hid
      obtain ⟨hverify, heq⟩ := authentic_of_parse hparse
      obtain ⟨hverify', heq'⟩ := authentic_of_parse hparse'
      refine Publisher.input_eq hparse' hparse (hids event' event hverify' hverify ?_)
      rw [← heq, ← heq', hid]
    · intro ls' s' hs'
      exact hpublished.grows (Publisher.grows_exec hs')
  · intro s i t s' request answers err e ht hcall hanswers hfailed hsigned
    exact Publisher.content_of_failed hkeys hcall hanswers hfailed ht.enabled hsigned

/-! ### The signed result -/

/-- The hash of the artifact in `protocol/fixtures/wire`. -/
def fixtureHash : Bytes → Digest := fun _ => ⟨fixtureSha, by decide +kernel⟩

/-- An artifact with the statement that the signed request asks for. -/
def fixtureArtifact : VerifiedProofArtifact where
  proof_bytes := List.replicate 29 0
  statement := {
    service := .fibonacci
    program := cairoProgram
    public_input := [FeltHex.fromU64 10]
    public_output := [FeltHex.fromU64 55]
    output := .fibonacci (FeltHex.fromU64 55) }
  program_hash := FeltHex.fromU64 9
  metrics := { execution_ms := 1, proving_ms := 2, verification_ms := 3 }

/-- The signed request is delivered, proved, stored and answered. -/
def goldenLabels : List Publisher.Label :=
  [.deliver goldenRequest 1900000005, .claim 0, .prove 0 (some (.ok fixtureArtifact)), .put 0 0,
    .complete 0 1900000002, .remember 0]

theorem process_fixture : process exampleUrls (exampleUrl []) ⟨true, some (.ok fixtureArtifact),
    fun _ => .ok (storedArtifact fixtureHash fixtureArtifact.proof_bytes)⟩ goldenJob =
      .ok (resultContent 10) := by
  decide +kernel

theorem goldenResult_signed : handleClaimed (exampleSetup goldenResult) goldenJob
    ⟨true, some (.ok fixtureArtifact),
      fun _ => .ok (storedArtifact fixtureHash fixtureArtifact.proof_bytes)⟩ 1900000002 =
        .ok goldenResult := by
  have hprocess : resultFor goldenJob (process (exampleSetup goldenResult).U
      (exampleSetup goldenResult).base ⟨true, some (.ok fixtureArtifact),
        fun _ => .ok (storedArtifact fixtureHash fixtureArtifact.proof_bytes)⟩ goldenJob) =
          resultContent 10 := congrArg (resultFor goldenJob) process_fixture
  have hother : goldenJob.customer_pubkey ≠ goldenResult.pubkey := by decide +kernel
  have htags : goldenResult.tags = buildTags goldenResult.pubkey
      (resultTags goldenJob (resultContent 10)) := (buildTags_resultTags hother _).symm
  have hfields : goldenResult.created_at = 1900000002 ∧
      goldenResult.kind = goldenJob.service.resultKind ∧
      goldenResult.content = (resultContent 10).toText ∧ goldenResult.tags =
        buildTags goldenResult.pubkey (resultTags goldenJob (resultContent 10)) :=
    ⟨rfl, rfl, rfl, htags⟩
  rw [handleClaimed, hprocess]
  refine signResult_eq_ok.mpr ⟨goldenResult_form.size, ?_⟩
  simp only [exampleSetup]
  rw [if_pos hfields]

theorem fixture_put : ((memoryStore fixtureHash).put (memoryStore fixtureHash).start
    fixtureArtifact.proof_bytes 0).1 =
      .ok (storedArtifact fixtureHash fixtureArtifact.proof_bytes) :=
  have hsize : SizeOk fixtureArtifact.proof_bytes.length := by decide
  have hnone : (MemoryProofArtifactStore.empty (H := fixtureHash)).artifacts
      (fixtureHash fixtureArtifact.proof_bytes).val = none := rfl
  congrArg Prod.fst (MemoryProofArtifactStore.put_of_none hsize hnone)

/-- The run in which the signed result is made, and what the engine returned in it. -/
theorem golden_run_made : ∃ s, exec (Publisher.step (exampleSetup goldenResult))
    (Publisher.new (memoryStore fixtureHash) 64) goldenLabels = some s ∧
      SignedJobHandler.Answered s.handler.log goldenRequest.id goldenResult ∧
      s.proofs = [(.fibonacci 10, fixtureArtifact)] := by
  have hparse : parseRequestEvent (exampleSetup goldenResult).L goldenRequest 1900000005 =
      .ok goldenJob := (goldenRequest_accepted (List.mem_cons_self ..) _).1
  have hbound : boundArtifact goldenJob (some (.ok fixtureArtifact)) = .ok fixtureArtifact := by
    decide +kernel
  have h₀ : SignedJobHandler.step (exampleSetup goldenResult) (.new 64)
      (.deliver goldenRequest 1900000005) =
        some ((SignedJobHandler.new 64).handled goldenJob goldenResult 0) :=
    SignedJobHandler.step_deliver hparse rfl
  have h₁ : SignedJobHandler.step (exampleSetup goldenResult)
      ((SignedJobHandler.new 64).handled goldenJob goldenResult 0) (.claim 0) =
        some ((SignedJobHandler.new 64).handled goldenJob goldenResult 1) :=
    SignedJobHandler.step_claim (Finset.notMem_empty _)
  have h₂ := SignedJobHandler.step_complete (s := SignedJobHandler.new 64) goldenResult_signed
  have h₃ : SignedJobHandler.step (exampleSetup goldenResult)
      ((SignedJobHandler.new 64).handled goldenJob goldenResult 2) (.remember 0) =
        some ((SignedJobHandler.new 64).handled goldenJob goldenResult 3) :=
    SignedJobHandler.step_remember
  let s₀ : Publisher (memoryStore fixtureHash) := .new _ 64
  let handled (k : Fin 4) (s : Publisher (memoryStore fixtureHash)) :=
    { s with handler := (SignedJobHandler.new 64).handled goldenJob goldenResult k }
  let s₂ : Publisher (memoryStore fixtureHash) :=
    { (handled 1 s₀).setProgress 0 (.proved (some (.ok fixtureArtifact))) with
      proofs := s₀.proofs ++ Publisher.made goldenJob.input (some (.ok fixtureArtifact)) }
  let s₃ : Publisher (memoryStore fixtureHash) :=
    { s₂.setProgress 0 (.stored (some (.ok fixtureArtifact))
        ((memoryStore fixtureHash).put s₂.store fixtureArtifact.proof_bytes 0).1) with
      store := ((memoryStore fixtureHash).put s₂.store fixtureArtifact.proof_bytes 0).2 }
  have e₀ : Publisher.step (exampleSetup goldenResult) s₀ (.deliver goldenRequest 1900000005) =
      some (handled 0 s₀) := Publisher.handle_move h₀
  have e₁ : Publisher.step (exampleSetup goldenResult) (handled 0 s₀) (.claim 0) =
      some (handled 1 s₀) := Publisher.handle_move h₁
  have e₂ : Publisher.step (exampleSetup goldenResult) (handled 1 s₀)
      (.prove 0 (some (.ok fixtureArtifact))) = some s₂ := Publisher.step_handle_prove rfl rfl
  have e₃ : Publisher.step (exampleSetup goldenResult) s₂ (.put 0 0) = some s₃ :=
    Publisher.step_handle_put rfl rfl hbound
  have e₄ : Publisher.step (exampleSetup goldenResult) s₃ (.complete 0 1900000002) =
      some (handled 2 s₃) := by
    have hanswers : (s₃.progress 0).answers goldenJob = some ⟨true, some (.ok fixtureArtifact),
        fun _ => .ok (storedArtifact fixtureHash fixtureArtifact.proof_bytes)⟩ := by
      rw [← fixture_put]
      rfl
    have hcall : s₃.handler.calls[0]? = some ⟨goldenJob, .processing⟩ := rfl
    exact Publisher.step_handle_complete hcall hanswers h₂
  have e₅ : Publisher.step (exampleSetup goldenResult) (handled 2 s₃) (.remember 0) =
      some (handled 3 s₃) := Publisher.handle_move h₃
  refine ⟨handled 3 s₃, ?_, List.mem_append_right _ (List.mem_singleton_self _), rfl⟩
  change exec _ s₀ goldenLabels = _
  rw [goldenLabels, exec, e₀, Option.bind_some, exec, e₁, Option.bind_some, exec, e₂,
    Option.bind_some, exec, e₃, Option.bind_some, exec, e₄, Option.bind_some, exec, e₅]
  rfl

theorem golden_run : ∃ s, exec (Publisher.step (exampleSetup goldenResult))
    (Publisher.new (memoryStore fixtureHash) 64) goldenLabels = some s ∧
      SignedJobHandler.Answered s.handler.log goldenRequest.id goldenResult := by
  obtain ⟨s, hs, hanswered, -⟩ := golden_run_made
  exact ⟨s, hs, hanswered⟩

theorem golden_success_backed : ∃ s event now request,
    exec (Publisher.step (exampleSetup goldenResult))
      (Publisher.new (memoryStore fixtureHash) 64) goldenLabels = some s ∧
      parseRequestEvent (exampleSetup goldenResult).L event now = .ok request ∧
      request.id = goldenRequest.id ∧ s.Published (exampleSetup goldenResult) request goldenResult := by
  obtain ⟨s, hs, hanswered⟩ := golden_run
  have hkeys := (exampleDeployment (e := goldenResult) (by decide +kernel) (by decide +kernel)
    (by decide +kernel)).keys
  obtain ⟨event, now, request, hparse, hid, -, hlater⟩ :=
    (returned_success_backed (memoryStore fixtureHash) (exampleSetup goldenResult) hkeys 64
      (by decide) goldenLabels).1 s goldenRequest.id goldenResult hs hanswered
  exact ⟨s, event, now, request, hs, hparse, hid, hlater [] s rfl⟩

end SoulSociety.Protocol
