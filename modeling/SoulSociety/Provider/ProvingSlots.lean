import SoulSociety.Core.RequestCodec
import SoulSociety.Lib.Run
import SoulSociety.Lib.Slots
import SoulSociety.Provider.Processor

/-! The proving slots of `ProofProcessor` as a machine. The future of `process` owns the permit, while
    `prove_job` runs in a blocking task of its own: a future that is dropped gives its permit back,
    and its task goes on. -/

namespace SoulSociety.Provider
open Lib SoulSociety.Core

/-! ### The parts of `process` between its awaits -/

/-- From the worker's outcome to the call of the store. -/
def boundArtifact (request : JobRequest) (outcome : Option (Except Text VerifiedProofArtifact)) :
    Except ProcessingError VerifiedProofArtifact := do
  let outcome ← orReject outcome .worker
  let artifact ← mapReject outcome fun _ => .proving
  rejectIf (¬ statementMatchesRequest artifact.statement request.input) .requestBinding
  return artifact

/-- From the store's answer to the result. -/
def publish (U : UrlLibrary) (base : Url) (request : JobRequest) (artifact : VerifiedProofArtifact)
    (answer : Except ArtifactError StoredArtifact) : Except ProcessingError JobResultContent := do
  let stored ← mapReject answer .artifact
  let descriptor ← orReject (descriptorFor U base stored artifact.program_hash) .descriptor
  mapReject (descriptor.validate U.parse) fun _ => .descriptor
  let result := JobResultContent.newSuccess request.id artifact.statement descriptor artifact.metrics
  mapReject (result.validate U.parse) fun _ => .descriptor
  return result

/-- `process` is its parts in a row. -/
theorem process_eq (U : UrlLibrary) (base : Url) (answers : Answers) (request : JobRequest) :
    process U base answers request = (do
      rejectIf (¬ answers.slot) .busy
      let artifact ← boundArtifact request answers.worker
      publish U base request artifact (answers.put artifact.proof_bytes)) := by
  simp only [process, boundArtifact, publish, bind_assoc, pure_bind]

/-- An artifact that is bound to the request is the worker's. -/
theorem boundArtifact_eq_ok {request : JobRequest}
    {outcome : Option (Except Text VerifiedProofArtifact)} {artifact : VerifiedProofArtifact}
    (h : boundArtifact request outcome = .ok artifact) : outcome = some (.ok artifact) := by
  simp only [boundArtifact, bind_eq_ok, rejectIf_eq_ok, orReject_eq_ok, mapReject_eq_ok, pure_eq_ok,
    exists_unit] at h
  obtain ⟨_, hout, artifact', rfl, -, rfl⟩ := h
  exact hout

/-! ### The machine -/

/-- The blocking task of a call. -/
inductive Worker where
  | unspawned
  | queued
  | executing
  | finished (outcome : Option (Except Text VerifiedProofArtifact))
  deriving DecidableEq

/-- How far the future of a call is. -/
inductive Stage where
  | awaitingWorker
  | awaitingStore (artifact : VerifiedProofArtifact)
  | returned (result : Except ProcessingError JobResultContent)
  | dropped
  deriving DecidableEq

structure ProcessCall where
  request : JobRequest
  stage : Stage
  worker : Worker
  deriving DecidableEq

namespace ProcessCall

/-- The future owns a permit until its worker's outcome is known. -/
def holdsPermit (c : ProcessCall) : Bool := c.stage = .awaitingWorker

/-- The future has neither returned nor been dropped. -/
def active (c : ProcessCall) : Bool :=
  match c.stage with
  | .awaitingWorker => true
  | .awaitingStore _ => true
  | .returned _ => false
  | .dropped => false

/-- The body of `prove_job` is running. -/
def proving (c : ProcessCall) : Bool := c.worker = .executing

/-- The worker still has `prove_job` to run, or is running it. -/
def unfinished (c : ProcessCall) : Bool := c.worker = .queued || c.worker = .executing

/-- The worker goes on without its future. -/
def detached (c : ProcessCall) : Bool := c.stage = .dropped && c.unfinished

end ProcessCall

structure ProofProcessor where
  permits : ℕ
  calls : List ProcessCall
  deriving DecidableEq

namespace ProofProcessor

/-- `assert!` on the number of slots. -/
def new (max_concurrent_proofs : ℕ) : Option ProofProcessor :=
  if 1 ≤ max_concurrent_proofs ∧ max_concurrent_proofs ≤ 16 then
    some { permits := max_concurrent_proofs, calls := [] }
  else none

inductive Label where
  | call (request : JobRequest)
  | start (call : ℕ)
  | finish (call : ℕ) (outcome : Option (Except Text VerifiedProofArtifact))
  | cancel (call : ℕ)
  | resume (call : ℕ)
  | stored (call : ℕ) (answer : Except ArtifactError StoredArtifact)
  | drop (call : ℕ)

/-- A call moves on. -/
def setCall (s : ProofProcessor) (i : ℕ) (c : ProcessCall) : ProofProcessor :=
  { s with calls := s.calls.set i c }

/-- The permit of a future that leaves `process` behind, or is dropped there. -/
def release (s : ProofProcessor) : ProofProcessor := { s with permits := s.permits + 1 }

/-- One step of a future, of a blocking task, or of whoever drops a future. A task can be cancelled
    only before it starts. -/
def step (U : UrlLibrary) (base : Url) (s : ProofProcessor) : Label → Option ProofProcessor
  | .call request =>
    if s.permits = 0 then
      some { s with calls := s.calls ++ [⟨request, .returned (.error .busy), .unspawned⟩] }
    else
      some { permits := s.permits - 1, calls := s.calls ++ [⟨request, .awaitingWorker, .queued⟩] }
  | .start i =>
    match s.calls[i]? with
    | some ⟨request, stage, .queued⟩ => some (s.setCall i ⟨request, stage, .executing⟩)
    | _ => none
  | .finish i outcome =>
    match s.calls[i]? with
    | some ⟨request, stage, .executing⟩ => some (s.setCall i ⟨request, stage, .finished outcome⟩)
    | _ => none
  | .cancel i =>
    match s.calls[i]? with
    | some ⟨request, stage, .queued⟩ => some (s.setCall i ⟨request, stage, .finished none⟩)
    | _ => none
  | .resume i =>
    match s.calls[i]? with
    | some ⟨request, .awaitingWorker, .finished outcome⟩ =>
      match boundArtifact request outcome with
      | .error e => some (s.setCall i ⟨request, .returned (.error e), .finished outcome⟩).release
      | .ok artifact => some (s.setCall i ⟨request, .awaitingStore artifact, .finished outcome⟩).release
    | _ => none
  | .stored i answer =>
    match s.calls[i]? with
    | some ⟨request, .awaitingStore artifact, worker⟩ =>
      some (s.setCall i ⟨request, .returned (publish U base request artifact answer), worker⟩)
    | _ => none
  | .drop i =>
    match s.calls[i]? with
    | some ⟨request, .awaitingWorker, worker⟩ => some (s.setCall i ⟨request, .dropped, worker⟩).release
    | some ⟨request, .awaitingStore _, worker⟩ => some (s.setCall i ⟨request, .dropped, worker⟩)
    | _ => none

/-- Everything that a step can do. -/
inductive Moves (U : UrlLibrary) (base : Url) (s : ProofProcessor) : Label → ProofProcessor → Prop
  | refused {request : JobRequest} (hfull : s.permits = 0) :
      Moves U base s (.call request)
        { s with calls := s.calls ++ [⟨request, .returned (.error .busy), .unspawned⟩] }
  | admitted {request : JobRequest} (hfree : 0 < s.permits) :
      Moves U base s (.call request)
        { permits := s.permits - 1, calls := s.calls ++ [⟨request, .awaitingWorker, .queued⟩] }
  | started {i : ℕ} {request : JobRequest} {stage : Stage}
      (hcall : s.calls[i]? = some ⟨request, stage, .queued⟩) :
      Moves U base s (.start i) (s.setCall i ⟨request, stage, .executing⟩)
  | finished {i : ℕ} {request : JobRequest} {stage : Stage}
      {outcome : Option (Except Text VerifiedProofArtifact)}
      (hcall : s.calls[i]? = some ⟨request, stage, .executing⟩) :
      Moves U base s (.finish i outcome) (s.setCall i ⟨request, stage, .finished outcome⟩)
  | cancelled {i : ℕ} {request : JobRequest} {stage : Stage}
      (hcall : s.calls[i]? = some ⟨request, stage, .queued⟩) :
      Moves U base s (.cancel i) (s.setCall i ⟨request, stage, .finished none⟩)
  | failed {i : ℕ} {request : JobRequest} {outcome : Option (Except Text VerifiedProofArtifact)}
      {e : ProcessingError} (hcall : s.calls[i]? = some ⟨request, .awaitingWorker, .finished outcome⟩)
      (hbound : boundArtifact request outcome = .error e) :
      Moves U base s (.resume i)
        (s.setCall i ⟨request, .returned (.error e), .finished outcome⟩).release
  | bound {i : ℕ} {request : JobRequest} {outcome : Option (Except Text VerifiedProofArtifact)}
      {artifact : VerifiedProofArtifact}
      (hcall : s.calls[i]? = some ⟨request, .awaitingWorker, .finished outcome⟩)
      (hbound : boundArtifact request outcome = .ok artifact) :
      Moves U base s (.resume i)
        (s.setCall i ⟨request, .awaitingStore artifact, .finished outcome⟩).release
  | published {i : ℕ} {request : JobRequest} {artifact : VerifiedProofArtifact} {worker : Worker}
      {answer : Except ArtifactError StoredArtifact}
      (hcall : s.calls[i]? = some ⟨request, .awaitingStore artifact, worker⟩) :
      Moves U base s (.stored i answer)
        (s.setCall i ⟨request, .returned (publish U base request artifact answer), worker⟩)
  | droppedProving {i : ℕ} {request : JobRequest} {worker : Worker}
      (hcall : s.calls[i]? = some ⟨request, .awaitingWorker, worker⟩) :
      Moves U base s (.drop i) (s.setCall i ⟨request, .dropped, worker⟩).release
  | droppedStoring {i : ℕ} {request : JobRequest} {artifact : VerifiedProofArtifact}
      {worker : Worker} (hcall : s.calls[i]? = some ⟨request, .awaitingStore artifact, worker⟩) :
      Moves U base s (.drop i) (s.setCall i ⟨request, .dropped, worker⟩)

variable {U : UrlLibrary} {base : Url} {s s' s₀ : ProofProcessor} {l : Label} {max i : ℕ}

theorem moves_of_step : ∀ {l : Label}, step U base s l = some s' → Moves U base s l s'
  | .call request, h => by
    rw [step] at h
    split at h
    · rename_i hfull
      cases h; exact .refused hfull
    · rename_i hfree
      cases h; exact .admitted (Nat.pos_of_ne_zero hfree)
  | .start i, h => by
    rw [step] at h
    split at h
    · rename_i hcall
      cases h; exact .started hcall
    · cases h
  | .finish i outcome, h => by
    rw [step] at h
    split at h
    · rename_i hcall
      cases h; exact .finished hcall
    · cases h
  | .cancel i, h => by
    rw [step] at h
    split at h
    · rename_i hcall
      cases h; exact .cancelled hcall
    · cases h
  | .resume i, h => by
    rw [step] at h
    split at h
    · rename_i hcall
      split at h
      · rename_i e hbound
        cases h; exact .failed hcall hbound
      · rename_i artifact hbound
        cases h; exact .bound hcall hbound
    · cases h
  | .stored i answer, h => by
    rw [step] at h
    split at h
    · rename_i hcall
      cases h; exact .published hcall
    · cases h
  | .drop i, h => by
    rw [step] at h
    split at h
    · rename_i hcall
      cases h; exact .droppedProving hcall
    · rename_i hcall
      cases h; exact .droppedStoring hcall
    · cases h

/-! ### What every call keeps -/

/-- A worker belongs to a future that awaits it or was dropped; a result is a result of `process`. -/
def Sound (U : UrlLibrary) (base : Url) (c : ProcessCall) : Prop :=
  match c.stage with
  | .awaitingWorker => c.worker ≠ .unspawned
  | .awaitingStore artifact =>
    ∃ outcome, c.worker = .finished outcome ∧ boundArtifact c.request outcome = .ok artifact
  | .returned result =>
    c.unfinished = false ∧ ∃ answers, process U base answers c.request = result
  | .dropped => c.worker ≠ .unspawned

/-- The permits are conserved and the calls are sound. -/
structure Accounted (U : UrlLibrary) (base : Url) (max : ℕ) (s : ProofProcessor) : Prop where
  conserved : Conserved ProcessCall.holdsPermit max s.permits s.calls
  sound : ∀ c ∈ s.calls, Sound U base c

theorem accounted_new (h : new max = some s₀) : s₀.Accounted U base max := by
  rw [new] at h
  split at h
  · cases h
    exact ⟨conserved_nil, fun c hc => nomatch hc⟩
  · cases h

/-- What holds of every call holds after one is replaced, if it holds of the new one. -/
theorem forall_set {p : ProcessCall → Prop} {c : ProcessCall} (h : ∀ c ∈ s.calls, p c) (hc : p c) :
    ∀ c' ∈ s.calls.set i c, p c' := by
  intro c' hmem
  rcases List.mem_or_eq_of_mem_set hmem with hmem | rfl
  · exact h c' hmem
  · exact hc

theorem forall_append {p : ProcessCall → Prop} {c : ProcessCall} (h : ∀ c ∈ s.calls, p c)
    (hc : p c) : ∀ c' ∈ s.calls ++ [c], p c' := by
  intro c' hmem
  rcases List.mem_append.mp hmem with hmem | hmem
  · exact h c' hmem
  · rw [List.mem_singleton.mp hmem]
    exact hc

/-- While a worker is unfinished, only it moves. -/
theorem sound_worker {request : JobRequest} {stage : Stage} {worker worker' : Worker}
    (h : Sound U base ⟨request, stage, worker⟩)
    (hworker : ProcessCall.unfinished ⟨request, stage, worker⟩ = true) (hw : worker' ≠ .unspawned) :
    Sound U base ⟨request, stage, worker'⟩ := by
  cases stage with
  | awaitingWorker => exact hw
  | awaitingStore artifact =>
    obtain ⟨outcome, rfl, -⟩ := h
    cases hworker
  | returned result =>
    rw [h.1] at hworker
    cases hworker
  | dropped => exact hw

theorem accounted_moves (h : s.Accounted U base max) (hm : Moves U base s l s') :
    s'.Accounted U base max := by
  obtain ⟨hpermits, hsound⟩ := h
  cases hm with
  | refused hfull =>
    refine ⟨hpermits.pass rfl, forall_append hsound ⟨rfl, busyAnswers, ?_⟩⟩
    simp [process_eq, busyAnswers, rejectIf, bind, Except.bind]
  | admitted hfree => exact ⟨hpermits.acquire hfree rfl, forall_append hsound nofun⟩
  | started hcall =>
    have hold := hsound _ (List.mem_of_getElem? hcall)
    exact ⟨hpermits.keep hcall rfl, forall_set hsound (sound_worker hold rfl nofun)⟩
  | finished hcall =>
    have hold := hsound _ (List.mem_of_getElem? hcall)
    exact ⟨hpermits.keep hcall rfl, forall_set hsound (sound_worker hold rfl nofun)⟩
  | cancelled hcall =>
    have hold := hsound _ (List.mem_of_getElem? hcall)
    exact ⟨hpermits.keep hcall rfl, forall_set hsound (sound_worker hold rfl nofun)⟩
  | failed hcall hbound =>
    rename_i request outcome e
    refine ⟨hpermits.release hcall rfl rfl, forall_set hsound ⟨rfl, ⟨true, outcome, busyAnswers.put⟩, ?_⟩⟩
    simp [process_eq, rejectIf, bind, Except.bind, hbound]
  | bound hcall hbound =>
    exact ⟨hpermits.release hcall rfl rfl, forall_set hsound ⟨_, rfl, hbound⟩⟩
  | published hcall =>
    rename_i request artifact worker answer
    obtain ⟨outcome, rfl, hbound⟩ := hsound _ (List.mem_of_getElem? hcall)
    refine ⟨hpermits.keep hcall rfl,
      forall_set hsound ⟨rfl, ⟨true, outcome, fun _ => answer⟩, ?_⟩⟩
    simp [process_eq, rejectIf, bind, Except.bind, hbound]
  | droppedProving hcall =>
    have hold := hsound _ (List.mem_of_getElem? hcall)
    exact ⟨hpermits.release hcall rfl rfl, forall_set hsound hold⟩
  | droppedStoring hcall =>
    obtain ⟨outcome, rfl, hbound⟩ := hsound _ (List.mem_of_getElem? hcall)
    exact ⟨hpermits.keep hcall rfl, forall_set hsound nofun⟩

theorem accounted_visits {ls : List Label} (h : new max = some s₀)
    (hs : Visits (step U base) s₀ ls s) : s.Accounted U base max :=
  hs.invariant (I := Accounted U base max) (accounted_new h)
    fun _ _ _ ht hacc => accounted_moves hacc (moves_of_step ht.enabled)

/-- What a call returns is what `process` returns for some answers of its environment. -/
theorem returned_process {ls : List Label} (h : new max = some s₀)
    (hs : Visits (step U base) s₀ ls s) {c : ProcessCall} (hc : c ∈ s.calls)
    {result : Except ProcessingError JobResultContent} (hresult : c.stage = .returned result) :
    ∃ answers, process U base answers c.request = result := by
  have hsound := (accounted_visits h hs).sound c hc
  rw [Sound, hresult] at hsound
  exact hsound.2

/-! ### The bound -/

/-- The bodies of `prove_job` that are running. -/
def executing (s : ProofProcessor) : ℕ := s.calls.countP ProcessCall.proving

/-- The workers that go on without their future. -/
def detached (s : ProofProcessor) : ℕ := s.calls.countP ProcessCall.detached

/-- No future and no worker is left. -/
def Quiet (s : ProofProcessor) : Prop :=
  ∀ c ∈ s.calls, c.active = false ∧ c.unfinished = false

/-- A future is not dropped while its worker has `prove_job` to run or is running it. -/
def JoinsWorker (s : ProofProcessor) : Label → Prop
  | .drop i => ∀ c, s.calls[i]? = some c → c.unfinished = false
  | _ => True

theorem holds_or_detached {c : ProcessCall} (h : Sound U base c) (hc : c.unfinished = true) :
    c.holdsPermit = true ∨ c.detached = true := by
  obtain ⟨request, stage, worker⟩ := c
  cases stage with
  | awaitingWorker => exact Or.inl rfl
  | awaitingStore artifact =>
    obtain ⟨outcome, rfl, -⟩ := h
    cases hc
  | returned result =>
    rw [h.1] at hc
    cases hc
  | dropped => exact Or.inr hc

/-- Whatever is dropped, the bound is exceeded by detached workers only. -/
theorem executing_le (h : s.Accounted U base max) : s.executing ≤ max + s.detached := by
  refine h.conserved.countP_le fun c hc hproving => holds_or_detached (h.sound c hc) ?_
  rw [ProcessCall.unfinished, show decide (c.worker = .executing) = true from hproving, Bool.or_true]

/-- Permits come back when the futures are gone. -/
theorem permits_of_quiet (h : s.Accounted U base max) (hquiet : s.Quiet) : s.permits = max := by
  refine h.conserved.all_free fun c hc => ?_
  obtain ⟨hactive, -⟩ := hquiet c hc
  obtain ⟨request, stage, worker⟩ := c
  cases stage <;> first | rfl | cases hactive

theorem detached_eq_zero : s.detached = 0 ↔ ∀ c ∈ s.calls, c.detached = false := by
  simp [detached]

/-- Only a drop detaches a worker. -/
theorem detached_moves (hnone : ∀ c ∈ s.calls, c.detached = false) (hjoins : s.JoinsWorker l)
    (hm : Moves U base s l s') : ∀ c ∈ s'.calls, c.detached = false := by
  cases hm with
  | refused hfull => exact forall_append hnone rfl
  | admitted hfree => exact forall_append hnone rfl
  | started hcall =>
    have hold := hnone _ (List.mem_of_getElem? hcall)
    exact forall_set hnone (by simpa [ProcessCall.detached, ProcessCall.unfinished] using hold)
  | finished hcall => exact forall_set hnone (by simp [ProcessCall.detached, ProcessCall.unfinished])
  | cancelled hcall => exact forall_set hnone (by simp [ProcessCall.detached, ProcessCall.unfinished])
  | failed hcall hbound => exact forall_set hnone rfl
  | bound hcall hbound => exact forall_set hnone rfl
  | published hcall => exact forall_set hnone rfl
  | droppedProving hcall =>
    have hfinished : ProcessCall.unfinished _ = false := hjoins _ hcall
    exact forall_set hnone hfinished
  | droppedStoring hcall =>
    have hfinished : ProcessCall.unfinished _ = false := hjoins _ hcall
    exact forall_set hnone hfinished

/-- In a run that drops no future before its worker has finished, at most `max` proofs are made at a
    time. In every run, all permits are free once no future and no worker is left. -/
theorem proving_bounded (U : UrlLibrary) (base : Url) (max : ℕ) (s₀ : ProofProcessor)
    (h : new max = some s₀) (ls : List Label) :
    ((∀ s l s', Takes (step U base) s₀ ls s l s' → s.JoinsWorker l) →
        ∀ s, Visits (step U base) s₀ ls s → s.executing ≤ max) ∧
      ∀ s, Visits (step U base) s₀ ls s → s.Quiet → s.permits = max := by
  refine ⟨fun hjoins s hs => ?_, fun s hs => permits_of_quiet (accounted_visits h hs)⟩
  have hnone : ∀ c ∈ s.calls, c.detached = false := by
    refine hs.invariant (I := fun s => ∀ c ∈ s.calls, c.detached = false) ?_ ?_
    · rw [new] at h
      split at h <;> cases h
      exact fun c hc => nomatch hc
    · exact fun m l m' ht hm => detached_moves hm (hjoins m l m' ht) (moves_of_step ht.enabled)
  have hle := executing_le (accounted_visits h hs)
  rwa [detached_eq_zero.mpr hnone] at hle

/-! ### A processor with one slot -/

/-- A processor that publishes nothing. -/
def idleUrls : UrlLibrary := ⟨fun _ => none, fun _ _ => none, fun _ => []⟩

def idleBase : Url :=
  ⟨text "https", [], none, some (.domain (text "proofs.example")), none, ['/'], none, none⟩

def oneSlot : ProofProcessor := { permits := 1, calls := [] }

/-- A future is dropped while its proof is made, and a second proof starts. -/
theorem dropped_future_exceeds_bound : new 1 = some oneSlot ∧ ∃ s,
    exec (step idleUrls idleBase) oneSlot
        [.call goldenJob, .start 0, .drop 0, .call goldenJob, .start 1] = some s ∧
      s.executing = 2 :=
  ⟨rfl, _, rfl, rfl⟩

/-- A future that is dropped after its proof failed leaves no worker behind. -/
theorem oneSlot_bounded : ∃ s, exec (step idleUrls idleBase) oneSlot
    [.call goldenJob, .start 0, .finish 0 none, .drop 0, .call goldenJob, .start 1] = some s ∧
      s.executing ≤ 1 := by
  obtain ⟨s, hrun⟩ : ∃ s, exec (step idleUrls idleBase) oneSlot
      [.call goldenJob, .start 0, .finish 0 none, .drop 0, .call goldenJob, .start 1] = some s :=
    ⟨_, rfl⟩
  refine ⟨s, hrun, (proving_bounded idleUrls idleBase 1 oneSlot rfl _).1 ?_ s (Visits.last hrun)⟩
  intro s l s' ht
  rcases takes_cons ht with ⟨rfl, rfl, -⟩ | ⟨m, hm, ht⟩
  · trivial
  obtain rfl := Option.some.inj hm
  rcases takes_cons ht with ⟨rfl, rfl, -⟩ | ⟨m, hm, ht⟩
  · trivial
  obtain rfl := Option.some.inj hm
  rcases takes_cons ht with ⟨rfl, rfl, -⟩ | ⟨m, hm, ht⟩
  · trivial
  obtain rfl := Option.some.inj hm
  rcases takes_cons ht with ⟨rfl, rfl, -⟩ | ⟨m, hm, ht⟩
  · rintro c hc
    obtain rfl := Option.some.inj hc
    rfl
  obtain rfl := Option.some.inj hm
  rcases takes_cons ht with ⟨rfl, rfl, -⟩ | ⟨m, hm, ht⟩
  · trivial
  rcases takes_cons ht with ⟨rfl, rfl, -⟩ | ⟨_, -, ht⟩
  · trivial
  · exact absurd ht not_takes_nil

end ProofProcessor

end SoulSociety.Provider
