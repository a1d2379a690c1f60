import SoulSociety.Provider.Artifacts
import SoulSociety.Provider.HandlerReplay
import SoulSociety.Provider.ProvingSlots

/-! The handler together with its store. Between the claim of a request and its result the engine
    answers and the store is asked, and other calls move in between; any of these may fail. -/

namespace SoulSociety.Provider
open Lib SoulSociety.Core

/-- A content-addressed store: what was put is found under its digest, and stays. The number that
    `put` is given stands for what else decides about its outcome, failures of the medium included. -/
structure ContentStore (H : Bytes → Digest) where
  State : Type
  start : State
  get : State → Text → Option Bytes
  put : State → Bytes → ℕ → Except ArtifactError StoredArtifact × State
  put_ok : ∀ {s proof n stored}, (put s proof n).1 = .ok stored →
    stored = storedArtifact H proof ∧ get (put s proof n).2 stored.sha256 = some proof
  put_keeps : ∀ {s proof n sha256 bytes}, get s sha256 = some bytes →
    get (put s proof n).2 sha256 = some bytes

/-- The store in memory, behind a medium that fails unless `n` is 0. -/
def memoryStore (H : Bytes → Digest) : ContentStore H where
  State := MemoryProofArtifactStore H
  start := .empty
  get m sha256 := m.artifacts sha256
  put m proof n := if n = 0 then m.put proof else (.error .io, m)
  put_ok := by
    intro m proof n stored h
    split at h
    · rename_i hn
      rw [if_pos hn]
      obtain ⟨rfl, hm⟩ := MemoryProofArtifactStore.put_ok h
      exact ⟨rfl, hm⟩
    · cases h
  put_keeps := by
    intro m proof n sha256 bytes h
    split
    · exact MemoryProofArtifactStore.extends_perform m (.put proof) sha256 bytes h
    · exact h

/-- What a call of `process` has met so far. -/
inductive Progress where
  | proving
  | refused
  | proved (outcome : Option (Except Text VerifiedProofArtifact))
  | stored (outcome : Option (Except Text VerifiedProofArtifact))
      (answer : Except ArtifactError StoredArtifact)

/-- The answers that `process` returns with: no slot, an outcome that it refuses, or the store's. -/
def Progress.answers (request : JobRequest) : Progress → Option Answers
  | .proving => none
  | .refused => some busyAnswers
  | .proved outcome =>
    match boundArtifact request outcome with
    | .error _ => some ⟨true, outcome, busyAnswers.put⟩
    | .ok _ => none
  | .stored outcome answer => some ⟨true, outcome, fun _ => answer⟩

/-- The handler, its store, how far its calls of `process` are, and what the engine returned for
    which input. -/
structure Publisher {H : Bytes → Digest} (K : ContentStore H) where
  handler : SignedJobHandler
  store : K.State
  progress : ℕ → Progress
  proofs : List (JobInput × VerifiedProofArtifact)

namespace Publisher

variable {H : Bytes → Digest} {K : ContentStore H}

def new (K : ContentStore H) (capacity : ℕ) : Publisher K where
  handler := .new capacity
  store := K.start
  progress _ := .proving
  proofs := []

inductive Label where
  | deliver (event : Event) (now : ℕ)
  | claim (call : ℕ)
  | refuse (call : ℕ)
  | prove (call : ℕ) (outcome : Option (Except Text VerifiedProofArtifact))
  | put (call n : ℕ)
  | complete (call t : ℕ)
  | remember (call : ℕ)

/-- The artifact that an outcome carries. -/
def made (input : JobInput) : Option (Except Text VerifiedProofArtifact) →
    List (JobInput × VerifiedProofArtifact)
  | some (.ok artifact) => [(input, artifact)]
  | _ => []

def setProgress (s : Publisher K) (i : ℕ) (p : Progress) : Publisher K :=
  { s with progress := fun j => if j = i then p else s.progress j }

/-- The handler moves. -/
def handle (P : Setup) (s : Publisher K) (l : SignedJobHandler.Label) : Option (Publisher K) :=
  (s.handler.step P l).map fun handler => { s with handler := handler }

def step (P : Setup) (s : Publisher K) : Label → Option (Publisher K)
  | .deliver event now => s.handle P (.deliver event now)
  | .claim i => s.handle P (.claim i)
  | .refuse i =>
    match s.handler.calls[i]?, s.progress i with
    | some ⟨_, .processing⟩, .proving => some (s.setProgress i .refused)
    | _, _ => none
  | .prove i outcome =>
    match s.handler.calls[i]?, s.progress i with
    | some ⟨request, .processing⟩, .proving =>
      some { s.setProgress i (.proved outcome) with
        proofs := s.proofs ++ made request.input outcome }
    | _, _ => none
  | .put i n =>
    match s.handler.calls[i]?, s.progress i with
    | some ⟨request, .processing⟩, .proved outcome =>
      match boundArtifact request outcome with
      | .ok artifact =>
        let r := K.put s.store artifact.proof_bytes n
        some { s.setProgress i (.stored outcome r.1) with store := r.2 }
      | .error _ => none
    | _, _ => none
  | .complete i t =>
    match s.handler.calls[i]? with
    | some ⟨request, _⟩ =>
      ((s.progress i).answers request).bind fun answers => s.handle P (.complete i answers t)
    | none => none
  | .remember i => s.handle P (.remember i)

/-! ### Backed results -/

/-- The statement and the descriptor are those of an artifact that the engine returned for the input
    of the request, and the store returns its bytes. -/
structure Backs (s : Publisher K) (request : JobRequest) (statement : ProofStatement)
    (descriptor : ProofDescriptor) (artifact : VerifiedProofArtifact) : Prop where
  made : (request.input, artifact) ∈ s.proofs
  stored : K.get s.store descriptor.sha256 = some artifact.proof_bytes
  size : descriptor.byte_size = artifact.proof_bytes.length
  program : descriptor.program_hash = artifact.program_hash
  proved : statement = artifact.statement
  bound : statement.public_input = publicInput request.input

/-- The event carries an error about the request, or a valid success that is backed. -/
def Published (P : Setup) (s : Publisher K) (request : JobRequest) (e : Event) : Prop :=
  (∃ err : ProcessingError, e.content =
      (JobResultContent.newError request.id err.publicCode err.publicMessage).toText) ∨
    ∃ statement descriptor metrics artifact, e.content =
        (JobResultContent.newSuccess request.id statement descriptor metrics).toText ∧
      (JobResultContent.newSuccess request.id statement descriptor metrics).validate P.U.parse =
        .ok () ∧
      s.Backs request statement descriptor artifact

/-- What a call has met is on record. -/
def Met (s : Publisher K) (request : JobRequest) : Progress → Prop
  | .proving => True
  | .refused => True
  | .proved outcome => ∀ artifact, outcome = some (.ok artifact) →
    (request.input, artifact) ∈ s.proofs
  | .stored outcome answer => ∃ artifact, outcome = some (.ok artifact) ∧
    (request.input, artifact) ∈ s.proofs ∧ ∀ stored, answer = .ok stored →
      stored = storedArtifact H artifact.proof_bytes ∧
        K.get s.store stored.sha256 = some artifact.proof_bytes

/-- Nothing that was recorded or stored is lost. -/
structure Grows (s s' : Publisher K) : Prop where
  proofs : s.proofs ⊆ s'.proofs
  store : ∀ sha256 bytes, K.get s.store sha256 = some bytes → K.get s'.store sha256 = some bytes

variable {P : Setup} {s s' : Publisher K} {request : JobRequest} {e : Event} {i : ℕ}
  {h : SignedJobHandler} {l : SignedJobHandler.Label}

theorem Grows.refl (s : Publisher K) : s.Grows s := ⟨List.Subset.refl _, fun _ _ h => h⟩

/-- What the handler does is recorded elsewhere. -/
theorem Grows.handler (s : Publisher K) (h : SignedJobHandler) :
    s.Grows { s with handler := h } := ⟨List.Subset.refl _, fun _ _ h => h⟩

theorem Published.grows (h : s.Published P request e) (hg : s.Grows s') :
    s'.Published P request e := by
  rcases h with h | ⟨statement, descriptor, metrics, artifact, hcontent, hvalid, hbacks⟩
  · exact Or.inl h
  · exact Or.inr ⟨statement, descriptor, metrics, artifact, hcontent, hvalid,
      { hbacks with made := hg.proofs hbacks.made, stored := hg.store _ _ hbacks.stored }⟩

theorem Met.grows {p : Progress} (h : s.Met request p) (hg : s.Grows s') : s'.Met request p := by
  cases p with
  | proving => trivial
  | refused => trivial
  | proved outcome => exact fun artifact hout => hg.proofs (h artifact hout)
  | stored outcome answer =>
    obtain ⟨artifact, hout, hmade, hanswer⟩ := h
    refine ⟨artifact, hout, hg.proofs hmade, fun stored hstored => ?_⟩
    obtain ⟨heq, hget⟩ := hanswer stored hstored
    exact ⟨heq, hg.store _ _ hget⟩

/-- The result of a call that has met these answers is an error or a backed success. -/
theorem published_of_complete {answers : Answers} {t : ℕ} (hkeys : P.keys.Lawful P.L)
    (hmet : s.Met request (s.progress i)) (hanswers : (s.progress i).answers request = some answers)
    (hresult : handleClaimed P request answers t = .ok e) : s.Published P request e := by
  obtain ⟨-, hsign⟩ := signResult_eq_ok.mp hresult
  obtain ⟨-, -, -, -, hcontent, -⟩ := hkeys _ _ _ _ _ hsign
  cases hprocess : process P.U P.base answers request with
  | error err =>
    rw [hprocess] at hcontent
    exact Or.inl ⟨err, hcontent⟩
  | ok result =>
    rw [hprocess] at hcontent
    obtain ⟨artifact, stored, descriptor, hworker, hput, hdescriptor, hbound, rfl, hvalid⟩ :=
      process_eq_ok hprocess
    obtain ⟨-, hinput⟩ := statementMatchesRequest_iff.mp hbound
    obtain ⟨url, -, rfl⟩ := Option.map_eq_some_iff.mp hdescriptor
    cases hp : s.progress i with
    | proving => rw [hp] at hanswers; cases hanswers
    | refused =>
      rw [hp] at hanswers
      cases hanswers
      cases hworker
    | proved outcome =>
      rw [hp, Progress.answers] at hanswers
      split at hanswers
      · cases hanswers
        cases hput
      · cases hanswers
    | stored outcome answer =>
      rw [hp] at hanswers hmet
      cases hanswers
      obtain ⟨artifact', rfl, hmade, hstored⟩ := hmet
      cases hworker
      obtain ⟨rfl, hget⟩ := hstored stored hput
      exact Or.inr ⟨_, _, _, artifact, hcontent, hvalid,
        ⟨hmade, hget, rfl, rfl, rfl, hinput⟩⟩

/-! ### What every step keeps -/

/-- The handler is coherent, calls have met what is on record, and what was signed, cached or
    returned is published. -/
structure Backed (P : Setup) (s : Publisher K) : Prop where
  coherent : s.handler.Coherent
  traced : s.handler.Traced P
  idle : ∀ i, s.handler.calls.length ≤ i → s.progress i = .proving
  met : ∀ (i : ℕ) request phase, s.handler.calls[i]? = some ⟨request, phase⟩ →
    s.Met request (s.progress i)
  signed : ∀ (i : ℕ) request e, s.handler.calls[i]? = some ⟨request, .signed e⟩ →
    s.Published P request e
  answered : ∀ id e, SignedJobHandler.Answered s.handler.log id e →
    ∃ event now request, parseRequestEvent P.L event now = .ok request ∧ request.id = id ∧
      s.Published P request e

theorem backed_new {capacity : ℕ} (h : 0 < capacity) : (new K capacity).Backed P where
  coherent := SignedJobHandler.coherent_new h
  traced := SignedJobHandler.traced_new
  idle _ _ := rfl
  met _ _ _ _ := trivial
  signed _ _ _ h := by cases h
  answered _ _ h := by cases h

theorem Backed.answered_handler {id : Text} (hs : s.Backed P) (h : SignedJobHandler)
    (he : SignedJobHandler.Answered s.handler.log id e) :
    ∃ event now request, parseRequestEvent P.L event now = .ok request ∧ request.id = id ∧
      Published P { s with handler := h } request e := by
  obtain ⟨event, now, request, hparse, hid, hpublished⟩ := hs.answered id e he
  exact ⟨event, now, request, hparse, hid, hpublished.grows (.handler s h)⟩

/-- A call of the handler moves on. What it signs or returns has to be published. -/
theorem backed_setCall {old phase : Phase} {seen : List Observation} {dedupe : RequestDeduplicator}
    {completed : CompletedResults} (hs : s.Backed P)
    (hcall : s.handler.calls[i]? = some ⟨request, old⟩)
    (hsigned : ∀ e, phase = .signed e → s.Published P request e)
    (hseen : ∀ id e, SignedJobHandler.Answered seen id e → id = request.id ∧ s.Published P request e)
    (hh : h = ⟨dedupe, completed, s.handler.calls.set i ⟨request, phase⟩, s.handler.log ++ seen⟩)
    (hcoherent : h.Coherent) (htraced : h.Traced P) : Backed P { s with handler := h } := by
  subst hh
  refine ⟨hcoherent, htraced, ?_, ?_, ?_, ?_⟩
  · intro j hj
    exact hs.idle j (by simpa using hj)
  · intro j r p hj
    rcases (SignedJobHandler.getElem?_set_call hcall).mp hj with ⟨rfl, rfl, -⟩ | ⟨-, hj⟩
    · exact hs.met i request old hcall
    · exact hs.met j r p hj
  · intro j r e hj
    rcases (SignedJobHandler.getElem?_set_call hcall).mp hj with ⟨rfl, rfl, hp⟩ | ⟨-, hj⟩
    · exact (hsigned e hp).grows (.handler s _)
    · exact (hs.signed j r e hj).grows (.handler s _)
  · intro id e he
    rcases SignedJobHandler.answered_append.mp he with he | he
    · exact hs.answered_handler _ he
    · obtain ⟨rfl, hpublished⟩ := hseen id e he
      obtain ⟨event, now, hparse⟩ := hs.traced.call _ (List.mem_of_getElem? hcall)
      exact ⟨event, now, request, hparse, rfl, hpublished.grows (.handler s _)⟩

/-- The handler moves: a result that it signs has to be published. -/
theorem backed_handle (hs : s.Backed P)
    (hsigned : ∀ i answers t request e, l = .complete i answers t →
      s.handler.calls[i]? = some ⟨request, .processing⟩ →
        handleClaimed P request answers t = .ok e → s.Published P request e)
    (hm : SignedJobHandler.Moves P s.handler l h) : Backed P { s with handler := h } := by
  have hcoherent := SignedJobHandler.coherent_moves hs.coherent hm
  have htraced := SignedJobHandler.traced_moves hs.coherent hs.traced hm
  cases hm with
  | rejected => exact hs
  | @replayed event now request completed hparse hget =>
    refine ⟨hcoherent, htraced, hs.idle, hs.met,
      fun j r e hj => (hs.signed j r e hj).grows (.handler s _), ?_⟩
    intro id e he
    rcases SignedJobHandler.answered_append.mp he with he | he
    · exact hs.answered_handler _ he
    · simp only [SignedJobHandler.Answered, List.mem_cons, reduceCtorEq,
        Observation.returned.injEq, false_or, Option.some.injEq, List.not_mem_nil, or_false] at he
      obtain ⟨rfl, rfl⟩ := he
      exact hs.answered_handler _ (hs.traced.cached _ _ (mem_of_lookup hget))
  | @lookedUp event now request hparse hget =>
    have hget : ∀ (j : ℕ) c, (s.handler.calls ++ [⟨request, .lookedUp⟩])[j]? = some c →
        s.handler.calls[j]? = some c ∨ s.handler.calls.length ≤ j ∧ c = ⟨request, .lookedUp⟩ := by
      intro j c hj
      rcases Nat.lt_or_ge j s.handler.calls.length with hlt | hge
      · exact Or.inl (by rwa [List.getElem?_append_left hlt] at hj)
      · rw [List.getElem?_append_right hge] at hj
        exact Or.inr ⟨hge, List.mem_singleton.mp (List.mem_of_getElem? hj)⟩
    refine ⟨hcoherent, htraced, ?_, ?_, ?_, ?_⟩
    · intro j hj
      refine hs.idle j (Nat.le_trans (Nat.le_succ _) ?_)
      simpa using hj
    · intro j r p hj
      rcases hget j _ hj with hj | ⟨hge, -⟩
      · exact hs.met j r p hj
      · change s.Met r (s.progress j)
        rw [hs.idle j hge]
        trivial
    · intro j r e hj
      rcases hget j _ hj with hj | ⟨-, heq⟩
      · exact (hs.signed j r e hj).grows (.handler s _)
      · cases heq
    · intro id e he
      rcases SignedJobHandler.answered_append.mp he with he | he
      · exact hs.answered_handler _ he
      · simp [SignedJobHandler.Answered] at he
  | duplicate hcall hid =>
    exact backed_setCall hs hcall (by rintro e ⟨⟩) (by simp [SignedJobHandler.Answered]) rfl
      hcoherent htraced
  | claimed hcall hid =>
    exact backed_setCall hs hcall (by rintro e ⟨⟩) (by simp [SignedJobHandler.Answered]) rfl
      hcoherent htraced
  | failed hcall hresult =>
    exact backed_setCall hs hcall (by rintro e ⟨⟩) (by simp [SignedJobHandler.Answered]) rfl
      hcoherent htraced
  | @signed i answers t request event hcall hresult =>
    refine backed_setCall hs hcall ?_ (by simp [SignedJobHandler.Answered]) rfl hcoherent htraced
    rintro e ⟨⟩
    exact hsigned i answers t request event rfl hcall hresult
  | @remembered i request event hcall =>
    refine backed_setCall hs hcall (by rintro e ⟨⟩) ?_ rfl hcoherent htraced
    intro id e he
    simp only [SignedJobHandler.Answered, List.mem_singleton, Observation.returned.injEq,
      Option.some.injEq] at he
    obtain ⟨rfl, rfl⟩ := he
    exact ⟨rfl, hs.signed i request e hcall⟩

/-- A call of `process` gets on; the handler does not see it. -/
theorem backed_progress {p : Progress} {store : K.State}
    {proofs : List (JobInput × VerifiedProofArtifact)} {phase : Phase} (hs : s.Backed P)
    (hcall : s.handler.calls[i]? = some ⟨request, phase⟩)
    (hs' : s' = ⟨s.handler, store, (s.setProgress i p).progress, proofs⟩) (hg : s.Grows s')
    (hmet : s'.Met request p) : s'.Backed P := by
  subst hs'
  refine ⟨hs.coherent, hs.traced, ?_, ?_, ?_, ?_⟩
  · intro j hj
    have hne : j ≠ i := by
      rintro rfl
      rw [List.getElem?_eq_none hj] at hcall
      cases hcall
    exact (if_neg hne).trans (hs.idle j hj)
  · intro j r ph hj
    by_cases hji : j = i
    · subst hji
      cases hcall.symm.trans hj
      change Met _ request (if j = j then p else _)
      rw [if_pos rfl]
      exact hmet
    · change Met _ r (if j = i then p else s.progress j)
      rw [if_neg hji]
      exact (hs.met j r ph hj).grows hg
  · intro j r e hj
    exact (hs.signed j r e hj).grows hg
  · intro id e he
    obtain ⟨event, now, r, hparse, hid, hpublished⟩ := hs.answered id e he
    exact ⟨event, now, r, hparse, hid, hpublished.grows hg⟩

theorem handle_eq_some (hstep : s.handle P l = some s') :
    ∃ h, SignedJobHandler.Moves P s.handler l h ∧ s' = { s with handler := h } := by
  obtain ⟨h, hmove, rfl⟩ := Option.map_eq_some_iff.mp hstep
  exact ⟨h, SignedJobHandler.moves_of_step hmove, rfl⟩

/-- Whatever moves, nothing is lost. -/
theorem grows_step : ∀ {l : Label}, step P s l = some s' → s.Grows s'
  | .deliver event now, h => by
    obtain ⟨_, -, rfl⟩ := handle_eq_some h
    exact .handler s _
  | .claim i, h => by
    obtain ⟨_, -, rfl⟩ := handle_eq_some h
    exact .handler s _
  | .remember i, h => by
    obtain ⟨_, -, rfl⟩ := handle_eq_some h
    exact .handler s _
  | .refuse i, h => by
    rw [step] at h
    split at h <;> cases h
    exact ⟨List.Subset.refl _, fun _ _ h => h⟩
  | .prove i outcome, h => by
    rw [step] at h
    split at h <;> cases h
    exact ⟨List.subset_append_left _ _, fun _ _ h => h⟩
  | .put i n, h => by
    rw [step] at h
    split at h
    · split at h <;> cases h
      exact ⟨List.Subset.refl _, fun _ _ h => K.put_keeps h⟩
    · cases h
  | .complete i t, h => by
    rw [step] at h
    split at h
    · obtain ⟨_, -, hmove⟩ := Option.bind_eq_some_iff.mp h
      obtain ⟨_, -, rfl⟩ := handle_eq_some hmove
      exact .handler s _
    · cases h

theorem grows_exec : ∀ {ls : List Label} {s : Publisher K}, exec (step P) s ls = some s' → s.Grows s'
  | [], s, h => by
    cases h
    exact .refl _
  | l :: ls, s, h => by
    obtain ⟨m, hm, h⟩ := Option.bind_eq_some_iff.mp h
    have hfirst := grows_step hm
    have hrest := grows_exec h
    exact ⟨fun _ hx => hrest.proofs (hfirst.proofs hx),
      fun _ _ hx => hrest.store _ _ (hfirst.store _ _ hx)⟩

theorem backed_step (hkeys : P.keys.Lawful P.L) (hs : s.Backed P) : ∀ {l : Label},
    step P s l = some s' → s'.Backed P
  | .deliver event now, h => by
    obtain ⟨_, hm, rfl⟩ := handle_eq_some h
    exact backed_handle hs (by rintro _ _ _ _ _ ⟨⟩) hm
  | .claim i, h => by
    obtain ⟨_, hm, rfl⟩ := handle_eq_some h
    exact backed_handle hs (by rintro _ _ _ _ _ ⟨⟩) hm
  | .remember i, h => by
    obtain ⟨_, hm, rfl⟩ := handle_eq_some h
    exact backed_handle hs (by rintro _ _ _ _ _ ⟨⟩) hm
  | .refuse i, h => by
    rw [step] at h
    split at h
    · rename_i hcall hprogress
      cases h
      exact backed_progress hs hcall rfl ⟨List.Subset.refl _, fun _ _ h => h⟩ trivial
    · cases h
  | .prove i outcome, h => by
    rw [step] at h
    split at h
    · rename_i request hcall hprogress
      cases h
      refine backed_progress hs hcall rfl
        ⟨List.subset_append_left _ _, fun _ _ h => h⟩ ?_
      rintro artifact rfl
      exact List.mem_append_right _ (List.mem_singleton_self _)
    · cases h
  | .put i n, h => by
    rw [step] at h
    split at h
    · rename_i request outcome hcall hprogress
      split at h
      · rename_i artifact hbound
        cases h
        have hout : outcome = some (.ok artifact) := boundArtifact_eq_ok hbound
        have hmet := hs.met i request _ hcall
        rw [hprogress] at hmet
        refine backed_progress hs hcall rfl
          ⟨List.Subset.refl _, fun _ _ h => K.put_keeps h⟩ ⟨artifact, hout, hmet artifact hout, ?_⟩
        exact fun stored hstored => K.put_ok hstored
      · cases h
    · cases h
  | .complete i t, h => by
    rw [step] at h
    split at h
    · rename_i request phase hcall
      obtain ⟨answers, hanswers, hmove⟩ := Option.bind_eq_some_iff.mp h
      obtain ⟨_, hm, rfl⟩ := handle_eq_some hmove
      refine backed_handle hs ?_ hm
      rintro j answers' t' request' e ⟨⟩ hcall' hresult
      cases hcall.symm.trans hcall'
      exact published_of_complete hkeys (hs.met i request _ hcall) hanswers hresult
    · cases h

theorem backed_visits {capacity : ℕ} {ls : List Label} (hkeys : P.keys.Lawful P.L)
    (h : 0 < capacity) (hs : Visits (step P) (new K capacity) ls s) : s.Backed P :=
  hs.invariant (backed_new h) fun _ _ _ ht hb => backed_step hkeys hb ht.enabled

/-- The input of a request is read from the content of its event. -/
theorem input_eq {L : Libraries} {event event' : Event} {now now' : ℕ} {r r' : JobRequest}
    (h : parseRequestEvent L event now = .ok r) (h' : parseRequestEvent L event' now' = .ok r')
    (hcontent : event.content = event'.content) : r.input = r'.input := by
  simp only [parseRequestEvent, bind_eq_ok, rejectIf_eq_ok, orReject_eq_ok, mapReject_eq_ok,
    pure_eq_ok, exists_unit] at h h'
  obtain ⟨-, -, _, -, -, -, c, hc, -, -, -, _, -, -, _, -, -, _, -, rfl⟩ := h
  obtain ⟨-, -, _, -, -, -, c', hc', -, -, -, _, -, -, _, -, -, _, -, rfl⟩ := h'
  rw [hcontent, hc'] at hc
  cases hc
  rfl

/-- A call that completes with a failed stage signs an error about its request, or nothing. -/
theorem content_of_failed {answers : Answers} {err : ProcessingError} {t : ℕ}
    (hkeys : P.keys.Lawful P.L) (hcall : s.handler.calls[i]? = some ⟨request, .processing⟩)
    (hanswers : (s.progress i).answers request = some answers)
    (hfailed : process P.U P.base answers request = .error err)
    (hstep : step P s (.complete i t) = some s')
    (hsigned : s'.handler.calls[i]? = some ⟨request, .signed e⟩) :
    e.content = (JobResultContent.newError request.id err.publicCode err.publicMessage).toText := by
  simp only [step, hcall, hanswers, Option.bind_some] at hstep
  obtain ⟨h, hm, rfl⟩ := handle_eq_some hstep
  cases hm with
  | failed hcall' hresult =>
    rw [SignedJobHandler.setCall,
      List.getElem?_set_self (List.getElem?_eq_some_iff.mp hcall).1] at hsigned
    cases hsigned
  | signed hcall' hresult =>
    cases hcall.symm.trans hcall'
    rw [SignedJobHandler.setCall,
      List.getElem?_set_self (List.getElem?_eq_some_iff.mp hcall).1] at hsigned
    cases hsigned
    obtain ⟨-, hsign⟩ := signResult_eq_ok.mp hresult
    obtain ⟨-, -, -, -, hcontent, -⟩ := hkeys _ _ _ _ _ hsign
    rw [hfailed] at hcontent
    exact hcontent

/-! ### One call on its own -/

theorem handle_move (hmove : s.handler.step P l = some h) :
    s.handle P l = some { s with handler := h } := by
  rw [handle, hmove, Option.map_some]

theorem step_handle_complete {answers : Answers} {t : ℕ} {phase : Phase}
    (hcall : s.handler.calls[i]? = some ⟨request, phase⟩)
    (hanswers : (s.progress i).answers request = some answers)
    (hmove : s.handler.step P (.complete i answers t) = some h) :
    step P s (.complete i t) = some { s with handler := h } := by
  simp only [step, hcall, hanswers, Option.bind_some, handle_move hmove]

theorem step_handle_prove {outcome : Option (Except Text VerifiedProofArtifact)}
    (hcall : s.handler.calls[i]? = some ⟨request, .processing⟩) (hp : s.progress i = .proving) :
    step P s (.prove i outcome) = some { s.setProgress i (.proved outcome) with
      proofs := s.proofs ++ made request.input outcome } := by
  simp only [step, hcall, hp]

theorem step_handle_put {artifact : VerifiedProofArtifact} {n : ℕ}
    (hcall : s.handler.calls[i]? = some ⟨request, .processing⟩)
    (hp : s.progress i = .proved (some (.ok artifact)))
    (hbound : boundArtifact request (some (.ok artifact)) = .ok artifact) :
    step P s (.put i n) = some { s.setProgress i (.stored (some (.ok artifact))
        (K.put s.store artifact.proof_bytes n).1) with
      store := (K.put s.store artifact.proof_bytes n).2 } := by
  simp only [step, hcall, hp, hbound]

end Publisher

end SoulSociety.Provider
