import SoulSociety.Provider.Publishing

/-! What a handler with a store has returned. A property of results that is established where a result
    is signed, and that a growing store keeps, holds of every event that was returned, at once or
    again. -/

namespace SoulSociety.Provider.Publisher
open Lib SoulSociety.Core

variable {H : Bytes → Digest} {K : ContentStore H} {P : Setup} {s s' : Publisher K} {l : Label}
  {capacity : ℕ} {ls : List Label} {request : JobRequest} {e : Event}

/-- A step leaves the handler alone, or is a move of the handler; what is delivered to the handler is
    delivered, and what completes is what the call has met. -/
theorem moved_of_step : ∀ {l : Label}, step P s l = some s' →
    s'.handler = s.handler ∧ s.Grows s' ∨
      ∃ m h, SignedJobHandler.Moves P s.handler m h ∧ s' = { s with handler := h } ∧
        (∀ event now, m = .deliver event now → l = .deliver event now) ∧
        ∀ i answers t, m = .complete i answers t → ∃ request phase,
          s.handler.calls[i]? = some ⟨request, phase⟩ ∧ (s.progress i).answers request = some answers
  | .deliver event now, h => by
    obtain ⟨_, hm, rfl⟩ := handle_eq_some h
    exact Or.inr ⟨_, _, hm, rfl, by rintro _ _ ⟨⟩; rfl, by rintro _ _ _ ⟨⟩⟩
  | .claim i, h => by
    obtain ⟨_, hm, rfl⟩ := handle_eq_some h
    exact Or.inr ⟨_, _, hm, rfl, by rintro _ _ ⟨⟩, by rintro _ _ _ ⟨⟩⟩
  | .remember i, h => by
    obtain ⟨_, hm, rfl⟩ := handle_eq_some h
    exact Or.inr ⟨_, _, hm, rfl, by rintro _ _ ⟨⟩, by rintro _ _ _ ⟨⟩⟩
  | .refuse i, h => by
    have hgrows := grows_step h
    rw [step] at h
    split at h <;> cases h
    exact Or.inl ⟨rfl, hgrows⟩
  | .prove i outcome, h => by
    have hgrows := grows_step h
    rw [step] at h
    split at h <;> cases h
    exact Or.inl ⟨rfl, hgrows⟩
  | .put i n, h => by
    have hgrows := grows_step h
    rw [step] at h
    split at h
    · split at h <;> cases h
      exact Or.inl ⟨rfl, hgrows⟩
    · cases h
  | .complete i t, h => by
    rw [step] at h
    split at h
    · rename_i request phase hcall
      obtain ⟨answers, hanswers, hmove⟩ := Option.bind_eq_some_iff.mp h
      obtain ⟨_, hm, rfl⟩ := handle_eq_some hmove
      refine Or.inr ⟨_, _, hm, rfl, by rintro _ _ ⟨⟩, ?_⟩
      rintro j answers' t' ⟨⟩
      exact ⟨request, phase, hcall, hanswers⟩
    · cases h

/-- A property of what is signed for a request, which a growing store keeps. -/
structure Kept (P : Setup) (Q : Publisher K → JobRequest → Event → Prop) : Prop where
  grows : ∀ {s s' request e}, s.Grows s' → Q s request e → Q s' request e
  signed : ∀ {s : Publisher K} {i request answers t e}, s.Backed P →
    s.handler.calls[i]? = some ⟨request, .processing⟩ →
      (s.progress i).answers request = some answers →
        handleClaimed P request answers t = .ok e → Q s request e

/-- The request was parsed from an event that the run delivers. -/
def Took (P : Setup) (ls : List Label) (request : JobRequest) : Prop :=
  ∃ event now, .deliver event now ∈ ls ∧ parseRequestEvent P.L event now = .ok request

/-- The property holds of what is signed and of what was returned for the requests that were taken. -/
structure Holds (T : JobRequest → Prop) (Q : Publisher K → JobRequest → Event → Prop)
    (s : Publisher K) : Prop where
  taken : ∀ (i : ℕ) c, s.handler.calls[i]? = some c → T c.request
  signed : ∀ (i : ℕ) request e, s.handler.calls[i]? = some ⟨request, .signed e⟩ → Q s request e
  answered : ∀ id e, SignedJobHandler.Answered s.handler.log id e →
    ∃ request, T request ∧ request.id = id ∧ Q s request e

variable {T : JobRequest → Prop} {Q : Publisher K → JobRequest → Event → Prop}

theorem holds_new : (new K capacity).Holds T Q where
  taken _ _ h := by cases h
  signed _ _ _ h := by cases h
  answered _ _ h := by cases h

/-- The store grows behind an unchanged handler. -/
theorem Holds.grows (hQ : Kept P Q) (h : s.Holds T Q) (hhandler : s'.handler = s.handler)
    (hg : s.Grows s') : s'.Holds T Q where
  taken i c hcall := h.taken i c (hhandler ▸ hcall)
  signed i request e hcall := hQ.grows hg (h.signed i request e (hhandler ▸ hcall))
  answered id e he := by
    obtain ⟨request, htook, hid, hq⟩ := h.answered id e (hhandler ▸ he)
    exact ⟨request, htook, hid, hQ.grows hg hq⟩

/-- What was returned stays returned. -/
theorem Holds.answered_handler (hQ : Kept P Q) (h : s.Holds T Q) {seen : List Observation}
    {handler : SignedJobHandler} (hseen : ∀ id e, SignedJobHandler.Answered seen id e →
      ∃ request, T request ∧ request.id = id ∧ Q s request e) {id : Text} {e : Event}
    (he : SignedJobHandler.Answered (s.handler.log ++ seen) id e) :
    ∃ request, T request ∧ request.id = id ∧ Q { s with handler := handler } request e := by
  obtain ⟨request, htook, hid, hq⟩ : ∃ request, T request ∧ request.id = id ∧ Q s request e :=
    (SignedJobHandler.answered_append.mp he).elim (h.answered id e) (hseen id e)
  exact ⟨request, htook, hid, hQ.grows (.handler s _) hq⟩

/-- A call moves on. What it signs or returns has to have the property. -/
theorem holds_setCall (hQ : Kept P Q) (h : s.Holds T Q) {i : ℕ} {old phase : Phase}
    {seen : List Observation} {dedupe : RequestDeduplicator} {completed : CompletedResults}
    (hcall : s.handler.calls[i]? = some ⟨request, old⟩)
    (hsigned : ∀ e, phase = .signed e → Q s request e)
    (hseen : ∀ id e, SignedJobHandler.Answered seen id e → id = request.id ∧ Q s request e) :
    Holds T Q { s with handler :=
      ⟨dedupe, completed, s.handler.calls.set i ⟨request, phase⟩, s.handler.log ++ seen⟩ } where
  taken j c hj := by
    rcases (SignedJobHandler.getElem?_set_call hcall).mp hj with ⟨-, hr, -⟩ | ⟨-, hj⟩
    · exact hr ▸ h.taken i _ hcall
    · exact h.taken j c hj
  signed j r e hj := by
    rcases (SignedJobHandler.getElem?_set_call hcall).mp hj with ⟨rfl, rfl, hp⟩ | ⟨-, hj⟩
    · exact hQ.grows (.handler s _) (hsigned e hp)
    · exact hQ.grows (.handler s _) (h.signed j r e hj)
  answered id e he := by
    refine h.answered_handler hQ (fun id e he => ?_) he
    obtain ⟨rfl, hq⟩ := hseen id e he
    exact ⟨request, h.taken i _ hcall, rfl, hq⟩

/-- The handler moves. -/
theorem holds_moves (hQ : Kept P Q) (hs : s.Backed P) (h : s.Holds T Q)
    {m : SignedJobHandler.Label} {handler : SignedJobHandler}
    (hm : SignedJobHandler.Moves P s.handler m handler)
    (htook : ∀ event now request, m = .deliver event now →
      parseRequestEvent P.L event now = .ok request → T request)
    (hmet : ∀ i answers t, m = .complete i answers t → ∃ request phase,
      s.handler.calls[i]? = some ⟨request, phase⟩ ∧ (s.progress i).answers request = some answers) :
    Holds T Q { s with handler := handler } := by
  cases hm with
  | rejected => exact h
  | @replayed event now request completed hr hget =>
    refine ⟨h.taken, fun j r e hj => hQ.grows (.handler s _) (h.signed j r e hj), fun id e he => ?_⟩
    refine h.answered_handler hQ (fun id e he => ?_) he
    simp only [SignedJobHandler.Answered, List.mem_cons, reduceCtorEq, Observation.returned.injEq,
      false_or, Option.some.injEq, List.not_mem_nil, or_false] at he
    obtain ⟨rfl, rfl⟩ := he
    exact h.answered _ _ (hs.traced.cached _ _ (mem_of_lookup hget))
  | @lookedUp event now request hr hget =>
    refine ⟨fun j c hj => ?_, fun j r e hj => ?_, fun id e he => ?_⟩
    · rcases SignedJobHandler.getElem?_append_call hj with hj | rfl
      · exact h.taken j c hj
      · exact htook event now request rfl hr
    · rcases SignedJobHandler.getElem?_append_call hj with hj | hj
      · exact hQ.grows (.handler s _) (h.signed j r e hj)
      · cases hj
    · refine h.answered_handler hQ (fun id e he => ?_) he
      simp [SignedJobHandler.Answered] at he
  | duplicate hcall hid =>
    exact holds_setCall hQ h hcall (by rintro e ⟨⟩) (by simp [SignedJobHandler.Answered])
  | claimed hcall hid =>
    exact holds_setCall hQ h hcall (by rintro e ⟨⟩) (by simp [SignedJobHandler.Answered])
  | failed hcall hresult =>
    exact holds_setCall hQ h hcall (by rintro e ⟨⟩) (by simp [SignedJobHandler.Answered])
  | @signed i answers t request event hcall hresult =>
    refine holds_setCall hQ h hcall ?_ (by simp [SignedJobHandler.Answered])
    rintro e ⟨⟩
    obtain ⟨request', phase, hcall', hanswers⟩ := hmet i answers t rfl
    cases hcall.symm.trans hcall'
    exact hQ.signed hs hcall hanswers hresult
  | @remembered i request event hcall =>
    refine holds_setCall hQ h hcall (by rintro e ⟨⟩) ?_
    intro id e he
    simp only [SignedJobHandler.Answered, List.mem_singleton, Observation.returned.injEq,
      Option.some.injEq] at he
    obtain ⟨rfl, rfl⟩ := he
    exact ⟨rfl, h.signed i request e hcall⟩

/-- What holds where a result is signed holds of everything that a run returns. -/
theorem holds_visits (hQ : Kept P Q) (hkeys : P.keys.Lawful P.L) (hcapacity : 0 < capacity)
    (hs : Visits (step P) (new K capacity) ls s) : s.Holds (Took P ls) Q := by
  have hboth : s.Backed P ∧ s.Holds (Took P ls) Q := by
    refine hs.invariant (I := fun s => s.Backed P ∧ s.Holds (Took P ls) Q)
      ⟨backed_new hcapacity, holds_new⟩ ?_
    rintro s l s' ht ⟨hb, hh⟩
    refine ⟨backed_step hkeys hb ht.enabled, ?_⟩
    rcases moved_of_step ht.enabled with ⟨hhandler, hg⟩ | ⟨m, handler, hm, rfl, hdeliver, hmet⟩
    · exact hh.grows hQ hhandler hg
    · refine holds_moves hQ hb hh hm (fun event now request hlabel hparse => ?_) hmet
      exact ⟨event, now, hdeliver event now hlabel ▸ ht.mem, hparse⟩
  exact hboth.2

/-! ### Successes -/

/-- The event carries the success of an artifact that the engine returned for the input of the request.
    Its descriptor is made of the bytes of the artifact, and the store returns them. -/
structure Delivers (P : Setup) (s : Publisher K) (request : JobRequest) (e : Event)
    (artifact : VerifiedProofArtifact) (descriptor : ProofDescriptor) : Prop where
  made : (request.input, artifact) ∈ s.proofs
  stored : K.get s.store (H artifact.proof_bytes).val = some artifact.proof_bytes
  described : descriptorFor P.U P.base (storedArtifact H artifact.proof_bytes)
    artifact.program_hash = some descriptor
  bound : statementMatchesRequest artifact.statement request.input = true
  content : e.content =
    (JobResultContent.newSuccess request.id artifact.statement descriptor artifact.metrics).toText
  valid : (JobResultContent.newSuccess request.id artifact.statement descriptor
    artifact.metrics).validate P.U.parse = .ok ()

/-- The event was signed for the request, and is an error or a delivered success. -/
structure Emitted (P : Setup) (s : Publisher K) (request : JobRequest) (e : Event) : Prop where
  signed : ∃ answers t, handleClaimed P request answers t = .ok e
  delivered : (∃ err : ProcessingError, e.content =
      (JobResultContent.newError request.id err.publicCode err.publicMessage).toText) ∨
    ∃ artifact descriptor, s.Delivers P request e artifact descriptor

/-- A call that completes with an outcome that was stored has met the store's answer to it. -/
theorem stored_of_answers {answers : Answers} {artifact : VerifiedProofArtifact}
    {stored : StoredArtifact} {p : Progress} (hmet : s.Met request p)
    (hanswers : p.answers request = some answers) (hworker : answers.worker = some (.ok artifact))
    (hput : answers.put artifact.proof_bytes = .ok stored) :
    (request.input, artifact) ∈ s.proofs ∧ stored = storedArtifact H artifact.proof_bytes ∧
      K.get s.store (H artifact.proof_bytes).val = some artifact.proof_bytes := by
  cases p with
  | proving => cases hanswers
  | refused =>
    cases hanswers
    cases hworker
  | proved outcome =>
    rw [Progress.answers] at hanswers
    split at hanswers
    · cases hanswers
      cases hput
    · cases hanswers
  | stored outcome answer =>
    cases hanswers
    obtain ⟨artifact', rfl, hmade, hstored⟩ := hmet
    cases hworker
    obtain ⟨rfl, hget⟩ := hstored stored hput
    exact ⟨hmade, rfl, hget⟩

theorem kept_emitted (hkeys : P.keys.Lawful P.L) : Kept (K := K) P (Emitted P) where
  grows hg h := by
    refine ⟨h.signed, h.delivered.imp_right ?_⟩
    rintro ⟨artifact, descriptor, hd⟩
    exact ⟨artifact, descriptor,
      { hd with made := hg.proofs hd.made, stored := hg.store _ _ hd.stored }⟩
  signed := by
    intro s i request answers t e hs hcall hanswers hresult
    refine ⟨⟨answers, t, hresult⟩, ?_⟩
    obtain ⟨-, hsign⟩ := signResult_eq_ok.mp hresult
    obtain ⟨-, -, -, -, hcontent, -⟩ := hkeys _ _ _ _ _ hsign
    cases hprocess : process P.U P.base answers request with
    | error err =>
      rw [hprocess] at hcontent
      exact Or.inl ⟨err, hcontent⟩
    | ok result =>
      rw [hprocess] at hcontent
      obtain ⟨artifact, stored, descriptor, hworker, hput, hdescriptor, hbound, rfl, hvalid⟩ :=
        process_eq_ok hprocess
      obtain ⟨hmade, rfl, hget⟩ :=
        stored_of_answers (hs.met i request _ hcall) hanswers hworker hput
      exact Or.inr ⟨artifact, descriptor, hmade, hget, hdescriptor, hbound, hcontent, hvalid⟩

/-- Every event that a run has returned was signed for a request that was delivered to it, and is an
    error or a delivered success. -/
theorem emitted_visits (hkeys : P.keys.Lawful P.L) (hcapacity : 0 < capacity)
    (hs : Visits (step P) (new K capacity) ls s) {id : Text}
    (he : SignedJobHandler.Answered s.handler.log id e) :
    ∃ request, Took P ls request ∧ request.id = id ∧ s.Emitted P request e :=
  (holds_visits (kept_emitted hkeys) hkeys hcapacity hs).answered id e he

end SoulSociety.Provider.Publisher
