import SoulSociety.Core.Documents
import SoulSociety.Core.RequestCodec
import SoulSociety.Core.Sizes
import SoulSociety.Provider.Handler

/-! Duplicates in flight. A claim set that forgets its oldest claim admits a request again once enough
    others came between, also while the first processing still goes on: so duplicates in flight are
    suppressed exactly as long as no claim evicts an id that is being processed. -/

namespace SoulSociety.Provider.SignedJobHandler
open Lib SoulSociety.Core

/-- The claims of a run, in order. -/
def claimedIds (log : List Observation) : List Text :=
  log.filterMap fun | .claimed id => some id | _ => none

/-- The ids of the authentic requests that a run met. -/
def deliveredIds (log : List Observation) : List Text :=
  log.filterMap fun | .delivered id => some id | _ => none

@[simp] theorem claimedIds_append (log seen : List Observation) :
    claimedIds (log ++ seen) = claimedIds log ++ claimedIds seen := List.filterMap_append

@[simp] theorem deliveredIds_append (log seen : List Observation) :
    deliveredIds (log ++ seen) = deliveredIds log ++ deliveredIds seen := List.filterMap_append

/-- The claim set is the window of the claims made, and the replay cache is in order. -/
structure Coherent (s : SignedJobHandler) : Prop where
  tracks : s.dedupe.Tracks (claimedIds s.log)
  ordered : s.completed.Ordered

variable {P : Setup} {s s' : SignedJobHandler} {l : Label} {capacity : ℕ} {ls : List Label}

theorem coherent_new (h : 0 < capacity) : (new capacity).Coherent :=
  ⟨RequestDeduplicator.tracks_new h, CompletedResults.ordered_new h⟩

theorem coherent_moves (h : s.Coherent) (hm : Moves P s l s') : s'.Coherent := by
  obtain ⟨htracks, hordered⟩ := h
  cases hm with
  | rejected => exact ⟨htracks, hordered⟩
  | replayed hparse hget =>
    refine ⟨?_, hordered⟩
    rw [claimedIds_append]
    exact (List.append_nil _).symm ▸ htracks
  | lookedUp hparse hget =>
    refine ⟨?_, hordered⟩
    rw [claimedIds_append]
    exact (List.append_nil _).symm ▸ htracks
  | duplicate hcall hid =>
    refine ⟨?_, hordered⟩
    rw [setCall_log, claimedIds_append]
    exact (List.append_nil _).symm ▸ htracks
  | claimed hcall hid =>
    obtain ⟨d, hclaim, -, hd⟩ := htracks.claim_of_not_mem hid
    refine ⟨?_, hordered⟩
    rw [hclaim, setCall_log, claimedIds_append]
    exact hd
  | failed hcall hresult =>
    refine ⟨?_, hordered⟩
    rw [setCall_log, claimedIds_append]
    exact (List.append_nil _).symm ▸ htracks
  | signed hcall hresult =>
    refine ⟨?_, hordered⟩
    rw [setCall_log, claimedIds_append]
    exact (List.append_nil _).symm ▸ htracks
  | remembered hcall =>
    refine ⟨?_, hordered.insert⟩
    rw [setCall_log, claimedIds_append]
    exact (List.append_nil _).symm ▸ htracks

theorem coherent_visits (h : 0 < capacity) (hs : Visits (step P) (new capacity) ls s) :
    s.Coherent :=
  hs.invariant (coherent_new h) fun _ _ _ ht hm => coherent_moves hm (moves_of_step ht.enabled)

/-! ### Duplicates in flight -/

/-- A call is processing the request. -/
def Processing (s : SignedJobHandler) (id : Text) : Prop :=
  ∃ (i : ℕ) (request : JobRequest), s.calls[i]? = some ⟨request, .processing⟩ ∧ request.id = id

/-- No id is processed twice at once, and of an id that is being processed a further delivery finds
    neither a replay nor a free claim: it returns nothing and starts nothing. -/
structure Suppressed (s : SignedJobHandler) : Prop where
  alone : ∀ (i j : ℕ) (request request' : JobRequest), s.calls[i]? = some ⟨request, .processing⟩ →
    s.calls[j]? = some ⟨request', .processing⟩ → request.id = request'.id → i = j
  notReplayed : ∀ id, s.Processing id → s.completed.get id = none
  notClaimed : ∀ id, s.Processing id → (s.dedupe.claim id).1 = false

/-- A new claim evicts no id that is being processed and is not for a request that has its result
    already; a result is not put into the replay cache while its request is processed again. -/
def StepOk (s : SignedJobHandler) : Label → Prop
  | .deliver _ _ | .complete _ _ _ => True
  | .claim i => ∀ request : JobRequest, s.calls[i]? = some ⟨request, .lookedUp⟩ → request.id ∉ s.dedupe.ids →
      (∀ id, s.Processing id → s.dedupe.evicted ≠ some id) ∧ s.completed.get request.id = none
  | .remember i => ∀ (request : JobRequest) (event : Event), s.calls[i]? = some ⟨request, .signed event⟩ →
      ¬ s.Processing request.id

theorem Suppressed.mem_ids (h : s.Suppressed) {id : Text} (hp : s.Processing id) :
    id ∈ s.dedupe.ids := RequestDeduplicator.claim_eq_false_iff.mp (h.notClaimed id hp)

/-- What `Suppressed` means for a further delivery of an id that is being processed. -/
theorem Suppressed.further_delivery (h : s.Suppressed) {id : Text} (hp : s.Processing id) :
    (∀ event now request, parseRequestEvent P.L event now = .ok request → request.id = id →
      step P s (.deliver event now) = some { s with
        calls := s.calls ++ [⟨request, .lookedUp⟩], log := s.log ++ [.delivered id] }) ∧
    ∀ (i : ℕ) (request : JobRequest), s.calls[i]? = some ⟨request, .lookedUp⟩ → request.id = id →
      step P s (.claim i) = some (s.setCall i request .returned [.returned id none]) := by
  refine ⟨?_, ?_⟩
  · rintro event now request hparse rfl
    simp only [step, hparse, h.notReplayed _ hp]
  · rintro i request hcall rfl
    simp only [step, hcall, RequestDeduplicator.claim_of_mem (h.mem_ids hp)]

/-- Appending a call that is not processing leaves the processing calls as they are. -/
theorem processing_append {request r : JobRequest} {phase : Phase} (hphase : phase ≠ .processing)
    {i : ℕ} : (s.calls ++ [⟨request, phase⟩])[i]? = some ⟨r, .processing⟩ ↔
      s.calls[i]? = some ⟨r, .processing⟩ := by
  constructor
  · intro h
    rcases getElem?_append_call h with h | h
    · exact h
    · cases h
      exact absurd rfl hphase
  · intro h
    obtain ⟨hlt, -⟩ := List.getElem?_eq_some_iff.mp h
    rw [List.getElem?_append_left hlt]
    exact h

/-- A call that stops processing, or never did, leaves the other processing calls as they are. -/
theorem processing_set_call {i : ℕ} {old : Call} {request : JobRequest} {phase : Phase}
    (hcall : s.calls[i]? = some old) (hphase : phase ≠ .processing) {j : ℕ} {r : JobRequest}
    (h : (s.calls.set i ⟨request, phase⟩)[j]? = some ⟨r, .processing⟩) :
    s.calls[j]? = some ⟨r, .processing⟩ := by
  rcases (getElem?_set_call hcall).mp h with ⟨-, -, h⟩ | ⟨-, h⟩
  · exact absurd h hphase
  · exact h

/-- A call that starts to process is the only new one. -/
theorem processing_of_claim {i : ℕ} {old : Call} {request : JobRequest}
    (hcall : s.calls[i]? = some old) {j : ℕ} {r : JobRequest}
    (h : (s.calls.set i ⟨request, .processing⟩)[j]? = some ⟨r, .processing⟩) :
    i = j ∧ request = r ∨ s.calls[j]? = some ⟨r, .processing⟩ := by
  rcases (getElem?_set_call hcall).mp h with ⟨hij, hr, -⟩ | ⟨-, h⟩
  · exact Or.inl ⟨hij, hr⟩
  · exact Or.inr h

/-- With no new processing call and the stores as they were, nothing is lost. -/
theorem Suppressed.of_fewer (h : s.Suppressed)
    (hcalls : ∀ (i : ℕ) (request : JobRequest), s'.calls[i]? = some ⟨request, .processing⟩ →
      s.calls[i]? = some ⟨request, .processing⟩)
    (hdedupe : s'.dedupe = s.dedupe)
    (hcompleted : ∀ id, s'.Processing id → s'.completed.get id = s.completed.get id) :
    s'.Suppressed := by
  have hprocessing : ∀ id, s'.Processing id → s.Processing id := by
    rintro id ⟨i, request, hi, rfl⟩
    exact ⟨i, request, hcalls i request hi, rfl⟩
  refine ⟨?_, ?_, ?_⟩
  · intro i j request request' hi hj hid
    exact h.alone i j request request' (hcalls i _ hi) (hcalls j _ hj) hid
  · intro id hp
    rw [hcompleted id hp]
    exact h.notReplayed id (hprocessing id hp)
  · intro id hp
    rw [hdedupe]
    exact h.notClaimed id (hprocessing id hp)

theorem suppressed_moves (hc : s.Coherent) (h : s.Suppressed) (hok : s.StepOk l)
    (hm : Moves P s l s') : s'.Suppressed := by
  cases hm with
  | rejected => exact h
  | replayed hparse hget => exact ⟨h.alone, h.notReplayed, h.notClaimed⟩
  | lookedUp hparse hget =>
    refine h.of_fewer (fun i r hi => ?_) rfl fun _ _ => rfl
    exact (processing_append (by simp)).mp hi
  | duplicate hcall hid =>
    exact h.of_fewer (fun _ _ hi => processing_set_call hcall (by simp) hi) rfl fun _ _ => rfl
  | failed hcall hresult =>
    exact h.of_fewer (fun _ _ hi => processing_set_call hcall (by simp) hi) rfl fun _ _ => rfl
  | signed hcall hresult =>
    exact h.of_fewer (fun _ _ hi => processing_set_call hcall (by simp) hi) rfl fun _ _ => rfl
  | @remembered i request event hcall =>
    refine h.of_fewer (fun _ _ hi => processing_set_call hcall (by simp) hi) rfl fun id hp => ?_
    have hp' : s.Processing id := by
      obtain ⟨j, r, hj, rfl⟩ := hp
      exact ⟨j, r, processing_set_call hcall (by simp) hj, rfl⟩
    have hne : id ≠ request.id := by
      rintro rfl
      exact hok request event hcall hp'
    -- the new entry is for another request
    rw [h.notReplayed id hp', ← Option.not_isSome_iff_eq_none]
    intro hsome
    rcases hc.ordered.get_insert_isSome hsome with hold | heq
    · rw [h.notReplayed id hp'] at hold
      cases hold
    · exact hne heq
  | @claimed i request hcall hid =>
    obtain ⟨hevicted, hnone⟩ := hok request hcall hid
    -- the id was not retained, so no other call was processing it
    have hnew : ∀ (j : ℕ) (r : JobRequest), s.calls[j]? = some ⟨r, .processing⟩ → r.id ≠ request.id := by
      intro j r hj heq
      exact hid (heq ▸ h.mem_ids ⟨j, r, hj, rfl⟩)
    refine ⟨?_, ?_, ?_⟩
    · intro j k r r' hj hk heq
      rcases processing_of_claim hcall hj with ⟨rfl, rfl⟩ | hj
      · rcases processing_of_claim hcall hk with ⟨rfl, rfl⟩ | hk
        · rfl
        · exact absurd heq.symm (hnew k r' hk)
      · rcases processing_of_claim hcall hk with ⟨rfl, rfl⟩ | hk
        · exact absurd heq (hnew j r hj)
        · exact h.alone j k r r' hj hk heq
    · rintro id ⟨j, r, hj, rfl⟩
      rcases processing_of_claim hcall hj with ⟨rfl, rfl⟩ | hj
      · exact hnone
      · exact h.notReplayed _ ⟨j, r, hj, rfl⟩
    · rintro id ⟨j, r, hj, rfl⟩
      refine RequestDeduplicator.claim_eq_false_iff.mpr ((hc.tracks.mem_claim hid).mpr ?_)
      rcases processing_of_claim hcall hj with ⟨rfl, rfl⟩ | hj
      · exact Or.inl rfl
      · exact Or.inr ⟨h.mem_ids ⟨j, r, hj, rfl⟩, hevicted _ ⟨j, r, hj, rfl⟩⟩

/-- Where suppression survives a step, the step met the condition. -/
theorem stepOk_of_suppressed (hc : s.Coherent) (h : s.Suppressed) (h' : s'.Suppressed)
    (hm : Moves P s l s') : s.StepOk l := by
  cases hm with
  | rejected => trivial
  | replayed hparse hget => trivial
  | lookedUp hparse hget => trivial
  | failed hcall hresult => trivial
  | signed hcall hresult => trivial
  | duplicate hcall hid =>
    intro request hcall' hid'
    rw [hcall] at hcall'
    cases hcall'
    exact absurd hid hid'
  | @claimed i request hcall hid =>
    intro request' hcall' _
    rw [hcall] at hcall'
    cases hcall'
    refine ⟨?_, ?_⟩
    · rintro id ⟨j, r, hj, rfl⟩ hev
      have hij : i ≠ j := by
        rintro rfl
        rw [hcall] at hj
        cases hj
      have hmem := h'.mem_ids ⟨j, r, (getElem?_set_call hcall).mpr (Or.inr ⟨hij, hj⟩), rfl⟩
      rcases (hc.tracks.mem_claim hid).mp hmem with heq | ⟨-, hne⟩
      · exact hid (heq ▸ h.mem_ids ⟨j, r, hj, rfl⟩)
      · exact hne hev
    · exact h'.notReplayed _ ⟨i, request, (getElem?_set_call hcall).mpr (Or.inl ⟨rfl, rfl, rfl⟩), rfl⟩
  | @remembered i request event hcall =>
    rintro request' event' hcall' ⟨j, r, hj, heq⟩
    rw [hcall] at hcall'
    cases hcall'
    have hij : i ≠ j := by
      rintro rfl
      rw [hcall] at hj
      cases hj
    have hnone := h'.notReplayed _
      ⟨j, r, (getElem?_set_call hcall).mpr (Or.inr ⟨hij, hj⟩), rfl⟩
    have hsome : ((s.completed.insert request.id event).get request.id).isSome = true :=
      hc.ordered.get_insert_self
    rw [heq] at hnone
    rw [hnone] at hsome
    cases hsome

theorem suppressed_new : (new capacity).Suppressed := by
  have hnone : ∀ (i : ℕ) (request : JobRequest), (new capacity).calls[i]? ≠ some ⟨request, .processing⟩ := by
    intro i request h
    cases h
  refine ⟨fun i _ r _ hi => absurd hi (hnone i r), ?_, ?_⟩
  · rintro _ ⟨i, r, hi, -⟩
    exact absurd hi (hnone i r)
  · rintro _ ⟨i, r, hi, -⟩
    exact absurd hi (hnone i r)

/-- Along a run duplicates in flight are suppressed exactly as long as no step evicts, re-admits or
    answers an id that is being processed. -/
theorem inflight_suppressed_iff (P : Setup) (h : 0 < capacity) (ls : List Label) :
    (∀ s, Visits (step P) (new capacity) ls s → s.Suppressed) ↔
      ∀ s l s', Takes (step P) (new capacity) ls s l s' → s.StepOk l := by
  constructor
  · intro hall s l s' ht
    exact stepOk_of_suppressed (coherent_visits h ht.visits) (hall s ht.visits)
      (hall s' ht.visits_next) (moves_of_step ht.enabled)
  · intro hok s hs
    have hboth : s.Coherent ∧ s.Suppressed := by
      refine hs.invariant (I := fun m => m.Coherent ∧ m.Suppressed)
        ⟨coherent_new h, suppressed_new⟩ ?_
      rintro m l m' ht ⟨hc, hsup⟩
      have hm := moves_of_step ht.enabled
      exact ⟨coherent_moves hc hm, suppressed_moves hc hsup (hok m l m' ht) hm⟩
    exact hboth.2

/-! ### A flood of requests -/

/-- The calls that have not returned. -/
def inProgress (s : SignedJobHandler) : ℕ := s.calls.countP fun c => c.phase ≠ .returned

/-- Each request is delivered, claimed, processed and answered before the next one comes; `n` is the
    number of calls so far. -/
def handleEach (answers : Answers) (now t : ℕ) : ℕ → List Event → List Label
  | _, [] => []
  | n, e :: es =>
    .deliver e now :: .claim n :: .complete n answers t :: .remember n ::
      handleEach answers now t (n + 1) es

/-- A call at the end of the list. -/
def addCall (s : SignedJobHandler) (request : JobRequest) (phase : Phase) : List Call :=
  s.calls ++ [⟨request, phase⟩]

variable {request : JobRequest} {event : Event} {answers : Answers} {now t : ℕ}

theorem getElem?_addCall {phase : Phase} :
    (s.addCall request phase)[s.calls.length]? = some ⟨request, phase⟩ :=
  List.getElem?_concat_length

theorem set_addCall {phase phase' : Phase} :
    (s.addCall request phase).set s.calls.length ⟨request, phase'⟩ = s.addCall request phase' := by
  rw [addCall, List.set_append_right _ _ (Nat.le_refl _), Nat.sub_self]; rfl

/-- The handler after the delivery of a new request, its claim, its completion and its answer. -/
def handled (s : SignedJobHandler) (request : JobRequest) (event : Event) :
    Fin 4 → SignedJobHandler
  | 0 => { s with calls := s.addCall request .lookedUp, log := s.log ++ [.delivered request.id] }
  | 1 => { s with
      dedupe := (s.dedupe.claim request.id).2
      calls := s.addCall request .processing
      log := s.log ++ [.delivered request.id] ++ [.claimed request.id] }
  | 2 => { s with
      dedupe := (s.dedupe.claim request.id).2
      calls := s.addCall request (.signed event)
      log := s.log ++ [.delivered request.id] ++ [.claimed request.id] ++ [] }
  | 3 => {
      dedupe := (s.dedupe.claim request.id).2
      completed := s.completed.insert request.id event
      calls := s.addCall request .returned
      log := s.log ++ [.delivered request.id] ++ [.claimed request.id] ++ [] ++
        [.returned request.id (some event)] }

theorem step_deliver {e : Event} (hparse : parseRequestEvent P.L e now = .ok request)
    (hget : s.completed.get request.id = none) :
    step P s (.deliver e now) = some (s.handled request event 0) := by
  simp only [step, hparse, hget]; rfl

theorem step_claim (hid : request.id ∉ s.dedupe.ids) :
    step P (s.handled request event 0) (.claim s.calls.length) =
      some (s.handled request event 1) := by
  have hclaim : s.dedupe.claim request.id = (true, (s.dedupe.claim request.id).2) := by
    rw [RequestDeduplicator.claim, if_neg hid]
  have hcall : (s.handled request event 0).calls[s.calls.length]? = some ⟨request, .lookedUp⟩ :=
    getElem?_addCall
  have hdedupe : (s.handled request event 0).dedupe = s.dedupe := rfl
  rw [step, hcall]
  simp only [hdedupe]
  rw [hclaim]
  change some (SignedJobHandler.mk _ _ ((s.addCall request .lookedUp).set _ _) _) = _
  rw [set_addCall]
  rfl

theorem step_duplicate {i : ℕ} (hcall : s.calls[i]? = some ⟨request, .lookedUp⟩)
    (hid : request.id ∈ s.dedupe.ids) :
    step P s (.claim i) = some (s.setCall i request .returned [.returned request.id none]) := by
  have hclaim : s.dedupe.claim request.id = (false, s.dedupe) := by
    rw [RequestDeduplicator.claim, if_pos hid]
  rw [step, hcall]
  simp only [hclaim]

theorem step_signed {i : ℕ} (hcall : s.calls[i]? = some ⟨request, .processing⟩)
    (hresult : handleClaimed P request answers t = .ok event) :
    step P s (.complete i answers t) = some (s.setCall i request (.signed event) []) := by
  rw [step, hcall]
  simp only [hresult]

theorem step_replay {e : Event} (hparse : parseRequestEvent P.L e now = .ok request)
    (hget : s.completed.get request.id = some event) : step P s (.deliver e now) =
      some { s with
        log := s.log ++ [.delivered request.id, .returned request.id (some event)] } := by
  simp only [step, hparse, hget]

theorem step_complete (hresult : handleClaimed P request answers t = .ok event) :
    step P (s.handled request event 1) (.complete s.calls.length answers t) =
      some (s.handled request event 2) := by
  have hcall : (s.handled request event 1).calls[s.calls.length]? = some ⟨request, .processing⟩ :=
    getElem?_addCall
  rw [step_signed hcall hresult]
  change some (SignedJobHandler.mk _ _ ((s.addCall request .processing).set _ _) _) = _
  rw [set_addCall]
  rfl

theorem step_remember : step P (s.handled request event 2) (.remember s.calls.length) =
    some (s.handled request event 3) := by
  have hcall : (s.handled request event 2).calls[s.calls.length]? =
      some ⟨request, .signed event⟩ := getElem?_addCall
  rw [step, hcall]
  change some (SignedJobHandler.mk _ _ ((s.addCall request (.signed event)).set _ _) _) = _
  rw [set_addCall]
  rfl

theorem inProgress_addCall (phase : Phase) :
    (s.addCall request phase).countP (fun c => c.phase ≠ .returned) ≤ s.inProgress + 1 := by
  rw [addCall, List.countP_append]
  exact Nat.add_le_add_left (List.countP_le_length (l := [Call.mk request phase])) _

theorem inProgress_handled (k : Fin 4) : (s.handled request event k).inProgress ≤ s.inProgress + 1 := by
  match k with
  | 0 | 1 | 2 | 3 => exact inProgress_addCall _

/-- An id that was never claimed is not retained. -/
theorem Coherent.not_mem_ids {id : Text} (hc : s.Coherent) (h : id ∉ claimedIds s.log) :
    id ∉ s.dedupe.ids := by
  intro hmem
  rw [hc.tracks.mem_ids, hc.tracks.order] at hmem
  exact h ((window_suffix _ _).subset hmem)

/-- A new request can be handled, with one more call in progress. -/
theorem handled_run {e : Event} (hc : s.Coherent) (hparse : parseRequestEvent P.L e now = .ok request)
    (hresult : handleClaimed P request answers t = .ok event)
    (hnew : request.id ∉ claimedIds s.log) (hget : s.completed.get request.id = none) :
    exec (step P) s [.deliver e now, .claim s.calls.length, .complete s.calls.length answers t,
        .remember s.calls.length] = some (s.handled request event 3) ∧
      (s.handled request event 3).Coherent ∧
      ∀ m, Visits (step P) s [.deliver e now, .claim s.calls.length,
        .complete s.calls.length answers t, .remember s.calls.length] m →
          m.inProgress ≤ s.inProgress + 1 := by
  have hid : request.id ∉ s.dedupe.ids := hc.not_mem_ids hnew
  have h₀ : step P s (.deliver e now) = some (s.handled request event 0) := step_deliver hparse hget
  have h₁ : step P _ (.claim s.calls.length) = some (s.handled request event 1) := step_claim hid
  have h₂ : step P _ (.complete s.calls.length answers t) = some (s.handled request event 2) :=
    step_complete hresult
  have h₃ : step P _ (.remember s.calls.length) = some (s.handled request event 3) := step_remember
  have hone : ∀ k, (s.handled request event k).inProgress ≤ s.inProgress + 1 := inProgress_handled
  refine ⟨?_, ?_, ?_⟩
  · rw [exec_cons h₀, exec_cons h₁, exec_cons h₂, exec_cons h₃, exec_nil]
  · exact coherent_moves (coherent_moves (coherent_moves (coherent_moves hc (moves_of_step h₀))
      (moves_of_step h₁)) (moves_of_step h₂)) (moves_of_step h₃)
  · intro m hm
    rcases visits_cons_iff.mp hm with rfl | ⟨m₀, hm₀, hm⟩
    · exact Nat.le_succ _
    obtain rfl := Option.some.inj (h₀.symm.trans hm₀)
    rcases visits_cons_iff.mp hm with rfl | ⟨m₁, hm₁, hm⟩
    · exact hone 0
    obtain rfl := Option.some.inj (h₁.symm.trans hm₁)
    rcases visits_cons_iff.mp hm with rfl | ⟨m₂, hm₂, hm⟩
    · exact hone 1
    obtain rfl := Option.some.inj (h₂.symm.trans hm₂)
    rcases visits_cons_iff.mp hm with rfl | ⟨m₃, hm₃, hm⟩
    · exact hone 2
    obtain rfl := Option.some.inj (h₃.symm.trans hm₃)
    rw [visits_nil_iff.mp hm]
    exact hone 3

/-- What a handled request leaves behind. -/
theorem handled_returned {s₁ : SignedJobHandler} (hs₁ : s₁ = s.handled request event 3) :
    s₁.calls = s.calls ++ [⟨request, .returned⟩] ∧ s₁.inProgress = s.inProgress ∧
      claimedIds s₁.log = claimedIds s.log ++ [request.id] ∧
      s₁.completed = s.completed.insert request.id event := by
  subst hs₁
  refine ⟨rfl, ?_, by simp [handled, claimedIds], rfl⟩
  change (s.addCall request .returned).countP _ = _
  rw [addCall, List.countP_append]
  rfl

theorem handled_capacity (hc : s.Coherent) (hnew : request.id ∉ claimedIds s.log) :
    (s.handled request event 3).dedupe.capacity = s.dedupe.capacity := by
  obtain ⟨d, hd, hcap, -⟩ := hc.tracks.claim_of_not_mem (hc.not_mem_ids hnew)
  change (s.dedupe.claim request.id).2.capacity = _
  rw [hd]
  exact hcap

/-- New requests can be handled one after the other, with one more call in progress at a time. -/
theorem handleEach_run {req : Event → JobRequest} : ∀ (es : List Event) {s : SignedJobHandler},
    s.Coherent → (∀ e ∈ es, parseRequestEvent P.L e now = .ok (req e)) →
    (∀ e ∈ es, ∃ event, handleClaimed P (req e) answers t = .ok event) →
    (es.map fun e => (req e).id).Nodup → (∀ e ∈ es, (req e).id ∉ claimedIds s.log) →
    (∀ e ∈ es, s.completed.get (req e).id = none) →
    ∃ s', exec (step P) s (handleEach answers now t s.calls.length es) = some s' ∧ s'.Coherent ∧
      s'.dedupe.capacity = s.dedupe.capacity ∧
      s'.calls = s.calls ++ es.map (fun e => Call.mk (req e) .returned) ∧
      claimedIds s'.log = claimedIds s.log ++ es.map (fun e => (req e).id) ∧
      (∀ id, (s'.completed.get id).isSome = true →
        (s.completed.get id).isSome = true ∨ id ∈ es.map fun e => (req e).id) ∧
      s'.completed.capacity = s.completed.capacity ∧
      (s.completed.order.length + es.length ≤ s.completed.capacity →
        s'.completed.order = s.completed.order ++ es.map fun e => (req e).id) ∧
      ∀ m, Visits (step P) s (handleEach answers now t s.calls.length es) m →
        m.inProgress ≤ s.inProgress + 1
  | [], s, hc, _, _, _, _, _ => by
    refine ⟨s, rfl, hc, rfl, by simp, by simp, fun id h => Or.inl h, rfl, fun _ => by simp, ?_⟩
    intro m hm
    rw [visits_nil_iff.mp hm]
    exact Nat.le_succ _
  | e :: es, s, hc, hparse, hresult, hnodup, hnew, hget => by
    obtain ⟨event, hevent⟩ := hresult e (List.mem_cons_self ..)
    rw [List.map_cons, List.nodup_cons] at hnodup
    obtain ⟨hfirst, hc₁, hvisits⟩ := handled_run hc (hparse e (List.mem_cons_self ..)) hevent
      (hnew e (List.mem_cons_self ..)) (hget e (List.mem_cons_self ..))
    have hcapacity : (s.handled (req e) event 3).dedupe.capacity = s.dedupe.capacity :=
      handled_capacity hc (hnew e (List.mem_cons_self ..))
    obtain ⟨s₁, hs₁⟩ : ∃ s₁, s₁ = s.handled (req e) event 3 := ⟨_, rfl⟩
    obtain ⟨hcalls, hbusy, hlog, hinsert⟩ := handled_returned hs₁
    rw [← hs₁] at hfirst hc₁ hcapacity
    have hlen : s₁.calls.length = s.calls.length + 1 := by
      rw [hcalls, List.length_append, List.length_singleton]
    -- the others are as new to the handler as they were
    have hnew₁ : ∀ e' ∈ es, (req e').id ∉ claimedIds s₁.log := by
      intro e' he' hmem
      rw [hlog, List.mem_append, List.mem_singleton] at hmem
      rcases hmem with hmem | heq
      · exact hnew e' (List.mem_cons_of_mem _ he') hmem
      · exact hnodup.1 (List.mem_map.mpr ⟨e', he', heq⟩)
    have hget₁ : ∀ e' ∈ es, s₁.completed.get (req e').id = none := by
      intro e' he'
      rw [← Option.not_isSome_iff_eq_none, hinsert]
      intro hsome
      rcases hc.ordered.get_insert_isSome hsome with hold | heq
      · rw [hget e' (List.mem_cons_of_mem _ he')] at hold
        cases hold
      · exact hnodup.1 (List.mem_map.mpr ⟨e', he', heq⟩)
    obtain ⟨s', hrun, hc', hcap', hcalls', hlog', hcompleted', hbound', horder', hvisits'⟩ :=
      handleEach_run es hc₁
      (fun e' he' => hparse e' (List.mem_cons_of_mem _ he'))
      (fun e' he' => hresult e' (List.mem_cons_of_mem _ he')) hnodup.2 hnew₁ hget₁
    have hbound : s₁.completed.capacity = s.completed.capacity := by
      rw [hinsert, CompletedResults.capacity_insert]
    have hsplit : handleEach answers now t s.calls.length (e :: es) =
        [.deliver e now, .claim s.calls.length, .complete s.calls.length answers t,
          .remember s.calls.length] ++ handleEach answers now t s₁.calls.length es := by
      rw [hlen]
      rfl
    rw [hsplit]
    refine ⟨s', ?_, hc', hcap'.trans hcapacity, ?_, ?_, ?_, hbound'.trans hbound, ?_, ?_⟩
    · rw [exec_append, hfirst]
      exact hrun
    · rw [hcalls', hcalls, List.map_cons, List.append_assoc]; rfl
    · rw [hlog', hlog, List.map_cons, List.append_assoc]; rfl
    · intro id hsome
      rw [List.map_cons, List.mem_cons]
      rcases hcompleted' id hsome with hold | hmem
      · rw [hinsert] at hold
        rcases hc.ordered.get_insert_isSome hold with hold | rfl
        · exact Or.inl hold
        · exact Or.inr (Or.inl rfl)
      · exact Or.inr (Or.inr hmem)
    · intro hroom
      rw [List.length_cons] at hroom
      have horder : s₁.completed.order = s.completed.order ++ [(req e).id] := by
        rw [hinsert]
        exact hc.ordered.order_insert (hget e (List.mem_cons_self ..)) (by omega)
      have hlength : s₁.completed.order.length = s.completed.order.length + 1 := by
        rw [horder, List.length_append, List.length_singleton]
      rw [horder' (by rw [hlength, hbound]; omega), horder, List.map_cons, List.append_assoc]
      rfl
    · intro m hm
      rcases visits_append hm with hm | ⟨m₁, hm₁, hm⟩
      · exact hvisits m hm
      · obtain rfl := Option.some.inj (hfirst.symm.trans hm₁)
        rw [← hbusy]
        exact hvisits' m hm

/-- A request that is still processed when `es` were handled after it. -/
def floodLabels (now t : ℕ) (answers : Answers) (first : Event) (es : List Event) : List Label :=
  .deliver first now :: .claim 0 :: handleEach answers now t 1 es

section
variable {req : Event → JobRequest} {first : Event} {es : List Event}

/-- When as many requests were handled as the stores can hold, both stores hold these and nothing else. -/
theorem after_flood (hes : es ≠ []) (hfirst : parseRequestEvent P.L first now = .ok request)
    (hparse : ∀ e ∈ es, parseRequestEvent P.L e now = .ok (req e))
    (hresult : ∀ e ∈ es, ∃ event, handleClaimed P (req e) answers t = .ok event)
    (hnodup : (request.id :: es.map fun e => (req e).id).Nodup) :
    ∃ s, exec (step P) (new es.length) (floodLabels now t answers first es) = some s ∧
      s.Coherent ∧ s.calls = ⟨request, .processing⟩ :: es.map (fun e => Call.mk (req e) .returned) ∧
      s.dedupe.order = es.map (fun e => (req e).id) ∧
      s.completed.capacity = es.length ∧ s.completed.order = es.map (fun e => (req e).id) ∧
      s.inProgress = 1 ∧
      ∀ m, Visits (step P) (new es.length) (floodLabels now t answers first es) m →
        m.inProgress ≤ 2 := by
  have hlength : 0 < es.length := List.length_pos_iff.mpr hes
  obtain ⟨hfirstNew, hnodup⟩ := List.nodup_cons.mp hnodup
  have h₀ : step P (new es.length) (.deliver first now) =
      some ((new es.length).handled request first 0) := step_deliver hfirst rfl
  have h₁ : step P ((new es.length).handled request first 0) (.claim 0) =
      some ((new es.length).handled request first 1) := step_claim (Finset.notMem_empty _)
  have hc₁ := coherent_moves (coherent_moves (coherent_new hlength) (moves_of_step h₀))
    (moves_of_step h₁)
  have hnew : ∀ e ∈ es, (req e).id ∉ [request.id] := by
    intro e he hmem
    rw [List.mem_singleton] at hmem
    exact hfirstNew (List.mem_map.mpr ⟨e, he, hmem⟩)
  obtain ⟨s, hrun, hc, hcapacity, hcalls, hlog, -, hbound, horder, hvisits⟩ :=
    handleEach_run es hc₁ hparse hresult hnodup hnew fun _ _ => rfl
  have hrun : exec (step P) ((new es.length).handled request first 1)
      (handleEach answers now t 1 es) = some s := hrun
  have hcalls : s.calls = ⟨request, .processing⟩ :: es.map fun e => Call.mk (req e) .returned :=
    hcalls
  -- the window of the claims holds the flood only
  have hdedupe : s.dedupe.order = es.map fun e => (req e).id := by
    have hcapacity : s.dedupe.capacity = es.length := by
      rw [hcapacity]
      have hempty : request.id ∉ (RequestDeduplicator.new es.length).ids := Finset.notMem_empty _
      obtain ⟨d, hd, hcap, -⟩ :=
        (RequestDeduplicator.tracks_new hlength).claim_of_not_mem hempty
      exact (congrArg (fun x => x.2.capacity) hd).trans hcap
    have hle : es.length ≤ (es.map fun e => (req e).id).length := by rw [List.length_map]
    rw [hc.tracks.order, hcapacity, hlog, window_append_of_le _ hle, window, List.length_map,
      Nat.sub_self, List.drop_zero]
  have hcompleted : s.completed.order = es.map fun e => (req e).id :=
    horder (Nat.le_of_eq (Nat.zero_add es.length))
  have hone : s.inProgress = 1 := by
    have hzero : (es.map fun e => Call.mk (req e) .returned).countP
        (fun c => c.phase ≠ .returned) = 0 := by
      rw [List.countP_eq_zero]
      intro c hmem
      obtain ⟨e, -, rfl⟩ := List.mem_map.mp hmem
      simp
    rw [inProgress, hcalls, List.countP_cons, hzero]
    rfl
  refine ⟨s, ?_, hc, hcalls, hdedupe, hbound, hcompleted, hone, ?_⟩
  · rw [floodLabels, exec, h₀, Option.bind_some, exec, h₁, Option.bind_some]
    exact hrun
  · intro m hm
    rcases visits_cons_iff.mp hm with rfl | ⟨m₀, hm₀, hm⟩
    · exact Nat.zero_le _
    obtain rfl := Option.some.inj (h₀.symm.trans hm₀)
    rcases visits_cons_iff.mp hm with rfl | ⟨m₁, hm₁, hm⟩
    · exact Nat.le_succ_of_le (inProgress_handled 0)
    obtain rfl := Option.some.inj (h₁.symm.trans hm₁)
    exact hvisits m hm

/-- As many further requests as the claim set can hold, handled one after the other while a request
    is processed, make the handler process that request a second time. -/
theorem processed_twice_after_flood (hes : es ≠ [])
    (hfirst : parseRequestEvent P.L first now = .ok request)
    (hparse : ∀ e ∈ es, parseRequestEvent P.L e now = .ok (req e))
    (hresult : ∀ e ∈ es, ∃ event, handleClaimed P (req e) answers t = .ok event)
    (hnodup : (request.id :: es.map fun e => (req e).id).Nodup) :
    ∃ ls s, exec (step P) (new es.length) ls = some s ∧
      (∀ m, Visits (step P) (new es.length) ls m → m.inProgress ≤ 2) ∧
      s.calls[0]? = some ⟨request, .processing⟩ ∧
      s.calls[es.length + 1]? = some ⟨request, .processing⟩ := by
  obtain ⟨s, hrun, hc, hcalls, hdedupe, -, hcompleted, hone, hvisits⟩ :=
    after_flood hes hfirst hparse hresult hnodup
  obtain ⟨hfirstNew, -⟩ := List.nodup_cons.mp hnodup
  have hid : request.id ∉ s.dedupe.ids := by
    rw [hc.tracks.mem_ids, hdedupe]
    exact hfirstNew
  have hget : s.completed.get request.id = none := by
    rw [← Option.not_isSome_iff_eq_none, CompletedResults.get_isSome_iff hc.ordered, hcompleted]
    exact hfirstNew
  have h₃ : step P s (.deliver first now) = some (s.handled request first 0) :=
    step_deliver hfirst hget
  have h₄ : step P _ (.claim s.calls.length) = some (s.handled request first 1) := step_claim hid
  refine ⟨floodLabels now t answers first es ++ [.deliver first now, .claim s.calls.length],
    s.handled request first 1, ?_, ?_, ?_, ?_⟩
  · rw [exec_append, hrun, Option.bind_some, exec, h₃, Option.bind_some, exec, h₄]
    rfl
  · intro m hm
    rcases visits_append hm with hm | ⟨m₂, hm₂, hm⟩
    · exact hvisits m hm
    obtain rfl := Option.some.inj (hrun.symm.trans hm₂)
    rcases visits_cons_iff.mp hm with rfl | ⟨m₃, hm₃, hm⟩
    · rw [hone]
      exact Nat.le_succ _
    obtain rfl := Option.some.inj (h₃.symm.trans hm₃)
    have htwo : ∀ k, (s.handled request first k).inProgress ≤ 2 := by
      intro k
      have h : (s.handled request first k).inProgress ≤ s.inProgress + 1 := inProgress_handled k
      rw [hone] at h
      exact h
    rcases visits_cons_iff.mp hm with rfl | ⟨m₄, hm₄, hm⟩
    · exact htwo 0
    obtain rfl := Option.some.inj (h₄.symm.trans hm₄)
    rw [visits_nil_iff.mp hm]
    exact htwo 1
  · change (s.calls ++ [⟨request, .processing⟩])[0]? = _
    rw [hcalls]
    rfl
  · have hlen : s.calls.length = es.length + 1 := by
      rw [hcalls, List.length_cons, List.length_map]
    rw [← hlen]
    exact getElem?_addCall

end

/-! ### A provider of capacity 64 -/

/-- Sixty-four further requests, like the signed one but for their ids. Any other authentic requests
    would do. -/
def floodEvents : List Event :=
  (List.range 64).map fun k => { goldenRequest with id := (FeltHex.hex64 k).reverse }

/-- A provider for which these requests are the authentic events. -/
noncomputable def floodSetup : Setup where
  L := exactLibraries (goldenRequest :: floodEvents) fun _ => none
  U := ⟨fun _ => none, fun _ _ => none, fun _ => []⟩
  base := ⟨text "https", [], none, some (.domain (text "proofs.example")), none, ['/'], none, none⟩
  keys := ⟨text "c6047f9441ed7d6d3045406e95c07cd85c778e4b8cef3ca7abac09b95c709ee5",
    fun t kind content tags => some ⟨[], [], t, kind, tags, content, []⟩⟩

/-- The request that an event like the signed one stands for. -/
def floodJob (e : Event) : JobRequest := requestOf e goldenContent (some 21)

theorem floodSetup_parse {e : Event} (h : e ∈ goldenRequest :: floodEvents) :
    parseRequestEvent floodSetup.L e 1900000005 = .ok (floodJob e) := by
  have hverify : floodSetup.L.verify e = true := exactLibraries_verify.mpr h
  refine (parseRequestEvent_eq_ok (exactLibraries_lawful _ _)).mpr
    ⟨goldenContent, some 21, hverify, ?_, rfl⟩
  rcases List.mem_cons.mp h with rfl | h
  · exact goldenRequest_form
  · obtain ⟨k, -, rfl⟩ := List.mem_map.mp h
    exact ⟨rfl, goldenRequest_form.fits, goldenRequest_form.size, goldenRequest_form.notFuture,
      goldenRequest_form.notOld, goldenRequest_form.valid, rfl, goldenRequest_form.bidOk, rfl⟩

/-- A busy provider answers with an error result. -/
theorem floodSetup_busy {e : Event} (hid : e.id.length = 64) :
    ∃ event, handleClaimed floodSetup (floodJob e) busyAnswers 1900000006 = .ok event := by
  have hsize : utf8Len (JobResultContent.newError (floodJob e).id .busy
      ProcessingError.busy.publicMessage).toText ≤ maxResultBytes := errorResult_fits hid _ _
  exact ⟨_, signResult_eq_ok.mpr ⟨hsize, rfl⟩⟩

/-- While one request is processed, sixty-four others make a provider of that capacity process it
    once more, with never more than two calls in progress. -/
theorem flood_defeats_suppression : ∃ ls s,
    exec (step floodSetup) (new 64) ls = some s ∧
      (∀ m, Visits (step floodSetup) (new 64) ls m → m.inProgress ≤ 2) ∧
      s.calls[0]? = some ⟨goldenJob, .processing⟩ ∧
      s.calls[65]? = some ⟨goldenJob, .processing⟩ ∧ ¬ s.Suppressed := by
  have hlen : ∀ e ∈ floodEvents, e.id.length = 64 := by decide +kernel
  have hids : (goldenJob.id :: floodEvents.map fun e => (floodJob e).id).Nodup := by
    decide +kernel
  have hlength : floodEvents.length = 64 := rfl
  obtain ⟨ls, s, hrun, hbusy, hfirst, hsecond⟩ := processed_twice_after_flood (P := floodSetup)
    (by decide : floodEvents ≠ []) (floodSetup_parse (List.mem_cons_self ..))
    (fun e he => floodSetup_parse (List.mem_cons_of_mem _ he))
    (fun e he => floodSetup_busy (hlen e he)) hids
  rw [hlength] at hrun hbusy hsecond
  refine ⟨ls, s, hrun, hbusy, hfirst, hsecond, ?_⟩
  intro h
  exact absurd (h.alone 0 65 _ _ hfirst hsecond rfl) (by decide)

/-- In a short run of that provider nothing is evicted, and duplicates are suppressed. -/
theorem golden_suppressed : ∃ s, exec (step floodSetup) (new 64)
    [.deliver goldenRequest 1900000005, .claim 0, .deliver goldenRequest 1900000005] = some s ∧
      s.Suppressed := by
  have hparse : parseRequestEvent floodSetup.L goldenRequest 1900000005 = .ok goldenJob :=
    floodSetup_parse (List.mem_cons_self ..)
  have h₀ : step floodSetup (new 64) (.deliver goldenRequest 1900000005) =
      some ((new 64).handled goldenJob goldenRequest 0) := step_deliver hparse rfl
  have h₁ : step floodSetup ((new 64).handled goldenJob goldenRequest 0) (.claim 0) =
      some ((new 64).handled goldenJob goldenRequest 1) := step_claim (Finset.notMem_empty _)
  obtain ⟨s, h₂⟩ : ∃ s, step floodSetup ((new 64).handled goldenJob goldenRequest 1)
      (.deliver goldenRequest 1900000005) = some s :=
    ⟨((new 64).handled goldenJob goldenRequest 1).handled goldenJob goldenRequest 0,
      step_deliver hparse rfl⟩
  have hrun : exec (step floodSetup) (new 64)
      [.deliver goldenRequest 1900000005, .claim 0, .deliver goldenRequest 1900000005] = some s := by
    rw [exec_cons h₀, exec_cons h₁, exec_cons h₂, exec_nil]
  refine ⟨s, hrun, (inflight_suppressed_iff floodSetup (by decide) _).mpr ?_ _ (Visits.last hrun)⟩
  intro s l s' ht
  rcases takes_cons ht with ⟨rfl, rfl, -⟩ | ⟨m, hm, ht⟩
  · trivial
  obtain rfl := Option.some.inj (h₀.symm.trans hm)
  rcases takes_cons ht with ⟨rfl, rfl, -⟩ | ⟨m, -, ht⟩
  · rintro request - -
    refine ⟨fun id _ hev => ?_, rfl⟩
    have hnone : ((new 64).handled goldenJob goldenRequest 0).dedupe.evicted = none := rfl
    rw [hnone] at hev
    cases hev
  rcases takes_cons ht with ⟨rfl, rfl, -⟩ | ⟨_, -, ht⟩
  · trivial
  · exact absurd ht not_takes_nil

end SoulSociety.Provider.SignedJobHandler
