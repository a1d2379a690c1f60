import SoulSociety.Provider.HandlerRuns

/-! Handling at most once. The claim set admits a request again only after as many other claims as it
    can hold, so as long as the ids in play fit, a request is processed once and every answer to it
    is the same signed event. -/

namespace SoulSociety.Provider.SignedJobHandler
open Lib SoulSociety.Core

variable {P : Setup} {s s' : SignedJobHandler} {l : Label} {capacity : ℕ} {ls : List Label}

/-- A step only adds to what was seen. -/
theorem log_moves (hm : Moves P s l s') : ∃ seen, s'.log = s.log ++ seen := by
  cases hm with
  | rejected => exact ⟨[], (List.append_nil _).symm⟩
  | _ => exact ⟨_, rfl⟩

theorem capacity_visits (hs : Visits (step P) (new capacity) ls s) :
    s.dedupe.capacity = capacity := by
  refine hs.invariant (I := fun m => m.dedupe.capacity = capacity) rfl ?_
  intro m l m' ht hm
  have hmoves := moves_of_step ht.enabled
  cases hmoves with
  | @claimed i request hcall hid =>
    rw [← hm]
    simp only [RequestDeduplicator.claim, if_neg hid]
  | _ => exact hm

/-- The ids of the calls and of the claims are ids of requests that the run met. -/
structure Known (s : SignedJobHandler) : Prop where
  call : ∀ c ∈ s.calls, c.request.id ∈ deliveredIds s.log
  claim : ∀ id ∈ claimedIds s.log, id ∈ deliveredIds s.log

theorem known_moves (h : s.Known) (hm : Moves P s l s') : s'.Known := by
  have hset : ∀ {i : ℕ} {request : JobRequest} {old new : Phase},
      s.calls[i]? = some ⟨request, old⟩ → ∀ c ∈ s.calls.set i ⟨request, new⟩,
        c.request.id ∈ deliveredIds s.log := by
    intro i request old new hcall c hc
    rcases List.mem_or_eq_of_mem_set hc with hc | rfl
    · exact h.call c hc
    · exact h.call ⟨request, old⟩ (List.mem_of_getElem? hcall)
  cases hm with
  | rejected => exact h
  | replayed hparse hget =>
    refine ⟨fun c hc => ?_, fun id hid => ?_⟩
    · rw [deliveredIds_append]
      exact List.mem_append_left _ (h.call c hc)
    · rw [claimedIds_append] at hid
      rw [deliveredIds_append]
      exact List.mem_append_left _ (h.claim id (by simpa [claimedIds] using hid))
  | @lookedUp event now request hparse hget =>
    refine ⟨fun c hc => ?_, fun id hid => ?_⟩
    · rw [deliveredIds_append]
      rcases List.mem_append.mp hc with hc | hc
      · exact List.mem_append_left _ (h.call c hc)
      · rw [List.mem_singleton.mp hc]
        exact List.mem_append_right _ (List.mem_singleton_self _)
    · rw [claimedIds_append] at hid
      rw [deliveredIds_append]
      exact List.mem_append_left _ (h.claim id (by simpa [claimedIds] using hid))
  | claimed hcall hid =>
    refine ⟨fun c hc => ?_, fun id hmem => ?_⟩
    · rw [setCall_log, deliveredIds_append]
      exact List.mem_append_left _ (hset hcall c hc)
    · rw [setCall_log, claimedIds_append] at hmem
      rw [setCall_log, deliveredIds_append]
      refine List.mem_append_left _ ?_
      rcases List.mem_append.mp hmem with hmem | hmem
      · exact h.claim id hmem
      · rw [List.mem_singleton.mp hmem]
        exact h.call _ (List.mem_of_getElem? hcall)
  | duplicate hcall _ | failed hcall _ | signed hcall _ | remembered hcall =>
    refine ⟨fun c hc => ?_, fun id hid => ?_⟩
    · rw [setCall_log, deliveredIds_append]
      exact List.mem_append_left _ (hset hcall c hc)
    · rw [setCall_log, claimedIds_append] at hid
      rw [setCall_log, deliveredIds_append]
      exact List.mem_append_left _ (h.claim id (by simpa [claimedIds] using hid))

theorem known_new : (new capacity).Known := by
  refine ⟨?_, ?_⟩
  · intro c hc
    cases hc
  · intro id hid
    cases hid

theorem known_visits (hs : Visits (step P) (new capacity) ls s) : s.Known :=
  hs.invariant known_new fun _ _ _ ht hm => known_moves hm (moves_of_step ht.enabled)

/-- `e` is the answer to `id`: signed, in the replay cache, or returned. -/
inductive Answer (s : SignedJobHandler) (id : Text) (e : Event) : Prop
  | signed {i : ℕ} {request : JobRequest} (hcall : s.calls[i]? = some ⟨request, .signed e⟩)
      (hid : request.id = id)
  | completed (hmem : (id, e) ∈ s.completed.events)
  | returned (hmem : .returned id (some e) ∈ s.log)

/-- A request is being processed once or answered in one way, and only after a claim. -/
structure Once (s : SignedJobHandler) : Prop where
  answer : ∀ id e e', s.Answer id e → s.Answer id e' → e = e'
  alone : ∀ (i j : ℕ) (request request' : JobRequest), s.calls[i]? = some ⟨request, .processing⟩ →
    s.calls[j]? = some ⟨request', .processing⟩ → request.id = request'.id → i = j
  pending : ∀ id e, s.Processing id → ¬ s.Answer id e
  claimedAnswer : ∀ id e, s.Answer id e → id ∈ claimedIds s.log
  claimedProcessing : ∀ id, s.Processing id → id ∈ claimedIds s.log

theorem once_new : (new capacity).Once := by
  have hanswer : ∀ id e, ¬ (new capacity).Answer id e := by
    rintro id e (⟨hcall, -⟩ | hmem | hmem)
    · cases hcall
    · cases hmem
    · cases hmem
  have hprocessing : ∀ id, ¬ (new capacity).Processing id := by
    rintro id ⟨_, _, hcall, -⟩
    cases hcall
  refine ⟨fun id e _ h => absurd h (hanswer id e), ?_, fun id _ h => absurd h (hprocessing id),
    fun id e h => absurd h (hanswer id e), fun id h => absurd h (hprocessing id)⟩
  intro i _ _ _ hi
  cases hi

/-- With no new answer, processing call or claim, nothing is lost. -/
theorem Once.of_fewer (h : s.Once) (hanswer : ∀ id e, s'.Answer id e → s.Answer id e)
    (hcalls : ∀ (i : ℕ) (request : JobRequest), s'.calls[i]? = some ⟨request, .processing⟩ →
      s.calls[i]? = some ⟨request, .processing⟩)
    (hlog : claimedIds s'.log = claimedIds s.log) : s'.Once := by
  have hprocessing : ∀ id, s'.Processing id → s.Processing id := by
    rintro id ⟨i, request, hi, rfl⟩
    exact ⟨i, request, hcalls i request hi, rfl⟩
  refine ⟨fun id e e' he he' => h.answer id e e' (hanswer id e he) (hanswer id e' he'), ?_, ?_, ?_, ?_⟩
  · intro i j request request' hi hj hid
    exact h.alone i j request request' (hcalls i _ hi) (hcalls j _ hj) hid
  · intro id e hp he
    exact h.pending id e (hprocessing id hp) (hanswer id e he)
  · intro id e he
    rw [hlog]
    exact h.claimedAnswer id e (hanswer id e he)
  · intro id hp
    rw [hlog]
    exact h.claimedProcessing id (hprocessing id hp)

/-- Where the cache is as before and the seen returns nothing, an answer is the signed event of the
    call that moved, or was an answer before. -/
theorem answer_set_call {i : ℕ} {old : Call} {request : JobRequest} {phase : Phase}
    (hcall : s.calls[i]? = some old) {dedupe : RequestDeduplicator} {seen : List Observation}
    (hseen : ∀ id e, .returned id (some e) ∉ seen) {id : Text} {e : Event}
    (h : Answer ⟨dedupe, s.completed, s.calls.set i ⟨request, phase⟩, s.log ++ seen⟩ id e) :
    phase = .signed e ∧ request.id = id ∨ s.Answer id e := by
  rcases h with ⟨hj, hid⟩ | hmem | hmem
  · rcases (getElem?_set_call hcall).mp hj with ⟨-, rfl, hphase⟩ | ⟨-, hj⟩
    · exact Or.inl ⟨hphase, hid⟩
    · exact Or.inr (.signed hj hid)
  · exact Or.inr (.completed hmem)
  · rcases List.mem_append.mp hmem with hmem | hmem
    · exact Or.inr (.returned hmem)
    · exact absurd hmem (hseen id e)

/-- A call that was being processed and is signed: its request has its answer now. -/
theorem Once.signed {i : ℕ} {request : JobRequest} {event : Event} (h : s.Once)
    (hcall : s.calls[i]? = some ⟨request, .processing⟩) :
    (s.setCall i request (.signed event) []).Once := by
  have hwas : s.Processing request.id := ⟨i, request, hcall, rfl⟩
  have hfewer : ∀ {j : ℕ} {r : JobRequest},
      (s.calls.set i ⟨request, .signed event⟩)[j]? = some ⟨r, .processing⟩ →
        i ≠ j ∧ s.calls[j]? = some ⟨r, .processing⟩ := by
    intro j r hj
    rcases (getElem?_set_call hcall).mp hj with ⟨-, -, hphase⟩ | hj
    · cases hphase
    · exact hj
  have hnew : ∀ {id e}, (s.setCall i request (.signed event) []).Answer id e →
      event = e ∧ request.id = id ∨ s.Answer id e := by
    intro id e he
    rcases answer_set_call hcall (by simp) he with ⟨hphase, hid⟩ | he
    · cases hphase
      exact Or.inl ⟨rfl, hid⟩
    · exact Or.inr he
  have hlog : claimedIds (s.setCall i request (.signed event) []).log = claimedIds s.log := by
    simp [claimedIds]
  refine ⟨?_, ?_, ?_, ?_, ?_⟩
  · intro id e e' he he'
    rcases hnew he with ⟨rfl, rfl⟩ | he
    · rcases hnew he' with ⟨rfl, -⟩ | he'
      · rfl
      · exact absurd he' (h.pending _ _ hwas)
    · rcases hnew he' with ⟨rfl, rfl⟩ | he'
      · exact absurd he (h.pending _ _ hwas)
      · exact h.answer id e e' he he'
  · intro j k r r' hj hk hid
    exact h.alone j k r r' (hfewer hj).2 (hfewer hk).2 hid
  · rintro _ e ⟨j, r, hj, rfl⟩ he
    obtain ⟨hne, hj⟩ := hfewer hj
    rcases hnew he with ⟨-, hid⟩ | he
    · exact hne (h.alone i j request r hcall hj hid)
    · exact h.pending _ _ ⟨j, r, hj, rfl⟩ he
  · intro id e he
    rw [hlog]
    rcases hnew he with ⟨-, rfl⟩ | he
    · exact h.claimedProcessing _ hwas
    · exact h.claimedAnswer id e he
  · rintro _ ⟨j, r, hj, rfl⟩
    rw [hlog]
    exact h.claimedProcessing _ ⟨j, r, (hfewer hj).2, rfl⟩

/-- A call with an id that was never claimed starts to process. -/
theorem Once.claimed {i : ℕ} {request : JobRequest} {old : Call} {dedupe : RequestDeduplicator}
    (h : s.Once) (hcall : s.calls[i]? = some old) (hfresh : request.id ∉ claimedIds s.log) :
    Once ⟨dedupe, s.completed, s.calls.set i ⟨request, .processing⟩,
      s.log ++ [.claimed request.id]⟩ := by
  have hlog : claimedIds (s.log ++ [Observation.claimed request.id]) =
      claimedIds s.log ++ [request.id] := claimedIds_append _ _
  have hnew : ∀ {id e}, Answer ⟨dedupe, s.completed, s.calls.set i ⟨request, .processing⟩,
      s.log ++ [.claimed request.id]⟩ id e → s.Answer id e := by
    intro id e he
    rcases answer_set_call hcall (by simp) he with ⟨hphase, -⟩ | he
    · cases hphase
    · exact he
  refine ⟨fun id e e' he he' => h.answer id e e' (hnew he) (hnew he'), ?_, ?_, ?_, ?_⟩
  · intro j k r r' hj hk heq
    rcases processing_of_claim hcall hj with ⟨rfl, rfl⟩ | hj
    · rcases processing_of_claim hcall hk with ⟨rfl, rfl⟩ | hk
      · rfl
      · exact absurd (heq ▸ h.claimedProcessing _ ⟨k, r', hk, rfl⟩) hfresh
    · rcases processing_of_claim hcall hk with ⟨rfl, rfl⟩ | hk
      · exact absurd (heq ▸ h.claimedProcessing _ ⟨j, r, hj, rfl⟩) hfresh
      · exact h.alone j k r r' hj hk heq
  · rintro _ e ⟨j, r, hj, rfl⟩ he
    rcases processing_of_claim hcall hj with ⟨rfl, rfl⟩ | hj
    · exact hfresh (h.claimedAnswer _ e (hnew he))
    · exact h.pending _ e ⟨j, r, hj, rfl⟩ (hnew he)
  · intro id e he
    rw [hlog]
    exact List.mem_append_left _ (h.claimedAnswer id e (hnew he))
  · rintro _ ⟨j, r, hj, rfl⟩
    rw [hlog]
    rcases processing_of_claim hcall hj with ⟨rfl, rfl⟩ | hj
    · exact List.mem_append_right _ (List.mem_singleton_self _)
    · exact List.mem_append_left _ (h.claimedProcessing _ ⟨j, r, hj, rfl⟩)

theorem once_moves (hc : s.Coherent) (h : s.Once) (hnd : (claimedIds s'.log).Nodup)
    (hm : Moves P s l s') : s'.Once := by
  cases hm with
  | rejected => exact h
  | replayed hparse hget =>
    refine h.of_fewer ?_ (fun _ _ hi => hi) (by simp [claimedIds])
    rintro id e (⟨hj, hid⟩ | hmem | hmem)
    · exact .signed hj hid
    · exact .completed hmem
    · rcases List.mem_append.mp hmem with hmem | hmem
      · exact .returned hmem
      · -- what is replayed was in the cache
        simp only [List.mem_cons, reduceCtorEq, List.not_mem_nil, or_false, false_or,
          Observation.returned.injEq, Option.some.injEq] at hmem
        obtain ⟨rfl, rfl⟩ := hmem
        exact .completed (mem_of_lookup hget)
  | lookedUp hparse hget =>
    refine h.of_fewer ?_ (fun _ _ hi => (processing_append (by simp)).mp hi) (by simp [claimedIds])
    rintro id e (⟨hj, hid⟩ | hmem | hmem)
    · rcases getElem?_append_call hj with hj | hj
      · exact .signed hj hid
      · cases hj
    · exact .completed hmem
    · rcases List.mem_append.mp hmem with hmem | hmem
      · exact .returned hmem
      · cases List.mem_singleton.mp hmem
  | duplicate hcall hid =>
    refine h.of_fewer ?_ (fun _ _ hi => processing_set_call hcall (by simp) hi) (by simp [claimedIds])
    intro id e he
    rcases answer_set_call hcall (by simp) he with ⟨hphase, -⟩ | he
    · cases hphase
    · exact he
  | failed hcall hresult =>
    refine h.of_fewer ?_ (fun _ _ hi => processing_set_call hcall (by simp) hi) (by simp [claimedIds])
    intro id e he
    rcases answer_set_call hcall (by simp) he with ⟨hphase, -⟩ | he
    · cases hphase
    · exact he
  | @remembered i request event hcall =>
    refine h.of_fewer ?_ (fun _ _ hi => processing_set_call hcall (by simp) hi) (by simp [claimedIds])
    rintro id e (⟨hj, hid⟩ | hmem | hmem)
    · rcases (getElem?_set_call hcall).mp hj with ⟨-, -, hphase⟩ | ⟨-, hj⟩
      · cases hphase
      · exact .signed hj hid
    · rcases hc.ordered.mem_insert hmem with hmem | hmem
      · exact .completed hmem
      · cases hmem
        exact .signed hcall rfl
    · rcases List.mem_append.mp hmem with hmem | hmem
      · exact .returned hmem
      · cases List.mem_singleton.mp hmem
        exact .signed hcall rfl
  | signed hcall hresult => exact h.signed hcall
  | @claimed i request hcall hid =>
    have hlog : claimedIds (s.log ++ [Observation.claimed request.id]) =
        claimedIds s.log ++ [request.id] := claimedIds_append _ _
    -- claims are not repeated, so the id has no answer and is not being processed
    refine h.claimed hcall fun hmem => ?_
    rw [setCall_log, hlog, List.nodup_append] at hnd
    exact hnd.2.2 _ hmem _ (List.mem_singleton_self _) rfl

/-- Between two claims of an id, each of which starts a processing, at least `capacity` other ids are
    claimed. As long as no more than `capacity` ids occur, each is processed at most once and has one
    answer. -/
theorem handled_exactly_once (P : Setup) (h : 0 < capacity)
    (hs : exec (step P) (new capacity) ls = some s) :
    (∀ pre mid post id, s.log = pre ++ .claimed id :: mid ++ .claimed id :: post →
      capacity ≤ ((claimedIds mid).toFinset.erase id).card) ∧
    ((deliveredIds s.log).toFinset.card ≤ capacity →
      (∀ id, (claimedIds s.log).count id ≤ 1) ∧
      ∀ id e e', .returned id (some e) ∈ s.log → .returned id (some e') ∈ s.log → e = e') := by
  have hvisits : Visits (step P) (new capacity) ls s := Visits.last hs
  have hcapacity := capacity_visits hvisits
  have hfresh : Fresh capacity (claimedIds s.log) := by
    rw [← hcapacity]
    exact (coherent_visits h hvisits).tracks.fresh
  refine ⟨?_, ?_⟩
  · intro pre mid post id hlog
    have hclaims : claimedIds s.log =
        claimedIds pre ++ id :: claimedIds mid ++ id :: claimedIds post := by
      rw [hlog, claimedIds_append, claimedIds_append]; rfl
    rw [hclaims] at hfresh
    exact hfresh.card_between
  · intro hfew
    have hknown : s.Known := known_visits hvisits
    have hnd : (claimedIds s.log).Nodup := by
      refine hfresh.nodup_of_card_le (le_trans (Finset.card_le_card ?_) hfew)
      intro id hid
      rw [List.mem_toFinset] at hid ⊢
      exact hknown.claim id hid
    have honce : s.Coherent ∧ ((claimedIds s.log).Nodup → s.Once) := by
      refine hvisits.invariant (I := fun m => m.Coherent ∧ ((claimedIds m.log).Nodup → m.Once))
        ⟨coherent_new h, fun _ => once_new⟩ ?_
      rintro m l m' ht ⟨hc, ho⟩
      have hm := moves_of_step ht.enabled
      refine ⟨coherent_moves hc hm, fun hnd' => once_moves hc (ho ?_) hnd' hm⟩
      obtain ⟨seen, hseen⟩ := log_moves hm
      rw [hseen, claimedIds_append] at hnd'
      exact hnd'.of_append_left
    refine ⟨fun id => List.nodup_iff_count_le_one.mp hnd id, ?_⟩
    intro id e e' he he'
    exact (honce.2 hnd).answer id e e' (.returned he) (.returned he')

/-- The signed request reaches a busy provider, once more before it is answered, and again later. -/
def duplicateDeliveries : List Label :=
  [.deliver goldenRequest 1900000005, .claim 0, .deliver goldenRequest 1900000005, .claim 1,
    .complete 0 busyAnswers 1900000006, .remember 0, .deliver goldenRequest 1900000005]

theorem duplicates_run {event : Event}
    (hresult : handleClaimed floodSetup goldenJob busyAnswers 1900000006 = .ok event) :
    ∃ s, exec (step floodSetup) (new 64) duplicateDeliveries = some s ∧
      s.log = [.delivered goldenJob.id, .claimed goldenJob.id, .delivered goldenJob.id,
        .returned goldenJob.id none, .returned goldenJob.id (some event), .delivered goldenJob.id,
        .returned goldenJob.id (some event)] := by
  have hparse : parseRequestEvent floodSetup.L goldenRequest 1900000005 = .ok goldenJob :=
    floodSetup_parse (List.mem_cons_self ..)
  have h₀ : step floodSetup (new 64) (.deliver goldenRequest 1900000005) =
      some ((new 64).handled goldenJob event 0) := step_deliver hparse rfl
  have h₁ : step floodSetup ((new 64).handled goldenJob event 0) (.claim 0) =
      some ((new 64).handled goldenJob event 1) := step_claim (Finset.notMem_empty _)
  let m : SignedJobHandler := ((new 64).handled goldenJob event 1).handled goldenJob event 0
  have h₂ : step floodSetup ((new 64).handled goldenJob event 1)
      (.deliver goldenRequest 1900000005) = some m := step_deliver hparse rfl
  have h₃ : step floodSetup m (.claim 1) =
      some (m.setCall 1 goldenJob .returned [.returned goldenJob.id none]) :=
    step_duplicate rfl (Finset.mem_singleton_self _)
  have h₄ : step floodSetup (m.setCall 1 goldenJob .returned [.returned goldenJob.id none])
      (.complete 0 busyAnswers 1900000006) = some _ := step_signed rfl hresult
  rw [duplicateDeliveries, exec_cons h₀, exec_cons h₁, exec_cons h₂, exec_cons h₃, exec_cons h₄,
    exec_cons (rfl : step floodSetup _ (.remember 0) = some _), exec_cons (step_replay hparse rfl)]
  exact ⟨_, rfl, rfl⟩

/-- Three deliveries, one processing and one answer. -/
theorem golden_handled_once : ∃ s,
    exec (step floodSetup) (new 64) duplicateDeliveries = some s ∧
      (deliveredIds s.log).length = 3 ∧ (∀ id, (claimedIds s.log).count id ≤ 1) ∧
      ∀ id e e', .returned id (some e) ∈ s.log → .returned id (some e') ∈ s.log → e = e' := by
  obtain ⟨event, hresult⟩ := floodSetup_busy (by decide : goldenRequest.id.length = 64)
  obtain ⟨s, hrun, hlog⟩ := duplicates_run hresult
  have hthree : (deliveredIds s.log).length = 3 := by rw [hlog]; rfl
  have hfew : (deliveredIds s.log).toFinset.card ≤ 64 :=
    le_trans (List.toFinset_card_le _) (by rw [hthree]; decide)
  obtain ⟨hclaims, hanswers⟩ := (handled_exactly_once floodSetup (by decide) hrun).2 hfew
  exact ⟨s, hrun, hthree, hclaims, hanswers⟩

end SoulSociety.Provider.SignedJobHandler
