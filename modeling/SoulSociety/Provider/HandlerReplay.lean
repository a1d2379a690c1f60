import SoulSociety.Provider.HandlerOnce

/-! Completed duplicates. The claim set forgets in the order of the claims, the replay cache in the
    order of the completions, so a request that was claimed late and completed early can leave the
    cache while its claim is kept: a duplicate is then dropped instead of answered. -/

namespace SoulSociety.Provider.SignedJobHandler
open Lib SoulSociety.Core

variable {P : Setup} {s s' : SignedJobHandler} {l : Label} {capacity : ℕ} {ls : List Label}

/-! ### Answers that were given -/

/-- `e` was returned for `id`. -/
def Answered (log : List Observation) (id : Text) (e : Event) : Prop :=
  .returned id (some e) ∈ log

/-- `e` was returned for `id`, and `id` was not claimed again. -/
def AnsweredSinceClaim (log : List Observation) (id : Text) (e : Event) : Prop :=
  ∃ pre mid, log = pre ++ mid ∧ .claimed id ∉ mid ∧ .returned id (some e) ∈ mid

theorem answered_append {log seen : List Observation} {id : Text} {e : Event} :
    Answered (log ++ seen) id e ↔ Answered log id e ∨ Answered seen id e := List.mem_append

theorem AnsweredSinceClaim.of_append {log seen : List Observation} {id : Text} {e : Event}
    (h : AnsweredSinceClaim (log ++ seen) id e) : AnsweredSinceClaim log id e ∨ Answered seen id e := by
  obtain ⟨pre, mid, heq, hclaim, hmem⟩ := h
  rcases List.append_eq_append_iff.mp heq with ⟨as, rfl, rfl⟩ | ⟨bs, rfl, rfl⟩
  · exact Or.inr (List.mem_append_right _ hmem)
  · rcases List.mem_append.mp hmem with hmem | hmem
    · exact Or.inl ⟨pre, bs, rfl, fun h => hclaim (List.mem_append_left _ h), hmem⟩
    · exact Or.inr hmem

theorem not_answeredSinceClaim_claimed {log : List Observation} {id : Text} {e : Event} :
    ¬ AnsweredSinceClaim (log ++ [.claimed id]) id e := by
  rintro ⟨pre, mid, heq, hclaim, hmem⟩
  rcases List.eq_nil_or_concat mid with rfl | ⟨mid, last, rfl⟩
  · cases hmem
  · rw [List.concat_eq_append, ← List.append_assoc] at heq
    obtain ⟨-, hlast⟩ := List.append_inj' heq rfl
    rw [List.concat_eq_append, ← hlast] at hclaim
    exact hclaim (List.mem_append_right _ (List.mem_singleton_self _))

/-! ### The condition -/

/-- Every answer to an id that the claim set retains is in the replay cache. -/
def CachedFor (answered : List Observation → Text → Event → Prop) (s : SignedJobHandler) : Prop :=
  ∀ id e, id ∈ s.dedupe.ids → answered s.log id e → s.completed.get id = some e

/-- A remembered result drives no retained id out of the cache, and is the cached one when its own id
    is retained and cached. -/
def KeepsCached (s : SignedJobHandler) : Label → Prop
  | .remember i => ∀ request event, s.calls[i]? = some ⟨request, .signed event⟩ →
    (∀ id, s.completed.evicted request.id = some id → id ∉ s.dedupe.ids) ∧
      ∀ cached, request.id ∈ s.dedupe.ids → s.completed.get request.id = some cached →
        cached = event
  | _ => True

/-- Besides, a claim that succeeds is for no id with an answer that is not cached. -/
def KeepsReplays (s : SignedJobHandler) : Label → Prop
  | .claim i => ∀ request, s.calls[i]? = some ⟨request, .lookedUp⟩ →
    request.id ∉ s.dedupe.ids → ∀ e, Answered s.log request.id e →
      s.completed.get request.id = some e
  | l => s.KeepsCached l

/-- A completed duplicate replays: the delivery of a retained id that was answered returns the answer. -/
def Replays (P : Setup) (s : SignedJobHandler) : Prop :=
  ∀ event now request e, parseRequestEvent P.L event now = .ok request →
    request.id ∈ s.dedupe.ids → Answered s.log request.id e →
    step P s (.deliver event now) =
      some { s with log := s.log ++ [.delivered request.id, .returned request.id (some e)] }

/-- Calls and answers belong to requests that were parsed, and what is cached was returned. -/
structure Traced (P : Setup) (s : SignedJobHandler) : Prop where
  call : ∀ c ∈ s.calls, ∃ event now, parseRequestEvent P.L event now = .ok c.request
  answered : ∀ id e, Answered s.log id e →
    ∃ event now request, parseRequestEvent P.L event now = .ok request ∧ request.id = id
  cached : ∀ id e, (id, e) ∈ s.completed.events → Answered s.log id e

theorem traced_new : (new capacity).Traced P := by
  refine ⟨?_, ?_, ?_⟩
  · intro c hc
    cases hc
  · intro id e h
    cases h
  · intro id e h
    cases h

/-! ### What a step preserves -/

theorem traced_moves (hc : s.Coherent) (h : s.Traced P) (hm : Moves P s l s') : s'.Traced P := by
  have hset : ∀ {i : ℕ} {request : JobRequest} {old new : Phase},
      s.calls[i]? = some ⟨request, old⟩ → ∀ c ∈ s.calls.set i ⟨request, new⟩,
        ∃ event now, parseRequestEvent P.L event now = .ok c.request := by
    intro i request old new hcall c hmem
    rcases List.mem_or_eq_of_mem_set hmem with hmem | rfl
    · exact h.call c hmem
    · exact h.call ⟨request, old⟩ (List.mem_of_getElem? hcall)
  have hlog : ∀ {seen : List Observation}, (∀ id e, ¬ Answered seen id e) → ∀ id e,
      Answered (s.log ++ seen) id e →
        ∃ event now request, parseRequestEvent P.L event now = .ok request ∧ request.id = id := by
    intro seen hseen id e he
    rcases answered_append.mp he with he | he
    · exact h.answered id e he
    · exact absurd he (hseen id e)
  have hcached : ∀ (seen : List Observation) id e, (id, e) ∈ s.completed.events →
      Answered (s.log ++ seen) id e := fun seen id e he =>
    answered_append.mpr (Or.inl (h.cached id e he))
  cases hm with
  | rejected => exact h
  | @replayed event now request completed hparse hget =>
    refine ⟨h.call, ?_, hcached _⟩
    intro id e he
    rcases answered_append.mp he with he | he
    · exact h.answered id e he
    · simp only [Answered, List.mem_cons, reduceCtorEq, Observation.returned.injEq, false_or,
        List.not_mem_nil, or_false] at he
      exact ⟨event, now, request, hparse, he.1.symm⟩
  | lookedUp hparse hget =>
    refine ⟨?_, hlog (by simp [Answered]), hcached _⟩
    intro c hmem
    rcases List.mem_append.mp hmem with hmem | hmem
    · exact h.call c hmem
    · rw [List.mem_singleton.mp hmem]
      exact ⟨_, _, hparse⟩
  | duplicate hcall hid => exact ⟨hset hcall, hlog (by simp [Answered]), hcached _⟩
  | claimed hcall hid => exact ⟨hset hcall, hlog (by simp [Answered]), hcached _⟩
  | failed hcall hresult => exact ⟨hset hcall, hlog (by simp [Answered]), hcached _⟩
  | signed hcall hresult => exact ⟨hset hcall, hlog (by simp [Answered]), hcached _⟩
  | @remembered i request event hcall =>
    refine ⟨hset hcall, ?_, ?_⟩
    · intro id e he
      rcases answered_append.mp he with he | he
      · exact h.answered id e he
      · simp only [Answered, List.mem_singleton, Observation.returned.injEq] at he
        obtain ⟨event', now, hparse⟩ := h.call ⟨request, _⟩ (List.mem_of_getElem? hcall)
        exact ⟨event', now, request, hparse, he.1.symm⟩
    · intro id e he
      rcases hc.ordered.mem_insert he with he | heq
      · exact hcached _ id e he
      · cases heq
        exact answered_append.mpr (Or.inr (List.mem_singleton_self _))

/-- Without new answers and new retained ids nothing is lost. -/
theorem CachedFor.of_same {answered : List Observation → Text → Event → Prop}
    (hsplit : ∀ log seen id e, answered (log ++ seen) id e → answered log id e ∨ Answered seen id e)
    (h : s.CachedFor answered) {calls : List Call} {seen : List Observation}
    (hseen : ∀ id e, ¬ Answered seen id e) :
    CachedFor answered ⟨s.dedupe, s.completed, calls, s.log ++ seen⟩ := by
  intro id e hid he
  rcases hsplit _ _ _ _ he with he | he
  · exact h id e hid he
  · exact absurd he (hseen id e)

/-- Both notions of an answer are kept in the cache by a step that meets the condition. -/
theorem cachedFor_moves {answered : List Observation → Text → Event → Prop}
    (hsplit : ∀ log seen id e, answered (log ++ seen) id e → answered log id e ∨ Answered seen id e)
    (hc : s.Coherent) (h : s.CachedFor answered) (hok : s.KeepsCached l)
    (hclaim : ∀ i request, l = .claim i → s.calls[i]? = some ⟨request, .lookedUp⟩ →
      request.id ∉ s.dedupe.ids → ∀ e, answered (s.log ++ [.claimed request.id]) request.id e →
        s.completed.get request.id = some e)
    (hm : Moves P s l s') : s'.CachedFor answered := by
  cases hm with
  | rejected => exact h
  | replayed hparse hget =>
    intro id e hid he
    rcases hsplit _ _ _ _ he with he | he
    · exact h id e hid he
    · simp only [Answered, List.mem_cons, reduceCtorEq, Observation.returned.injEq, false_or,
        Option.some.injEq, List.not_mem_nil, or_false] at he
      obtain ⟨rfl, rfl⟩ := he
      exact hget
  | lookedUp hparse hget => exact h.of_same hsplit (by simp [Answered])
  | duplicate hcall hid => exact h.of_same hsplit (by simp [Answered])
  | failed hcall hresult => exact h.of_same hsplit (by simp [Answered])
  | signed hcall hresult => exact h.of_same hsplit (by simp [Answered])
  | @claimed i request hcall hid =>
    intro id e hmem he
    rcases (hc.tracks.mem_claim hid).mp hmem with rfl | ⟨hmem, -⟩
    · exact hclaim i request rfl hcall hid e he
    · rcases hsplit _ _ _ _ he with he | he
      · exact h id e hmem he
      · exact absurd he (by simp [Answered])
  | @remembered i request event hcall =>
    obtain ⟨hevicted, hsame⟩ := hok request event hcall
    intro id e hid he
    have hid : id ∈ s.dedupe.ids := hid
    have he : answered s.log id e ∨ id = request.id ∧ e = event := by
      rcases hsplit _ _ _ _ he with he | he
      · exact Or.inl he
      · simp only [Answered, List.mem_singleton, Observation.returned.injEq,
          Option.some.injEq] at he
        exact Or.inr he
    change (s.completed.insert request.id event).get id = some e
    cases hget : s.completed.get request.id with
    | some cached =>
      have hsome : (s.completed.get request.id).isSome = true := by rw [hget]; rfl
      rw [CompletedResults.insert_of_isSome hsome]
      rcases he with he | ⟨rfl, rfl⟩
      · exact h id e hid he
      · rw [hget, hsame cached hid hget]
    | none =>
      rw [hc.ordered.get_insert hget]
      rcases he with he | ⟨rfl, rfl⟩
      · -- an earlier answer to the id itself would be in the cache
        have hold := h id e hid he
        have hne : id ≠ request.id := by
          rintro rfl
          rw [hget] at hold
          cases hold
        rw [if_neg hne, if_neg fun hev => hevicted id hev hid, hold]
      · rw [if_pos rfl]

theorem mem_of_evicted {c : CompletedResults} {id x : Text} (h : c.evicted id = some x) :
    c.get id = none ∧ x ∈ c.order := by
  rw [CompletedResults.evicted] at h
  split at h
  · cases h
  · rename_i hfull
    rw [not_or] at hfull
    exact ⟨Option.not_isSome_iff_eq_none.mp hfull.1, List.mem_of_mem_head? h⟩

/-- Where the answers stay cached, the step met the condition. -/
theorem keepsReplays_of_cached (hc : s.Coherent) (ht : s.Traced P) (h' : s'.CachedFor Answered)
    (hm : Moves P s l s') : s.KeepsReplays l := by
  cases hm with
  | rejected => trivial
  | replayed hparse hget => trivial
  | lookedUp hparse hget => trivial
  | failed hcall hresult => trivial
  | signed hcall hresult => trivial
  | duplicate hcall hid =>
    intro request hcall' hid'
    rw [hcall] at hcall'
    cases hcall'
    exact absurd hid hid'
  | @claimed i request hcall hid =>
    intro request' hcall' _ e he
    rw [hcall] at hcall'
    cases hcall'
    exact h' _ e ((hc.tracks.mem_claim hid).mpr (Or.inl rfl)) (answered_append.mpr (Or.inl he))
  | @remembered i request event hcall =>
    intro request' event' hcall'
    rw [hcall] at hcall'
    cases hcall'
    refine ⟨?_, ?_⟩
    · intro id hev hid
      obtain ⟨hnone, hmem⟩ := mem_of_evicted hev
      rw [hc.ordered.order] at hmem
      have hne : id ≠ request.id := fun heq =>
        lookup_eq_none_iff_notMem.mp hnone (heq ▸ hmem)
      obtain ⟨⟨_, e⟩, hcached, rfl⟩ := List.mem_map.mp hmem
      have hget := h' _ e hid (answered_append.mpr (Or.inl (ht.cached _ e hcached)))
      change (s.completed.insert request.id event).get _ = _ at hget
      rw [hc.ordered.get_insert hnone, if_neg hne, if_pos hev] at hget
      cases hget
    · intro cached hid hget
      have hsome : (s.completed.get request.id).isSome = true := by rw [hget]; rfl
      have hnew := h' _ event hid (answered_append.mpr (Or.inr (List.mem_singleton_self _)))
      change (s.completed.insert request.id event).get _ = _ at hnew
      rw [CompletedResults.insert_of_isSome hsome, hget] at hnew
      exact Option.some.inj hnew

/-! ### Runs -/

theorem traced_visits (h : 0 < capacity) (hs : Visits (step P) (new capacity) ls s) :
    s.Traced P := by
  have hboth : s.Coherent ∧ s.Traced P := by
    refine hs.invariant (I := fun m => m.Coherent ∧ m.Traced P) ⟨coherent_new h, traced_new⟩ ?_
    rintro m l m' ht ⟨hc, htraced⟩
    have hm := moves_of_step ht.enabled
    exact ⟨coherent_moves hc hm, traced_moves hc htraced hm⟩
  exact hboth.2

theorem replays_iff (ht : s.Traced P) : s.Replays P ↔ s.CachedFor Answered := by
  constructor
  · intro h id e hid he
    obtain ⟨event, now, request, hparse, rfl⟩ := ht.answered id e he
    have hstep := h event now request e hparse hid he
    simp only [step, hparse] at hstep
    cases hget : s.completed.get request.id with
    | none =>
      simp only [hget] at hstep
      have hcalls := congrArg (List.length ∘ SignedJobHandler.calls) (Option.some.inj hstep)
      simp at hcalls
    | some cached =>
      simp only [hget] at hstep
      have hlog := congrArg SignedJobHandler.log (Option.some.inj hstep)
      simp only [List.append_cancel_left_eq, List.cons.injEq, Observation.returned.injEq,
        true_and, and_true] at hlog
      exact hlog
  · intro h event now request e hparse hid he
    have hget := h _ e hid he
    simp only [step, hparse, hget]

theorem cachedFor_new {answered : List Observation → Text → Event → Prop} :
    (new capacity).CachedFor answered := by
  intro id e hid
  exact absurd hid (Finset.notMem_empty _)

/-- Along a run every completed duplicate of a retained request replays exactly as long as no step
    drives a retained id out of the cache, answers a retained id differently, or claims an answered id
    again. For the answers since the claim that is retained, the last condition is not needed. -/
theorem completed_replayed_iff (P : Setup) (h : 0 < capacity) (ls : List Label) :
    ((∀ s, Visits (step P) (new capacity) ls s → s.Replays P) ↔
        ∀ s l s', Takes (step P) (new capacity) ls s l s' → s.KeepsReplays l) ∧
      ((∀ s l s', Takes (step P) (new capacity) ls s l s' → s.KeepsCached l) →
        ∀ s, Visits (step P) (new capacity) ls s → s.CachedFor AnsweredSinceClaim) := by
  refine ⟨⟨?_, ?_⟩, ?_⟩
  · intro hall s l s' ht
    exact keepsReplays_of_cached (coherent_visits h ht.visits) (traced_visits h ht.visits)
      ((replays_iff (traced_visits h ht.visits_next)).mp (hall s' ht.visits_next))
      (moves_of_step ht.enabled)
  · intro hok s hs
    refine (replays_iff (traced_visits h hs)).mpr ?_
    refine hs.invariant (I := CachedFor Answered) cachedFor_new ?_
    intro m l m' ht hcached
    have hm := hok m l m' ht
    refine cachedFor_moves (fun _ _ _ _ => answered_append.mp) (coherent_visits h ht.visits) hcached
      ?_ ?_ (moves_of_step ht.enabled)
    · cases l <;> first | exact hm | trivial
    · rintro i request rfl hcall hid e he
      rcases answered_append.mp he with he | he
      · exact hm request hcall hid e he
      · exact absurd he (by simp [Answered])
  · intro hok s hs
    refine hs.invariant (I := CachedFor AnsweredSinceClaim) cachedFor_new ?_
    intro m l m' ht hcached
    refine cachedFor_moves (fun _ _ _ _ => AnsweredSinceClaim.of_append)
      (coherent_visits h ht.visits) hcached (hok m l m' ht) ?_ (moves_of_step ht.enabled)
    intro i request _ _ _ e he
    exact absurd he not_answeredSinceClaim_claimed

/-! ### New requests -/

/-- What was answered was delivered before. -/
theorem delivered_of_answered (hs : Visits (step P) (new capacity) ls s) {id : Text}
    {e : Event} (he : Answered s.log id e) : id ∈ deliveredIds s.log := by
  have hboth : s.Known ∧ ∀ id e, Answered s.log id e → id ∈ deliveredIds s.log := by
    refine hs.invariant
      (I := fun m => m.Known ∧ ∀ id e, Answered m.log id e → id ∈ deliveredIds m.log)
      ⟨known_new, by simp [Answered, new]⟩ ?_
    rintro m l m' ht ⟨hknown, hanswered⟩
    have hm := moves_of_step ht.enabled
    refine ⟨known_moves hknown hm, ?_⟩
    have hold : ∀ {seen : List Observation}, (∀ id e, ¬ Answered seen id e) → ∀ id e,
        Answered (m.log ++ seen) id e → id ∈ deliveredIds (m.log ++ seen) := by
      intro seen hseen id e he
      rw [deliveredIds_append]
      rcases answered_append.mp he with he | he
      · exact List.mem_append_left _ (hanswered id e he)
      · exact absurd he (hseen id e)
    cases hm with
    | rejected => exact hanswered
    | replayed hparse hget =>
      intro id e he
      rw [deliveredIds_append]
      rcases answered_append.mp he with he | he
      · exact List.mem_append_left _ (hanswered id e he)
      · simp only [Answered, List.mem_cons, reduceCtorEq, Observation.returned.injEq, false_or,
          List.not_mem_nil, or_false] at he
        rw [he.1]
        exact List.mem_append_right _ (List.mem_singleton_self _)
    | remembered hcall =>
      intro id e he
      rw [setCall_log, deliveredIds_append]
      rcases answered_append.mp he with he | he
      · exact List.mem_append_left _ (hanswered id e he)
      · simp only [Answered, List.mem_singleton, Observation.returned.injEq] at he
        rw [he.1]
        exact List.mem_append_left _ (hknown.call _ (List.mem_of_getElem? hcall))
    | lookedUp | duplicate | claimed | failed | signed => exact hold (by simp [Answered])
  exact hboth.2 id e he

/-- A request with an id that was never delivered is claimed and processed. -/
theorem processed_of_not_delivered (h : 0 < capacity) (hs : Visits (step P) (new capacity) ls s)
    {event : Event} {now : ℕ} {request : JobRequest}
    (hparse : parseRequestEvent P.L event now = .ok request)
    (hnew : request.id ∉ deliveredIds s.log) :
    ∃ s', exec (step P) s [.deliver event now, .claim s.calls.length] = some s' ∧
      s'.log = s.log ++ [.delivered request.id] ++ [.claimed request.id] := by
  have hget : s.completed.get request.id = none := by
    refine lookup_eq_none_iff_notMem.mpr fun hmem => hnew ?_
    obtain ⟨⟨_, e⟩, hcached, heq⟩ := List.mem_map.mp hmem
    rw [← heq]
    exact delivered_of_answered hs ((traced_visits h hs).cached _ e hcached)
  have hid : request.id ∉ s.dedupe.ids :=
    (coherent_visits h hs).not_mem_ids fun hmem => hnew ((known_visits hs).claim _ hmem)
  refine ⟨s.handled request event 1, ?_, rfl⟩
  rw [exec_cons (step_deliver hparse hget), exec_cons (step_claim hid), exec_nil]

/-- The answer to the first request is replayed when the request comes again. -/
theorem answer_replayed {event e : Event} {now t : ℕ} {request : JobRequest} {answers : Answers}
    (hparse : parseRequestEvent P.L event now = .ok request)
    (hresult : handleClaimed P request answers t = .ok e) :
    ∃ s s', exec (step P) (new 64) [.deliver event now, .claim 0, .complete 0 answers t, .remember 0] =
        some s ∧ step P s (.deliver event now) = some s' ∧
      s'.log = s.log ++ [.delivered request.id, .returned request.id (some e)] := by
  have hdeliver : step P (new 64) (.deliver event now) = some ((new 64).handled request e 0) :=
    step_deliver hparse rfl
  have hclaim : step P ((new 64).handled request e 0) (.claim 0) = some ((new 64).handled request e 1) :=
    step_claim (Finset.notMem_empty _)
  have hcomplete : step P ((new 64).handled request e 1) (.complete 0 answers t) =
      some ((new 64).handled request e 2) := step_complete hresult
  have hremember : step P ((new 64).handled request e 2) (.remember 0) =
      some ((new 64).handled request e 3) := step_remember
  have hget : ((new 64).handled request e 3).completed.get request.id = some e := by
    have hordered : (new 64).completed.Ordered := CompletedResults.ordered_new (by decide)
    change ((new 64).completed.insert request.id e).get request.id = some e
    rw [hordered.get_insert rfl, if_pos rfl]
  refine ⟨(new 64).handled request e 3, { (new 64).handled request e 3 with
    log := ((new 64).handled request e 3).log ++
      [.delivered request.id, .returned request.id (some e)] }, ?_, ?_, rfl⟩
  · rw [exec_cons hdeliver, exec_cons hclaim, exec_cons hcomplete, exec_cons hremember, exec_nil]
  · exact step_replay hparse hget

/-! ### A slow job -/

section
variable {req : Event → JobRequest} {slow first : Event} {es : List Event} {request : JobRequest}
  {answers late : Answers} {now t : ℕ}

/-- A duplicate whose id is retained but not cached returns nothing. -/
theorem duplicate_dropped (hparse : parseRequestEvent P.L first now = .ok request)
    (hget : s.completed.get request.id = none) (hid : request.id ∈ s.dedupe.ids) :
    ∃ s', exec (step P) s [.deliver first now, .claim s.calls.length] = some s' ∧
      s'.log = s.log ++ [.delivered request.id] ++ [.returned request.id none] := by
  have hdeliver : step P s (.deliver first now) = some (s.handled request first 0) :=
    step_deliver hparse hget
  have hcall : (s.handled request first 0).calls[s.calls.length]? = some ⟨request, .lookedUp⟩ :=
    getElem?_addCall
  have hclaim : (s.handled request first 0).dedupe.claim request.id = (false, s.dedupe) :=
    RequestDeduplicator.claim_of_mem hid
  have hstep : step P (s.handled request first 0) (.claim s.calls.length) =
      some ((s.handled request first 0).setCall s.calls.length request .returned
        [.returned request.id none]) := by
    simp only [step, hcall, hclaim]
  refine ⟨(s.handled request first 0).setCall s.calls.length request .returned
    [.returned request.id none], ?_, rfl⟩
  rw [exec, hdeliver, Option.bind_some, exec, hstep]
  rfl

/-- A job that was claimed before as many others as the stores hold, and completes after them, drives
    the first of them out of the cache: its claim is still kept, and a duplicate is dropped. -/
theorem dropped_after_slow_job {event : Event}
    (hslow : parseRequestEvent P.L slow now = .ok request)
    (hlate : handleClaimed P request late t = .ok event)
    (hparse : ∀ e ∈ first :: es, parseRequestEvent P.L e now = .ok (req e))
    (hresult : ∀ e ∈ first :: es, ∃ event, handleClaimed P (req e) answers t = .ok event)
    (hnodup : (request.id :: (first :: es).map fun e => (req e).id).Nodup) :
    ∃ ls s, exec (step P) (new (es.length + 1)) ls = some s ∧ (req first).id ∈ s.dedupe.ids ∧
      (∃ e, Answered s.log (req first).id e) ∧ ∃ s',
        exec (step P) s [.deliver first now, .claim s.calls.length] = some s' ∧
          s'.log = s.log ++ [.delivered (req first).id] ++ [.returned (req first).id none] := by
  obtain ⟨s, hrun, hc, hcalls, hdedupe, hcapacity, hcompleted, -, -⟩ :=
    after_flood (List.cons_ne_nil first es) hslow hparse hresult hnodup
  obtain ⟨hnot, -⟩ := List.nodup_cons.mp hnodup
  have hlength : 0 < (first :: es).length := Nat.succ_pos _
  have htraced : s.Traced P := traced_visits hlength (Visits.last hrun)
  have hcall : s.calls[0]? = some ⟨request, .processing⟩ := by rw [hcalls]; rfl
  have hnone : s.completed.get request.id = none := by
    rw [← Option.not_isSome_iff_eq_none, CompletedResults.get_isSome_iff hc.ordered, hcompleted]
    exact hnot
  -- the cache is full, and its oldest entry is that of the first request
  have hevicted : s.completed.evicted request.id = some (req first).id := by
    have hfull : ¬ s.completed.order.length < s.completed.capacity := by
      rw [hcompleted, hcapacity, List.length_map]
      exact Nat.lt_irrefl _
    rw [CompletedResults.evicted, hnone, if_neg (by simp [hfull]), hcompleted]
    rfl
  have hne : (req first).id ≠ request.id := by
    rintro heq
    exact hnot (heq ▸ List.mem_cons_self ..)
  obtain ⟨e, hcached⟩ : ∃ e, ((req first).id, e) ∈ s.completed.events := by
    have hmem : (req first).id ∈ s.completed.order := by rw [hcompleted]; exact List.mem_cons_self ..
    rw [hc.ordered.order] at hmem
    obtain ⟨⟨_, e⟩, hmem, heq⟩ := List.mem_map.mp hmem
    obtain rfl : _ = (req first).id := heq
    exact ⟨e, hmem⟩
  have hsign : step P s (.complete 0 late t) = some (s.setCall 0 request (.signed event) []) := by
    simp only [step, hcall, hlate]
  obtain ⟨m, hm⟩ : ∃ m, m = s.setCall 0 request (.signed event) [] := ⟨_, rfl⟩
  have hmcall : m.calls[0]? = some ⟨request, .signed event⟩ := by
    rw [hm, setCall, hcalls]
    rfl
  obtain ⟨s₁, hs₁⟩ : ∃ s₁, s₁ = { m.setCall 0 request .returned [.returned request.id (some event)] with
      completed := m.completed.insert request.id event } := ⟨_, rfl⟩
  have hremember : step P m (.remember 0) = some s₁ := by
    simp only [step, hmcall, hs₁]
  have hdedupe₁ : s₁.dedupe = s.dedupe := by rw [hs₁, hm]; rfl
  have hlog₁ : s₁.log = s.log ++ [] ++ [.returned request.id (some event)] := by rw [hs₁, hm]; rfl
  have hids : (req first).id ∈ s₁.dedupe.ids := by
    rw [hdedupe₁, hc.tracks.mem_ids, hdedupe]
    exact List.mem_cons_self ..
  have hget : s₁.completed.get (req first).id = none := by
    have hinsert : s₁.completed = s.completed.insert request.id event := by rw [hs₁, hm]; rfl
    rw [hinsert, hc.ordered.get_insert hnone, if_neg hne, if_pos hevicted]
  refine ⟨floodLabels now t answers slow (first :: es) ++ [.complete 0 late t, .remember 0], s₁, ?_, hids,
    ⟨e, ?_⟩, duplicate_dropped (hparse first (List.mem_cons_self ..)) hget hids⟩
  · rw [show es.length + 1 = (first :: es).length from rfl, exec_append, hrun, Option.bind_some, exec,
      hsign, ← hm, Option.bind_some, exec, hremember]
    rfl
  · rw [hlog₁]
    exact answered_append.mpr (Or.inl (answered_append.mpr (Or.inl (htraced.cached _ e hcached))))

end

/-- The worker of the only proving slot terminates. -/
def workerAnswers : Answers := ⟨true, none, fun _ => .error .io⟩

/-- A terminated worker makes for an error result as well. -/
theorem floodSetup_worker : ∃ event,
    handleClaimed floodSetup goldenJob workerAnswers 1900000006 = .ok event := by
  have hsize : utf8Len (JobResultContent.newError goldenJob.id .internal
      ProcessingError.worker.publicMessage).toText ≤ maxResultBytes :=
    errorResult_fits (by decide +kernel) _ _
  exact ⟨_, signResult_eq_ok.mpr ⟨hsize, rfl⟩⟩

theorem floodEvents_cons : floodEvents =
    { goldenRequest with id := (FeltHex.hex64 0).reverse } :: floodEvents.tail := rfl

/-- A provider of capacity 64 whose only slot is taken while 64 others are answered: when the slow job
    completes, the first of the others is still retained, and its redelivery returns nothing. -/
theorem slow_job_defeats_replay : ∃ ls s s' id,
    exec (step floodSetup) (new 64) ls = some s ∧ id ∈ s.dedupe.ids ∧
      (∃ e, Answered s.log id e) ∧ exec (step floodSetup) s
        [.deliver { goldenRequest with id := id } 1900000005, .claim s.calls.length] = some s' ∧
      s'.log = s.log ++ [.delivered id] ++ [.returned id none] ∧ ¬ s.Replays floodSetup := by
  have hlen : ∀ e ∈ floodEvents, e.id.length = 64 := by decide +kernel
  have hids : (goldenJob.id :: floodEvents.map fun e => (floodJob e).id).Nodup := by
    decide +kernel
  have hparse : ∀ e ∈ floodEvents, parseRequestEvent floodSetup.L e 1900000005 = .ok (floodJob e) :=
    fun e he => floodSetup_parse (List.mem_cons_of_mem _ he)
  obtain ⟨event, hlate⟩ := floodSetup_worker
  rw [floodEvents_cons] at hlen hids hparse
  obtain ⟨ls, s, hrun, hid, ⟨e, he⟩, s', hdrop, hlog⟩ := dropped_after_slow_job
    (floodSetup_parse (List.mem_cons_self ..)) hlate hparse (fun e he => floodSetup_busy (hlen e he))
    hids
  refine ⟨ls, s, s', (FeltHex.hex64 0).reverse, hrun, hid, ⟨e, he⟩, hdrop, hlog, ?_⟩
  intro hreplays
  have hstep := hreplays _ 1900000005 _ e (hparse _ (List.mem_cons_self ..)) hid he
  rw [exec, hstep, Option.bind_some, exec] at hdrop
  have hnocall : step floodSetup { s with log := s.log ++ [.delivered (FeltHex.hex64 0).reverse,
      .returned (FeltHex.hex64 0).reverse (some e)] } (.claim s.calls.length) = none := by
    simp only [step, List.getElem?_length]
  rw [show (floodJob _).id = (FeltHex.hex64 0).reverse from rfl, hnocall] at hdrop
  cases hdrop

/-- While nothing completes after the request that is answered, its duplicates replay. -/
theorem golden_replays : ∃ s, exec (step floodSetup) (new 64)
    [.deliver goldenRequest 1900000005, .claim 0, .complete 0 workerAnswers 1900000006, .remember 0,
      .deliver goldenRequest 1900000005] = some s ∧ s.Replays floodSetup := by
  obtain ⟨event, hresult⟩ := floodSetup_worker
  have hparse : parseRequestEvent floodSetup.L goldenRequest 1900000005 = .ok goldenJob :=
    floodSetup_parse (List.mem_cons_self ..)
  have h₀ : step floodSetup (new 64) (.deliver goldenRequest 1900000005) =
      some ((new 64).handled goldenJob event 0) := step_deliver hparse rfl
  have h₁ : step floodSetup ((new 64).handled goldenJob event 0) (.claim 0) =
      some ((new 64).handled goldenJob event 1) := step_claim (Finset.notMem_empty _)
  have h₂ : step floodSetup ((new 64).handled goldenJob event 1)
      (.complete 0 workerAnswers 1900000006) = some ((new 64).handled goldenJob event 2) :=
    step_complete hresult
  obtain ⟨s, s', hs, hstep, -⟩ := answer_replayed hparse hresult
  have hrun := exec_concat.mpr ⟨s, hs, hstep⟩
  refine ⟨s', hrun, (completed_replayed_iff floodSetup (by decide) _).1.mpr ?_ _
    (Visits.last hrun)⟩
  intro s l s' ht
  rcases takes_cons ht with ⟨rfl, rfl, -⟩ | ⟨m, hm, ht⟩
  · trivial
  obtain rfl := Option.some.inj (h₀.symm.trans hm)
  rcases takes_cons ht with ⟨rfl, rfl, -⟩ | ⟨m, hm, ht⟩
  · rintro request - - e he
    simp [Answered, handled, new] at he
  obtain rfl := Option.some.inj (h₁.symm.trans hm)
  rcases takes_cons ht with ⟨rfl, rfl, -⟩ | ⟨m, hm, ht⟩
  · trivial
  obtain rfl := Option.some.inj (h₂.symm.trans hm)
  rcases takes_cons ht with ⟨rfl, rfl, -⟩ | ⟨m, -, ht⟩
  · rintro request event' -
    have hnone : ∀ id, ((new 64).handled goldenJob event 2).completed.evicted id = none := fun _ => rfl
    refine ⟨fun id hev => ?_, fun cached _ hget => ?_⟩
    · rw [hnone] at hev
      cases hev
    · cases hget
  rcases takes_cons ht with ⟨rfl, rfl, -⟩ | ⟨_, -, ht⟩
  · trivial
  · exact absurd ht not_takes_nil

end SoulSociety.Provider.SignedJobHandler
