import Mathlib.Data.Finset.Basic
import SoulSociety.Lib.Window
import SoulSociety.Session.Client

/-! The wait for a result (`SoulJob.waitForResult`). Every event of the subscription goes through the
    filter of providers, the filter of duplicates and the validator, in this order; the promise is
    settled by the first that passes. The filter of duplicates takes an id from an event that nobody
    has authenticated yet. -/

namespace SoulSociety.Session
open Lib Sdk

/-- A promise. Only its first settlement counts. -/
inductive Promise (α : Type) where
  | pending
  | resolved (value : α)
  | rejected (error : JsError)
  deriving DecidableEq

namespace Promise

variable {α : Type}

def settle : Promise α → Except JsError α → Promise α
  | .pending, .ok value => .resolved value
  | .pending, .error error => .rejected error
  | settled, _ => settled

/-- Settled by the first value, if there is one. -/
def ofFirst : Option α → Promise α
  | none => .pending
  | some value => .resolved value

end Promise

/-- `LIMITS.MAX_DEDUPE_ENTRIES`. -/
def maxDedupeEntries : ℕ := 10000

/-- The variables of `waitForResult`. -/
structure ResultWait where
  seen : Finset JsString
  seenOrder : List JsString
  promise : Promise ValidatedResult
  deriving DecidableEq

namespace ResultWait

def start : ResultWait := ⟨∅, [], .pending⟩

/-- Make room and take the id in. -/
def record (w : ResultWait) (id : JsString) : ResultWait :=
  match w.seenOrder with
  | oldest :: rest =>
    if w.seenOrder.length = maxDedupeEntries then
      { w with seen := insert id (w.seen.erase oldest), seenOrder := rest ++ [id] }
    else { w with seen := insert id w.seen, seenOrder := w.seenOrder ++ [id] }
  | [] => { w with seen := insert id w.seen, seenOrder := [id] }

/-- The callback of the subscription. -/
def onEvent (C : SoulNostrClient) (request : ValidatedRequest) (w : ResultWait) (event : Event)
    (now : ℕ) : ResultWait :=
  if ¬ C.acceptsProvider event.pubkey then w
  else if event.id ∈ w.seen then w
  else
    match validateResultEvent C.platform event request now with
    | .ok result =>
      { w.record event.id with promise := (w.record event.id).promise.settle (.ok result) }
    | .error _ => w.record event.id

/-- The events of a subscription, each with the clock reading at its delivery. -/
def deliverAll (C : SoulNostrClient) (request : ValidatedRequest) (deliveries : List (Event × ℕ)) :
    ResultWait :=
  deliveries.foldl (fun w d => w.onEvent C request d.1 d.2) start

theorem deliverAll_concat (C : SoulNostrClient) (request : ValidatedRequest)
    (deliveries : List (Event × ℕ)) (d : Event × ℕ) :
    deliverAll C request (deliveries ++ [d]) =
      (deliverAll C request deliveries).onEvent C request d.1 d.2 := by
  rw [deliverAll, List.foldl_append]
  rfl

@[simp] theorem deliverAll_singleton (C : SoulNostrClient) (request : ValidatedRequest)
    (d : Event × ℕ) : deliverAll C request [d] = start.onEvent C request d.1 d.2 :=
  deliverAll_concat C request [] d

/-! ### The filter of duplicates -/

/-- The filter holds the window of the ids that were recorded. -/
structure Tracks (w : ResultWait) (history : List JsString) : Prop where
  seenOrder : w.seenOrder = window maxDedupeEntries history
  seen : w.seen = w.seenOrder.toFinset
  fresh : Fresh maxDedupeEntries history

variable {C : SoulNostrClient} {request : ValidatedRequest} {w : ResultWait} {history : List JsString}
  {id : JsString}

@[simp] theorem record_promise (w : ResultWait) (id : JsString) :
    (w.record id).promise = w.promise := by
  rw [record]
  split
  · split <;> rfl
  · rfl

theorem notMem_seen_start (id : JsString) : id ∉ start.seen := Finset.notMem_empty id

theorem tracks_start : start.Tracks [] := ⟨by simp [start, window], rfl, .nil⟩

theorem Tracks.mem_seen (h : w.Tracks history) :
    id ∈ w.seen ↔ id ∈ window maxDedupeEntries history := by
  rw [h.seen, List.mem_toFinset, h.seenOrder]

/-- A new id enters the window, and the oldest leaves a full one. -/
theorem Tracks.record (h : w.Tracks history) (hid : id ∉ w.seen) :
    (w.record id).Tracks (history ++ [id]) := by
  have hnew : id ∉ window maxDedupeEntries history := mt h.mem_seen.mpr hid
  have hfresh : Fresh maxDedupeEntries (history ++ [id]) := h.fresh.push hnew
  rw [ResultWait.record]
  split
  · rename_i oldest rest horder
    split
    · rename_i hfull
      have hnodup : (oldest :: rest).Nodup := by
        rw [← horder, h.seenOrder]
        exact h.fresh.nodup_window
      obtain ⟨holdest, -⟩ := List.nodup_cons.mp hnodup
      have hne : id ≠ oldest := by
        rintro rfl
        exact hnew (h.seenOrder ▸ horder ▸ List.mem_cons_self ..)
      refine ⟨?_, ?_, hfresh⟩
      · have hge : maxDedupeEntries ≤ (window maxDedupeEntries history).length := by
          rw [← h.seenOrder, hfull]
        rw [window_concat_of_ge id hge, ← h.seenOrder, horder]
        rfl
      · ext x
        rw [h.seen, horder]
        simp only [Finset.mem_insert, Finset.mem_erase, List.mem_toFinset, List.mem_cons,
          List.mem_append, List.mem_nil_iff, or_false]
        constructor
        · rintro (rfl | ⟨hx, heq | hmem⟩)
          · exact Or.inr rfl
          · exact absurd heq hx
          · exact Or.inl hmem
        · rintro (hmem | rfl)
          · exact Or.inr ⟨fun heq => holdest (heq ▸ hmem), Or.inr hmem⟩
          · exact Or.inl rfl
    · rename_i hroom
      have hlt : (window maxDedupeEntries history).length < maxDedupeEntries := by
        have hle := length_window maxDedupeEntries history
        rw [h.seenOrder] at hroom
        omega
      refine ⟨?_, ?_, hfresh⟩
      · rw [window_concat_of_lt id hlt, ← h.seenOrder]
      · ext x
        rw [h.seen]
        simp
  · rename_i horder
    have hempty : window maxDedupeEntries history = [] := h.seenOrder ▸ horder
    have hlt : (window maxDedupeEntries history).length < maxDedupeEntries := by
      rw [hempty]
      decide
    refine ⟨?_, ?_, hfresh⟩
    · rw [window_concat_of_lt id hlt, hempty]
      rfl
    · rw [h.seen, horder]
      rfl

/-! ### Which result settles a job -/

/-- The result of a delivered event, if its author is trusted and the validator takes it now. -/
def acceptable (C : SoulNostrClient) (request : ValidatedRequest) (d : Event × ℕ) :
    Option ValidatedResult :=
  if C.acceptsProvider d.1.pubkey then (validateResultEvent C.platform d.1 request d.2).toOption
  else none

/-- The ids of the events that claim a trusted author. -/
def claimedIds (C : SoulNostrClient) (deliveries : List (Event × ℕ)) : List JsString :=
  (deliveries.filter fun d => C.acceptsProvider d.1.pubkey).map fun d => d.1.id

/-- The first acceptable event comes with an id that is not among those last remembered. -/
def Unshadowed (C : SoulNostrClient) (request : ValidatedRequest) (deliveries : List (Event × ℕ)) :
    Prop :=
  ∀ pre d, pre ++ [d] <+: deliveries → (acceptable C request d).isSome →
    pre.findSome? (acceptable C request) = none →
      d.1.id ∉ window maxDedupeEntries (remembered maxDedupeEntries (claimedIds C pre))

theorem claimedIds_concat (C : SoulNostrClient) (deliveries : List (Event × ℕ)) (d : Event × ℕ) :
    claimedIds C (deliveries ++ [d]) =
      claimedIds C deliveries ++ if C.acceptsProvider d.1.pubkey then [d.1.id] else [] := by
  rw [claimedIds, List.filter_append, List.map_append, ← claimedIds]
  congr 1
  cases h : C.acceptsProvider d.1.pubkey <;> simp [h]

/-- An event from elsewhere changes nothing. -/
theorem onEvent_of_untrusted {event : Event} {now : ℕ}
    (h : C.acceptsProvider event.pubkey = false) : w.onEvent C request event now = w := by
  rw [onEvent, if_pos (by simp [h])]

theorem onEvent_of_mem {event : Event} {now : ℕ} (h : event.id ∈ w.seen) :
    w.onEvent C request event now = w := by
  rw [onEvent, if_pos h]
  split <;> rfl

/-- An event with a new id is recorded, and settles the promise if it is acceptable. -/
theorem onEvent_of_not_mem {event : Event} {now : ℕ} (htrusted : C.acceptsProvider event.pubkey = true)
    (h : event.id ∉ w.seen) : w.onEvent C request event now =
      { w.record event.id with
        promise := match acceptable C request (event, now) with
          | some result => w.promise.settle (.ok result)
          | none => w.promise } := by
  rw [onEvent, if_neg (by simp [htrusted]), if_neg h, acceptable, if_pos htrusted]
  cases hvalid : validateResultEvent C.platform event request now with
  | ok result => simp [Except.toOption]
  | error e =>
    change w.record event.id = { w.record event.id with promise := w.promise }
    rw [← record_promise w event.id]

theorem tracks_deliverAll (C : SoulNostrClient) (request : ValidatedRequest)
    (deliveries : List (Event × ℕ)) : (deliverAll C request deliveries).Tracks
      (remembered maxDedupeEntries (claimedIds C deliveries)) := by
  induction deliveries using List.reverseRecOn with
  | nil => exact tracks_start
  | append_singleton deliveries d ih =>
    rw [deliverAll_concat, claimedIds_concat]
    cases htrusted : C.acceptsProvider d.1.pubkey with
    | false =>
      rw [onEvent_of_untrusted htrusted, if_neg Bool.false_ne_true, List.append_nil]
      exact ih
    | true =>
      rw [if_pos rfl, remembered_concat, remember]
      by_cases hmem : d.1.id ∈ (deliverAll C request deliveries).seen
      · rw [onEvent_of_mem hmem, if_pos (ih.mem_seen.mp hmem)]
        exact ih
      · rw [onEvent_of_not_mem htrusted hmem, if_neg (mt ih.mem_seen.mpr hmem)]
        have hrecord := ih.record hmem
        exact ⟨hrecord.seenOrder, hrecord.seen, hrecord.fresh⟩

theorem mem_seen_deliverAll {deliveries : List (Event × ℕ)} :
    id ∈ (deliverAll C request deliveries).seen ↔
      id ∈ window maxDedupeEntries (remembered maxDedupeEntries (claimedIds C deliveries)) :=
  (tracks_deliverAll C request deliveries).mem_seen

theorem acceptable_of_untrusted {d : Event × ℕ} (h : C.acceptsProvider d.1.pubkey = false) :
    acceptable C request d = none := by
  rw [acceptable, if_neg (by simp [h])]

/-- A delivery does not change a promise that is settled, and settles a pending one with the result
    of an acceptable event whose id is new. -/
theorem onEvent_promise {d : Event × ℕ} :
    (w.onEvent C request d.1 d.2).promise =
      if d.1.id ∈ w.seen then w.promise
      else match acceptable C request d with
        | some result => w.promise.settle (.ok result)
        | none => w.promise := by
  split
  · rename_i h
    rw [onEvent_of_mem h]
  · rename_i h
    cases htrusted : C.acceptsProvider d.1.pubkey with
    | false => rw [onEvent_of_untrusted htrusted, acceptable_of_untrusted htrusted]
    | true => rw [onEvent_of_not_mem htrusted h]

theorem settle_ofFirst_some {α : Type} (value : α) (settlement : Except JsError α) :
    (Promise.ofFirst (some value)).settle settlement = Promise.ofFirst (some value) := by
  cases settlement <;> rfl

/-- While the first acceptable event is not shadowed, it is the one that settles the job. -/
theorem promise_of_unshadowed {deliveries : List (Event × ℕ)}
    (h : Unshadowed C request deliveries) : (deliverAll C request deliveries).promise =
      .ofFirst (deliveries.findSome? (acceptable C request)) := by
  induction deliveries using List.reverseRecOn with
  | nil => rfl
  | append_singleton deliveries d ih =>
    have hpre : Unshadowed C request deliveries := fun pre d' hd =>
      h pre d' (hd.trans (List.prefix_append _ _))
    rw [deliverAll_concat, onEvent_promise, ih hpre, List.findSome?_append]
    cases hfirst : deliveries.findSome? (acceptable C request) with
    | some value =>
      split
      · rfl
      · cases acceptable C request d with
        | none => rfl
        | some result => exact settle_ofFirst_some value _
    | none =>
      cases hd : acceptable C request d with
      | none => simp [hd]
      | some result =>
        have hnew := h deliveries d (List.prefix_refl _) (by rw [hd]; rfl) hfirst
        rw [if_neg (mt mem_seen_deliverAll.mp hnew)]
        simp [hd, Promise.ofFirst, Promise.settle]

/-- At every moment the job is settled by the first acceptable event, exactly when the id of that
    event was not among the last remembered ones at its delivery. Then events that are not acceptable
    make no difference. -/
theorem settled_by_first_iff (C : SoulNostrClient) (request : ValidatedRequest)
    (deliveries : List (Event × ℕ)) :
    ((∀ pre, pre <+: deliveries → (deliverAll C request pre).promise =
        .ofFirst (pre.findSome? (acceptable C request))) ↔ Unshadowed C request deliveries) ∧
      ∀ others, Unshadowed C request deliveries → Unshadowed C request others →
        others.filterMap (acceptable C request) = deliveries.filterMap (acceptable C request) →
          (deliverAll C request others).promise = (deliverAll C request deliveries).promise := by
  refine ⟨⟨?_, ?_⟩, ?_⟩
  · intro h pre d hd hsome hfirst hmem
    have hpre := h pre ((List.prefix_append _ _).trans hd)
    have hall := h (pre ++ [d]) hd
    rw [deliverAll_concat, onEvent_of_mem (mem_seen_deliverAll.mpr hmem), hpre,
      List.findSome?_append, hfirst] at hall
    obtain ⟨result, hresult⟩ := Option.isSome_iff_exists.mp hsome
    simp [hresult, Promise.ofFirst] at hall
  · intro h pre hpre
    exact promise_of_unshadowed fun pre' d hd => h pre' d (hd.trans hpre)
  · intro others h hothers hsame
    rw [promise_of_unshadowed h, promise_of_unshadowed hothers, ← List.head?_filterMap,
      ← List.head?_filterMap, hsame]

/-- Events with other ids do not shadow the first acceptable one. -/
theorem unshadowed_of_first {before after : List (Event × ℕ)} {d : Event × ℕ}
    (hd : (acceptable C request d).isSome)
    (hbefore : ∀ x ∈ before, acceptable C request x = none ∧ x.1.id ≠ d.1.id) :
    Unshadowed C request (before ++ d :: after) := by
  rintro pre e ⟨post, hpost⟩ hsome hnone hmem
  -- the first acceptable event stands behind `before`
  obtain ⟨rfl, rfl⟩ : pre = before ∧ e = d := by
    rw [List.append_assoc] at hpost
    rcases List.append_eq_append_iff.mp hpost with ⟨as, rfl, has⟩ | ⟨bs, rfl, hbs⟩
    · cases as with
      | nil => exact ⟨(List.append_nil _).symm, (List.cons.inj has).1⟩
      | cons a as =>
        obtain rfl : e = a := (List.cons.inj has).1
        rw [(hbefore e (by simp)).1] at hsome
        cases hsome
    · cases bs with
      | nil => exact ⟨List.append_nil _, (List.cons.inj hbs).1.symm⟩
      | cons b bs =>
        obtain rfl : d = b := (List.cons.inj hbs).1
        rw [List.findSome?_eq_none_iff.mp hnone d (by simp)] at hd
        cases hd
  obtain ⟨x, hx, hid⟩ := List.mem_map.mp (mem_of_mem_remembered ((window_suffix _ _).mem hmem))
  exact (hbefore x (List.mem_filter.mp hx).1).2 hid

theorem promise_singleton {d : Event × ℕ} {result : ValidatedResult}
    (h : acceptable C request d = some result) :
    (deliverAll C request [d]).promise = .resolved result := by
  rw [deliverAll_singleton, onEvent_promise, if_neg (notMem_seen_start _), h]
  rfl

/-- An event that is not acceptable keeps out the next one with its id. -/
theorem promise_pair {d d' : Event × ℕ} (hid : d.1.id = d'.1.id)
    (htrusted : C.acceptsProvider d.1.pubkey = true) (h : acceptable C request d = none) :
    (deliverAll C request [d, d']).promise = .pending := by
  have hseen : d'.1.id ∈ (start.onEvent C request d.1 d.2).seen := by
    rw [onEvent_of_not_mem htrusted (notMem_seen_start _), ← hid]
    exact Finset.mem_insert_self ..
  rw [← List.singleton_append, deliverAll_concat, deliverAll_singleton, onEvent_of_mem hseen,
    onEvent_promise, if_neg (notMem_seen_start _), h]
  rfl

/-- An event that only claims the id and the author of the signed result. -/
def forgedResult : Event := { Protocol.goldenResult.toSdk with created_at := .nat 0 }

theorem golden_acceptable : acceptable exampleClient Protocol.goldenValidated
    (Protocol.goldenResult.toSdk, 1900000005) =
      some ⟨Protocol.goldenResult.toSdk, (Protocol.resultContent 10).toSdk⟩ := by
  have htrusted : exampleClient.acceptsProvider Protocol.goldenResult.toSdk.pubkey = true := by
    decide
  rw [acceptable, if_pos htrusted, exampleClient_accepts_result]
  rfl

theorem acceptable_of_unverified {d : Event × ℕ} (h : C.platform.verifyEvent d.1 = false) :
    acceptable C request d = none := by
  rw [acceptable]
  split
  · rw [validateResultEvent, rejectIf, if_pos (by simp [h])]
    rfl
  · rfl

/-- Delivered first, the forged event keeps the genuine one out: the job is not settled. -/
theorem forged_id_shadows_result :
    acceptable exampleClient Protocol.goldenValidated (Protocol.goldenResult.toSdk, 1900000005) =
        some ⟨Protocol.goldenResult.toSdk, (Protocol.resultContent 10).toSdk⟩ ∧
      acceptable exampleClient Protocol.goldenValidated (forgedResult, 1900000005) = none ∧
      (deliverAll exampleClient Protocol.goldenValidated
        [(Protocol.goldenResult.toSdk, 1900000005)]).promise =
          .resolved ⟨Protocol.goldenResult.toSdk, (Protocol.resultContent 10).toSdk⟩ ∧
      (deliverAll exampleClient Protocol.goldenValidated
        [(forgedResult, 1900000005), (Protocol.goldenResult.toSdk, 1900000005)]).promise =
          .pending := by
  have hforged : acceptable exampleClient Protocol.goldenValidated (forgedResult, 1900000005) =
      none := acceptable_of_unverified (by decide)
  exact ⟨golden_acceptable, hforged, promise_singleton golden_acceptable,
    promise_pair rfl (by decide) hforged⟩

/-- A forged event with another id. -/
def strayDelivery : Event × ℕ :=
  ({ forgedResult with id := ofText Core.goldenRequest.id }, 1900000005)

/-- Noise, the genuine event twice, and a forged one with its id, too late. -/
def noisyDeliveries : List (Event × ℕ) :=
  [strayDelivery, (Protocol.goldenResult.toSdk, 1900000005),
    (Protocol.goldenResult.toSdk, 1900000005), (forgedResult, 1900000005)]

/-- The genuine event settles the job in spite of the noise. -/
theorem genuine_result_settles :
    (deliverAll exampleClient Protocol.goldenValidated noisyDeliveries).promise =
      .resolved ⟨Protocol.goldenResult.toSdk, (Protocol.resultContent 10).toSdk⟩ := by
  have hforged : ∀ x ∈ [strayDelivery], acceptable exampleClient Protocol.goldenValidated x = none ∧
      x.1.id ≠ Protocol.goldenResult.toSdk.id := by
    intro x hx
    obtain rfl := List.mem_singleton.mp hx
    exact ⟨acceptable_of_unverified (by decide), by decide⟩
  have hfirst : noisyDeliveries.findSome? (acceptable exampleClient Protocol.goldenValidated) =
      some ⟨Protocol.goldenResult.toSdk, (Protocol.resultContent 10).toSdk⟩ := by
    rw [noisyDeliveries, List.findSome?_cons, (hforged _ (List.mem_singleton_self _)).1,
      List.findSome?_cons, golden_acceptable]
  have hunshadowed : Unshadowed exampleClient Protocol.goldenValidated noisyDeliveries :=
    unshadowed_of_first (by rw [golden_acceptable]; rfl) hforged
  have hsettled := (settled_by_first_iff exampleClient Protocol.goldenValidated _).1.mpr hunshadowed _
    (List.prefix_refl _)
  rw [hsettled, hfirst]
  rfl

end ResultWait

end SoulSociety.Session
