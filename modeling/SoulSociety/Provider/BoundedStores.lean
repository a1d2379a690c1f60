import SoulSociety.Lib.Loop
import SoulSociety.Provider.Dedupe

/-! The claim set and the replay cache over any sequence of operations. Both are first-in first-out:
    they hold the last entries that were let in, up to their capacity, and the loop that evicts takes
    at most one turn per operation. -/

namespace SoulSociety.Provider
open Lib SoulSociety.Core

variable {σ : Type*} {size : σ → ℕ} {remove : σ → Text → σ} {capacity : ℕ} {contents : σ}
  {order : List Text}

/-- `len > capacity`, the condition of the loop. -/
def overfull (size : σ → ℕ) (capacity : ℕ) (s : σ × List Text) : Prop := size s.1 > capacity

/-- The body of the loop. -/
def evictOldest (remove : σ → Text → σ) : σ × List Text → σ × List Text
  | (contents, []) => (contents, [])
  | (contents, oldest :: order) => (remove contents oldest, order)

/-- With too many entries and an empty queue the loop would never end. -/
theorem spins (h : size contents > capacity) (n : ℕ) (s : σ × List Text) :
    ¬ Loop (overfull size capacity) (evictOldest remove) n (contents, []) s :=
  not_loop_of_fixed h rfl

/-- Where one eviction makes room, the loop ends after one turn at the most. -/
theorem MakesRoom.loop (h : MakesRoom size remove capacity contents order) :
    ∃ n ≤ 1, Loop (overfull size capacity) (evictOldest remove) n (contents, order)
      (evict size remove capacity contents order) := by
  rcases h with hle | ⟨oldest, rest, rfl, hgt, hroom⟩
  · rw [evict_of_le hle]
    exact ⟨0, Nat.zero_le 1, .done (Nat.not_lt.mpr hle)⟩
  · rw [evict_of_gt rest hgt hroom]
    exact ⟨1, le_rfl, .again hgt (.done (Nat.not_lt.mpr hroom))⟩

/-! ### Any sequence of claims -/

namespace RequestDeduplicator

variable {d : RequestDeduplicator} {history : List Text} {id : Text}

/-- The claim set after claims of these ids, one after the other. -/
def claimAll (d : RequestDeduplicator) : List Text → RequestDeduplicator
  | [] => d
  | id :: ids => (d.claim id).2.claimAll ids

/-- The claims among them that returned `true`. -/
def granted (d : RequestDeduplicator) : List Text → List Text
  | [] => []
  | id :: ids =>
    if (d.claim id).1 then id :: (d.claim id).2.granted ids else (d.claim id).2.granted ids

/-- The queue lists the ids, each one once, and there are not too many. -/
def Queued (d : RequestDeduplicator) : Prop :=
  d.order.Nodup ∧ (∀ id, id ∈ d.order ↔ id ∈ d.ids) ∧ d.ids.card ≤ d.capacity

theorem Tracks.queued (h : d.Tracks history) : d.Queued := by
  refine ⟨h.nodup, fun _ => h.mem_ids.symm, ?_⟩
  rw [h.ids, List.toFinset_card_of_nodup h.nodup]
  exact h.length_le

theorem Tracks.claimAll (h : d.Tracks history) (ids : List Text) :
    (d.claimAll ids).capacity = d.capacity ∧
      (d.claimAll ids).Tracks (history ++ d.granted ids) := by
  induction ids generalizing d history with
  | nil =>
    refine ⟨rfl, ?_⟩
    rw [granted, List.append_nil]
    exact h
  | cons id ids ih =>
    rw [RequestDeduplicator.claimAll, granted]
    by_cases hid : id ∈ d.ids
    · rw [claim_of_mem hid, if_neg Bool.false_ne_true]
      exact ih h
    · obtain ⟨d', hclaim, hcapacity, h'⟩ := h.claim_of_not_mem hid
      rw [hclaim, if_pos rfl, ← hcapacity]
      have hrest := ih h'
      rw [List.append_assoc] at hrest
      exact hrest

theorem Tracks.claim_iff (h : d.Tracks history) (id : Text) :
    (d.claim id).1 = true ↔ id ∉ window d.capacity history := by
  rw [← Bool.not_eq_false, claim_eq_false_iff, h.mem_ids, h.order]

/-- What `claim` computes is what its loop leaves. -/
theorem Tracks.claim_loop (h : d.Tracks history) (hid : id ∉ d.ids) :
    ∃ n ≤ 1, Loop (overfull Finset.card d.capacity) (evictOldest Finset.erase) n
      (insert id d.ids, d.order ++ [id]) ((d.claim id).2.ids, (d.claim id).2.order) := by
  rw [claim, if_neg hid]
  exact (h.makesRoom hid).loop

end RequestDeduplicator

/-! ### Any sequence of insertions -/

namespace CompletedResults

variable {c : CompletedResults} {history : List (Text × Event)} {id : Text} {event : Event}

/-- The replay cache after these insertions, one after the other. -/
def insertAll (c : CompletedResults) : List (Text × Event) → CompletedResults
  | [] => c
  | (id, event) :: xs => (c.insert id event).insertAll xs

/-- The insertions among them whose key was not present. -/
def stored (c : CompletedResults) : List (Text × Event) → List (Text × Event)
  | [] => []
  | (id, event) :: xs =>
    if (c.get id).isSome then (c.insert id event).stored xs
    else (id, event) :: (c.insert id event).stored xs

/-- The queue lists the keys, each one once, and there are not too many. -/
def Queued (c : CompletedResults) : Prop :=
  c.order.Nodup ∧ c.order = c.events.map Prod.fst ∧ c.events.length ≤ c.capacity

/-- The cache holds the last entries of the history. -/
structure Recent (c : CompletedResults) (history : List (Text × Event)) : Prop extends Ordered c where
  events : c.events = window c.capacity history

theorem recent_new {capacity : ℕ} (h : 0 < capacity) : (new capacity).Recent [] :=
  ⟨ordered_new h, by simp [new, window]⟩

theorem Ordered.queued (h : c.Ordered) : c.Queued :=
  ⟨h.nodup, h.order, h.length_events ▸ h.length_le⟩

theorem Recent.insert_of_new (h : c.Recent history) (hid : (c.get id).isSome = false)
    (event : Event) :
    (c.insert id event).Recent (history ++ [(id, event)]) := by
  obtain ⟨hordered, hevents⟩ : (c.insert id event).Ordered ∧ _ := h.toOrdered.insert_of_new hid
  refine ⟨hordered, ?_⟩
  have hlen := h.length_events
  rw [hevents, capacity_insert, kept]
  split
  · rename_i hroom
    rw [window_concat_of_lt _ (by rw [← h.events]; omega), h.events]
  · rename_i hfull
    have hne : c.events ≠ [] := by
      have hpositive := h.positive
      rw [← List.length_pos_iff]
      omega
    rw [window_concat_of_ge _ (by rw [← h.events]; omega), ← h.events,
      List.tail_append_of_ne_nil hne]

theorem Recent.insertAll (h : c.Recent history) (xs : List (Text × Event)) :
    (c.insertAll xs).capacity = c.capacity ∧ (c.insertAll xs).Recent (history ++ c.stored xs) := by
  induction xs generalizing c history with
  | nil =>
    refine ⟨rfl, ?_⟩
    rw [stored, List.append_nil]
    exact h
  | cons x xs ih =>
    obtain ⟨id, event⟩ := x
    rw [CompletedResults.insertAll, stored]
    cases hid : (c.get id).isSome with
    | true =>
      rw [if_pos rfl, insert_of_isSome hid]
      exact ih h
    | false =>
      have hrest := ih (h.insert_of_new hid event)
      rw [capacity_insert, List.append_assoc] at hrest
      rw [if_neg Bool.false_ne_true]
      exact hrest

/-- The cache returns exactly its entries. -/
theorem Ordered.get_eq_some_iff (h : c.Ordered) : c.get id = some event ↔ (id, event) ∈ c.events :=
  lookup_eq_some_iff_mem (h.order ▸ h.nodup)

/-- What `insert` computes is what its loop leaves. -/
theorem Ordered.insert_loop (h : c.Ordered) (hid : (c.get id).isSome = false) (event : Event) :
    ∃ n ≤ 1, Loop (overfull List.length c.capacity) (evictOldest removeKey) n
      (c.events ++ [(id, event)], c.order ++ [id])
      ((c.insert id event).events, (c.insert id event).order) := by
  rw [insert_of_none hid]
  exact (h.makesRoom hid event).loop

end CompletedResults

open RequestDeduplicator CompletedResults in
/-- Both stores are exact: a claim succeeds when it is not among the last `capacity` successful ones,
    and the cache holds the last `capacity` results that were stored, each by its first result. -/
theorem stores_are_bounded_fifos (hpositive : 0 < capacity) :
    (∀ (ids : List Text) (id : Text),
      let d := (RequestDeduplicator.new capacity).claimAll ids
      ((d.claim id).1 = true ↔
          id ∉ window capacity ((RequestDeduplicator.new capacity).granted ids)) ∧
        d.Queued ∧ d.capacity = capacity ∧
        (id ∉ d.ids → ∃ n ≤ 1, Loop (overfull Finset.card capacity) (evictOldest Finset.erase) n
          (insert id d.ids, d.order ++ [id]) ((d.claim id).2.ids, (d.claim id).2.order))) ∧
      ∀ (xs : List (Text × Event)) (id : Text) (event : Event),
        let c := (CompletedResults.new capacity).insertAll xs
        (c.get id = some event ↔
            (id, event) ∈ window capacity ((CompletedResults.new capacity).stored xs)) ∧
          c.Queued ∧ c.capacity = capacity ∧
          ((c.get id).isSome = false → ∃ n ≤ 1,
            Loop (overfull List.length capacity) (evictOldest removeKey) n
              (c.events ++ [(id, event)], c.order ++ [id])
              ((c.insert id event).events, (c.insert id event).order)) := by
  constructor
  · intro ids id d
    obtain ⟨hcapacity, h⟩ := (tracks_new hpositive).claimAll ids
    have hcapacity : d.capacity = capacity := hcapacity
    have hclaim := h.claim_iff id
    have hloop (hid : id ∉ d.ids) := h.claim_loop hid
    rw [hcapacity, List.nil_append] at hclaim
    rw [hcapacity] at hloop
    exact ⟨hclaim, h.queued, hcapacity, hloop⟩
  · intro xs id event c
    obtain ⟨hcapacity, h⟩ := (recent_new hpositive).insertAll xs
    have hcapacity : c.capacity = capacity := hcapacity
    have hevents := h.events
    have hloop (hid : (c.get id).isSome = false) := h.insert_loop hid event
    rw [hcapacity, List.nil_append] at hevents
    rw [hcapacity] at hloop
    refine ⟨?_, h.queued, hcapacity, hloop⟩
    rw [h.get_eq_some_iff, hevents]

/-- Two claims later a set of two ids has forgotten the first one. -/
theorem evicted_id_claimed_again :
    (((RequestDeduplicator.new 2).claimAll [text "a", text "a", text "b", text "c"]).claim
      (text "a")).1 = true :=
  ((stores_are_bounded_fifos (by decide : 0 < 2)).1 _ _).1.mpr (by decide)

end SoulSociety.Provider
