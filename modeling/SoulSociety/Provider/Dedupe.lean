import Mathlib.Data.Finset.Card
import SoulSociety.Core.NostrEvents
import SoulSociety.Lib.Assoc
import SoulSociety.Lib.Window

/-! The two bounded stores of the provider: the claim set (`provider/src/dedupe.rs`) and the replay
    cache (`CompletedResults` in `provider/src/nostr/handler.rs`). Each keeps a queue beside its
    contents and evicts in queue order. The claim set is a window of the claims ever made. -/

namespace SoulSociety.Provider
open Lib SoulSociety.Core

variable {σ : Type*}

/-- `while len > capacity { if let Some(oldest) = order.pop_front() { remove(oldest) } }`. With an
    empty queue the loop would not end; no store gets there. -/
def evict (size : σ → ℕ) (remove : σ → Text → σ) (capacity : ℕ) :
    σ → List Text → σ × List Text
  | contents, [] => (contents, [])
  | contents, oldest :: order =>
    if size contents > capacity then evict size remove capacity (remove contents oldest) order
    else (contents, oldest :: order)

theorem evict_of_le {size : σ → ℕ} {remove : σ → Text → σ} {capacity : ℕ} {contents : σ}
    (h : size contents ≤ capacity) :
    ∀ order, evict size remove capacity contents order = (contents, order)
  | [] => rfl
  | oldest :: order => by rw [evict, if_neg (Nat.not_lt.mpr h)]

/-- One eviction is enough when it makes room. -/
theorem evict_of_gt {size : σ → ℕ} {remove : σ → Text → σ} {capacity : ℕ} {contents : σ}
    {oldest : Text} (order : List Text) (h : size contents > capacity)
    (hroom : size (remove contents oldest) ≤ capacity) :
    evict size remove capacity contents (oldest :: order) = (remove contents oldest, order) := by
  rw [evict, if_pos h, evict_of_le hroom]

/-- There is room, or there will be once the oldest entry has left. -/
def MakesRoom (size : σ → ℕ) (remove : σ → Text → σ) (capacity : ℕ) (contents : σ)
    (order : List Text) : Prop :=
  size contents ≤ capacity ∨ ∃ oldest rest, order = oldest :: rest ∧ size contents > capacity ∧
    size (remove contents oldest) ≤ capacity

/-! ### Claims -/

/-- The claim set: the ids, and the order in which they were claimed. -/
structure RequestDeduplicator where
  capacity : ℕ
  ids : Finset Text
  order : List Text
  deriving DecidableEq

namespace RequestDeduplicator

def new (capacity : ℕ) : RequestDeduplicator := ⟨capacity, ∅, []⟩

/-- `true` only for the first claim of an id currently retained. -/
def claim (d : RequestDeduplicator) (id : Text) : Bool × RequestDeduplicator :=
  if id ∈ d.ids then (false, d)
  else
    let (ids, order) := evict Finset.card Finset.erase d.capacity (insert id d.ids) (d.order ++ [id])
    (true, { d with ids := ids, order := order })

/-- The id that the next new claim evicts. -/
def evicted (d : RequestDeduplicator) : Option Text :=
  if d.order.length < d.capacity then none else d.order.head?

/-- The set holds the last `capacity` claims of `history`, each of which was new when made. -/
structure Tracks (d : RequestDeduplicator) (history : List Text) : Prop where
  positive : 0 < d.capacity
  order : d.order = window d.capacity history
  ids : d.ids = d.order.toFinset
  fresh : Fresh d.capacity history

theorem tracks_new {capacity : ℕ} (h : 0 < capacity) : (new capacity).Tracks [] :=
  ⟨h, by simp [new, window], rfl, Fresh.nil⟩

variable {d : RequestDeduplicator} {history : List Text} {id : Text}

theorem Tracks.nodup (h : d.Tracks history) : d.order.Nodup := h.order ▸ h.fresh.nodup_window

theorem Tracks.mem_ids (h : d.Tracks history) : id ∈ d.ids ↔ id ∈ d.order := by
  rw [h.ids, List.mem_toFinset]

theorem Tracks.length_le (h : d.Tracks history) : d.order.length ≤ d.capacity := by
  rw [h.order, length_window]
  exact Nat.min_le_left _ _

theorem claim_of_mem (h : id ∈ d.ids) : d.claim id = (false, d) := if_pos h

/-- A claim fails exactly on the retained ids. -/
theorem claim_eq_false_iff : (d.claim id).1 = false ↔ id ∈ d.ids := by
  by_cases h : id ∈ d.ids
  · rw [claim_of_mem h]
    exact iff_of_true rfl h
  · rw [claim, if_neg h]
    simp [h]

theorem Tracks.card_insert (h : d.Tracks history) (hid : id ∉ d.ids) :
    (insert id d.ids).card = d.order.length + 1 := by
  rw [Finset.card_insert_of_notMem hid, h.ids, List.toFinset_card_of_nodup h.nodup]

theorem Tracks.insert_eq (h : d.Tracks history) : insert id d.ids = (d.order ++ [id]).toFinset := by
  rw [List.toFinset_append, h.ids]
  ext x
  simp

/-- What stays of a full set when a new claim evicts the oldest id. -/
theorem Tracks.erase_oldest (h : d.Tracks history) (hid : id ∉ d.ids) {oldest : Text}
    {rest : List Text} (horder : d.order = oldest :: rest) :
    (insert id d.ids).erase oldest = (rest ++ [id]).toFinset := by
  have hnot : id ∉ d.order := fun hmem => hid (h.mem_ids.mpr hmem)
  have hnd := h.nodup
  rw [horder] at hnot hnd
  rw [List.mem_cons, not_or] at hnot
  rw [List.nodup_cons] at hnd
  rw [h.insert_eq, horder]
  ext x
  simp only [List.cons_append, List.toFinset_cons, Finset.mem_erase, Finset.mem_insert,
    List.mem_toFinset, List.mem_append, List.mem_singleton]
  constructor
  · rintro ⟨hne, heq | hmem⟩
    · exact absurd heq hne
    · exact hmem
  · rintro (hmem | rfl)
    · exact ⟨fun heq => hnd.1 (heq ▸ hmem), Or.inr (Or.inl hmem)⟩
    · exact ⟨hnot.1, Or.inr (Or.inr rfl)⟩

/-- A new claim leaves at most one id too many, and one eviction makes room for it. -/
theorem Tracks.makesRoom (h : d.Tracks history) (hid : id ∉ d.ids) :
    MakesRoom Finset.card Finset.erase d.capacity (insert id d.ids) (d.order ++ [id]) := by
  rcases Nat.lt_or_ge d.order.length d.capacity with hroom | hfull
  · left
    rw [h.card_insert hid]
    exact hroom
  · right
    have hpositive := h.positive
    cases horder : d.order with
    | nil => rw [horder, List.length_nil] at hfull; omega
    | cons oldest rest =>
      refine ⟨oldest, rest ++ [id], rfl, ?_, ?_⟩
      · rw [h.card_insert hid]; omega
      · have hlen := h.length_le
        rw [horder, List.length_cons] at hlen
        rw [h.erase_oldest hid horder]
        refine le_trans (List.toFinset_card_le _) ?_
        rw [List.length_append, List.length_singleton]
        exact hlen

/-- A new claim appends to the queue, and drops its head when the queue is full. -/
theorem Tracks.claim_of_not_mem (h : d.Tracks history) (hid : id ∉ d.ids) :
    ∃ d', d.claim id = (true, d') ∧ d'.capacity = d.capacity ∧ d'.Tracks (history ++ [id]) := by
  have hnot : id ∉ d.order := fun hmem => hid (h.mem_ids.mpr hmem)
  have hfresh : Fresh d.capacity (history ++ [id]) := h.fresh.push (h.order ▸ hnot)
  have hcard := h.card_insert hid
  rw [claim, if_neg hid]
  rcases h.makesRoom hid with hle | ⟨oldest, rest, horder, hgt, hroom⟩
  · have hlt : d.order.length < d.capacity := by omega
    rw [evict_of_le hle]
    refine ⟨_, rfl, rfl, h.positive, ?_, h.insert_eq, hfresh⟩
    rw [window_concat_of_lt id (h.order ▸ hlt), h.order]
  · have hfull : d.capacity ≤ d.order.length := by omega
    cases hold : d.order with
    | nil =>
      have hpositive := h.positive
      rw [hold, List.length_nil] at hfull
      omega
    | cons first others =>
      rw [hold, List.cons_append, List.cons_eq_cons] at horder
      obtain ⟨rfl, rfl⟩ := horder
      rw [List.cons_append, evict_of_gt _ hgt hroom]
      refine ⟨_, rfl, rfl, h.positive, ?_, h.erase_oldest hid hold, hfresh⟩
      rw [window_concat_of_ge id (h.order ▸ hfull), ← h.order, hold]
      rfl

/-- After a new claim the set holds the id, and all that it held but the evicted one. -/
theorem Tracks.mem_claim (h : d.Tracks history) (hid : id ∉ d.ids) {x : Text} :
    x ∈ (d.claim id).2.ids ↔ x = id ∨ x ∈ d.ids ∧ d.evicted ≠ some x := by
  obtain ⟨d', hclaim, hcapacity, h'⟩ := h.claim_of_not_mem hid
  have hnot : id ∉ d.order := fun hmem => hid (h.mem_ids.mpr hmem)
  rw [hclaim, h'.mem_ids, h'.order, hcapacity, h.mem_ids, evicted]
  rcases Nat.lt_or_ge d.order.length d.capacity with hroom | hfull
  · rw [window_concat_of_lt id (h.order ▸ hroom), ← h.order, if_pos hroom]
    simp [or_comm]
  · rw [window_concat_of_ge id (h.order ▸ hfull), ← h.order, if_neg (Nat.not_lt.mpr hfull)]
    have hpositive := h.positive
    cases horder : d.order with
    | nil => rw [horder, List.length_nil] at hfull; omega
    | cons oldest rest =>
      have hnd := h.nodup
      rw [horder, List.nodup_cons] at hnd
      have hcons : x ∈ oldest :: rest ↔ x = oldest ∨ x ∈ rest := List.mem_cons
      simp only [List.cons_append, List.tail_cons, List.mem_append, List.mem_singleton, hcons,
        List.head?_cons, ne_eq, Option.some.injEq]
      constructor
      · rintro (hmem | rfl)
        · exact Or.inr ⟨Or.inr hmem, fun heq => hnd.1 (heq ▸ hmem)⟩
        · exact Or.inl rfl
      · rintro (rfl | ⟨rfl | hmem, hne⟩)
        · exact Or.inr rfl
        · exact absurd rfl hne
        · exact Or.inl hmem

end RequestDeduplicator

/-! ### Completed results -/

/-- The replay cache: signed results by request id, and the order in which they came. -/
structure CompletedResults where
  capacity : ℕ
  events : List (Text × Event)
  order : List Text
  deriving DecidableEq

namespace CompletedResults

def new (capacity : ℕ) : CompletedResults := ⟨capacity, [], []⟩

/-- `events.get(id)`. -/
def get (c : CompletedResults) (id : Text) : Option Event := c.events.lookup id

/-- `events.remove(key)`. -/
abbrev removeKey (events : List (Text × Event)) (k : Text) : List (Text × Event) :=
  events.filter fun x => x.1 ≠ k

/-- Keep the first result of a request, and evict the oldest at the bound. -/
def insert (c : CompletedResults) (id : Text) (event : Event) : CompletedResults :=
  if (c.get id).isSome then c
  else
    let (events, order) := evict List.length removeKey c.capacity (c.events ++ [(id, event)])
      (c.order ++ [id])
    { c with events := events, order := order }

/-- The queue lists the keys, which are distinct and not too many. -/
structure Ordered (c : CompletedResults) : Prop where
  positive : 0 < c.capacity
  order : c.order = c.events.map Prod.fst
  nodup : c.order.Nodup
  length_le : c.order.length ≤ c.capacity

theorem ordered_new {capacity : ℕ} (h : 0 < capacity) : (new capacity).Ordered :=
  ⟨h, rfl, List.nodup_nil, Nat.zero_le _⟩

variable {c : CompletedResults} {id : Text} {event : Event}

theorem get_isSome_iff (h : c.Ordered) : (c.get id).isSome = true ↔ id ∈ c.order := by
  rw [get, lookup_isSome_iff_mem, h.order]

theorem insert_of_isSome (h : (c.get id).isSome = true) : c.insert id event = c := if_pos h

/-- The results that stay when a new one comes. -/
def kept (c : CompletedResults) : List (Text × Event) :=
  if c.order.length < c.capacity then c.events else c.events.tail

/-- The request whose result leaves when one for `id` comes. -/
def evicted (c : CompletedResults) (id : Text) : Option Text :=
  if (c.get id).isSome ∨ c.order.length < c.capacity then none else c.order.head?

theorem kept_suffix : c.kept <:+ c.events := by
  rw [kept]
  split
  · exact List.suffix_refl _
  · exact List.tail_suffix _

theorem insert_of_none (h : (c.get id).isSome = false) :
    c.insert id event = { c with
      events := (evict List.length removeKey c.capacity (c.events ++ [(id, event)])
        (c.order ++ [id])).1
      order := (evict List.length removeKey c.capacity (c.events ++ [(id, event)])
        (c.order ++ [id])).2 } := by
  rw [insert, if_neg (by rw [h]; exact Bool.false_ne_true)]

theorem Ordered.length_events (h : c.Ordered) : c.events.length = c.order.length := by
  rw [h.order, List.length_map]

theorem Ordered.nodup_concat (h : c.Ordered) (hid : (c.get id).isSome = false) :
    (c.order ++ [id]).Nodup := by
  have hnot : id ∉ c.order := fun hmem => by
    rw [← get_isSome_iff h, hid] at hmem
    cases hmem
  rw [List.nodup_append]
  refine ⟨h.nodup, List.nodup_singleton id, fun a ha b hb hab => hnot ?_⟩
  rw [List.mem_singleton] at hb
  exact hb ▸ hab ▸ ha

/-- Nothing but the oldest entry has the oldest key. -/
theorem Ordered.remove_oldest (h : c.Ordered) (hid : (c.get id).isSome = false) (event : Event)
    {oldest : Text × Event} {rest : List (Text × Event)} (hevents : c.events = oldest :: rest) :
    removeKey (c.events ++ [(id, event)]) oldest.1 = rest ++ [(id, event)] := by
  have hnodup := h.nodup_concat hid
  rw [h.order, hevents, List.map_cons, List.cons_append, List.nodup_cons, List.mem_append,
    not_or] at hnodup
  rw [hevents, removeKey, List.cons_append, List.filter_cons_of_neg (by simp), List.filter_eq_self]
  intro x hx
  rw [decide_eq_true_eq]
  rintro heq
  rcases List.mem_append.mp hx with hrest | hlast
  · exact hnodup.1.1 (heq ▸ List.mem_map_of_mem hrest)
  · rw [List.mem_singleton] at hlast
    apply hnodup.1.2
    rw [← heq, hlast]
    exact List.mem_singleton_self _

/-- A new result leaves at most one too many, and one eviction makes room for it. -/
theorem Ordered.makesRoom (h : c.Ordered) (hid : (c.get id).isSome = false) (event : Event) :
    MakesRoom List.length removeKey c.capacity (c.events ++ [(id, event)]) (c.order ++ [id]) := by
  have hlen : (c.events ++ [(id, event)]).length = c.order.length + 1 := by
    rw [List.length_append, List.length_singleton, h.length_events]
  rcases Nat.lt_or_ge c.order.length c.capacity with hroom | hfull
  · left
    omega
  · right
    have hpositive := h.positive
    have hbound := h.length_le
    have horder := h.order
    cases hevents : c.events with
    | nil =>
      rw [hevents, List.map_nil] at horder
      rw [horder, List.length_nil] at hfull
      omega
    | cons oldest rest =>
      rw [hevents] at hlen horder
      refine ⟨oldest.1, rest.map Prod.fst ++ [id], by rw [horder]; rfl, by omega, ?_⟩
      rw [← hevents, h.remove_oldest hid event hevents]
      simp only [List.cons_append, List.length_cons, List.length_append] at hlen ⊢
      omega

/-- A new result goes to the end; when the cache is full the first one leaves. -/
theorem Ordered.insert_of_new (h : c.Ordered) (hid : (c.get id).isSome = false) :
    (c.insert id event).Ordered ∧ (c.insert id event).events = c.kept ++ [(id, event)] := by
  have hnodup := h.nodup_concat hid
  have hlen : (c.events ++ [(id, event)]).length = c.order.length + 1 := by
    rw [List.length_append, List.length_singleton, h.length_events]
  have hmap : (c.events ++ [(id, event)]).map Prod.fst = c.order ++ [id] := by
    rw [List.map_append, ← h.order]
    rfl
  rw [insert_of_none hid]
  rcases h.makesRoom hid event with hle | ⟨oldest, rest, horder, hgt, hroom⟩
  · have hlt : c.order.length < c.capacity := by omega
    have hbound : (c.order ++ [id]).length ≤ c.capacity := by
      rw [List.length_append, List.length_singleton]
      exact hlt
    rw [evict_of_le hle, kept, if_pos hlt]
    exact ⟨⟨h.positive, hmap.symm, hnodup, hbound⟩, rfl⟩
  · have hfull : ¬ c.order.length < c.capacity := by omega
    have hne : c.events ≠ [] := by
      have hpositive := h.positive
      rw [← List.length_pos_iff, h.length_events]
      omega
    obtain ⟨first, others, hevents⟩ := List.exists_cons_of_ne_nil hne
    have horder' : c.order ++ [id] = first.1 :: (others ++ [(id, event)]).map Prod.fst := by
      rw [← hmap, hevents]
      rfl
    rw [horder', List.cons_eq_cons] at horder
    obtain ⟨rfl, rfl⟩ := horder
    have hremove := h.remove_oldest hid event hevents
    have hevict := evict_of_gt ((others ++ [(id, event)]).map Prod.fst) hgt hroom
    rw [← horder', hremove] at hevict
    rw [hremove, ← List.length_map (f := Prod.fst)] at hroom
    rw [horder', List.nodup_cons] at hnodup
    rw [hevict, kept, if_neg hfull, hevents]
    exact ⟨⟨h.positive, rfl, hnodup.2, hroom⟩, rfl⟩

theorem Ordered.insert (h : c.Ordered) : (c.insert id event).Ordered := by
  cases hid : (c.get id).isSome with
  | true => rw [insert_of_isSome hid]; exact h
  | false => exact (h.insert_of_new hid).1

theorem capacity_insert : (c.insert id event).capacity = c.capacity := by
  rw [CompletedResults.insert]
  split
  · rfl
  · rfl

/-- After an insertion the request has a result. -/
theorem Ordered.get_insert_self (h : c.Ordered) : ((c.insert id event).get id).isSome = true := by
  cases hid : (c.get id).isSome with
  | true => rw [insert_of_isSome hid]; exact hid
  | false =>
    rw [get, lookup_isSome_iff_mem, (h.insert_of_new hid).2, List.map_append]
    exact List.mem_append_right _ (List.mem_cons_self ..)

/-- An insertion adds nothing but the given result. -/
theorem Ordered.mem_insert (h : c.Ordered) {x : Text × Event}
    (hx : x ∈ (c.insert id event).events) : x ∈ c.events ∨ x = (id, event) := by
  cases hid : (c.get id).isSome with
  | true => rw [insert_of_isSome hid] at hx; exact Or.inl hx
  | false =>
    rw [(h.insert_of_new hid).2, List.mem_append, List.mem_singleton] at hx
    rcases hx with hx | rfl
    · exact Or.inl (kept_suffix.subset hx)
    · exact Or.inr rfl

/-- An insertion gives a result to no other request. -/
theorem Ordered.get_insert_isSome (h : c.Ordered) {x : Text}
    (hx : ((c.insert id event).get x).isSome = true) : (c.get x).isSome = true ∨ x = id := by
  rw [get_isSome_iff h.insert, h.insert.order] at hx
  obtain ⟨y, hy, rfl⟩ := List.mem_map.mp hx
  rcases h.mem_insert hy with hold | rfl
  · left
    rw [get_isSome_iff h, h.order]
    exact List.mem_map_of_mem hold
  · exact Or.inr rfl

/-- What each request has after a new result came. -/
theorem Ordered.get_insert (h : c.Ordered) (hid : c.get id = none) (x : Text) :
    (c.insert id event).get x =
      if x = id then some event else if c.evicted id = some x then none else c.get x := by
  have hnone : (c.get id).isSome = false := by rw [hid]; rfl
  have hnot : id ∉ c.events.map Prod.fst := lookup_eq_none_iff_notMem.mp hid
  have hlast : ([(id, event)] : List (Text × Event)).lookup x = if x = id then some event else none := by
    rw [List.lookup_cons]
    by_cases hx : x = id
    · simp [hx]
    · rw [beq_false_of_ne hx, if_neg hx]; rfl
  have hself : c.kept.lookup id = none :=
    lookup_eq_none_iff_notMem.mpr fun hmem => hnot ((kept_suffix.map Prod.fst).subset hmem)
  rw [get, (h.insert_of_new hnone).2, List.lookup_append, hlast]
  by_cases hx : x = id
  · rw [if_pos hx, if_pos hx, hx, hself]; rfl
  have hevicted : c.evicted id = if c.order.length < c.capacity then none else c.order.head? := by
    simp [evicted, hnone]
  rw [if_neg hx, if_neg hx, Option.or_none, hevicted, kept, get]
  by_cases hroom : c.order.length < c.capacity
  · simp only [if_pos hroom, reduceCtorEq, if_false]
  rw [if_neg hroom, if_neg hroom, h.order]
  have hnodup := h.nodup
  rw [h.order] at hnodup
  cases hevents : c.events with
  | nil => rfl
  | cons oldest rest =>
    rw [hevents, List.map_cons, List.nodup_cons] at hnodup
    rw [List.tail_cons, List.map_cons, List.head?_cons, List.lookup_cons]
    by_cases hold : oldest.1 = x
    · rw [if_pos (congrArg some hold)]
      exact lookup_eq_none_iff_notMem.mpr (hold ▸ hnodup.1)
    · rw [if_neg fun heq => hold (Option.some.inj heq), beq_false_of_ne (Ne.symm hold)]

/-- With room left, the queue grows by the new request. -/
theorem Ordered.order_insert (h : c.Ordered) (hid : c.get id = none)
    (hroom : c.order.length < c.capacity) : (c.insert id event).order = c.order ++ [id] := by
  have hnone : (c.get id).isSome = false := by rw [hid]; rfl
  obtain ⟨hordered, hevents⟩ : (c.insert id event).Ordered ∧ _ := h.insert_of_new hnone
  rw [hordered.order, hevents, kept, if_pos hroom, List.map_append, ← h.order]
  rfl

end CompletedResults

end SoulSociety.Provider
