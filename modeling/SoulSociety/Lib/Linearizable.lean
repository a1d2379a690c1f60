import Mathlib.Data.List.Sublists

/-! Linearizability. An object performs operations one at a time; callers of a concurrent
    implementation see a history of invocations and responses. The history is linearizable when the
    calls can be put in an order in which the object gives the same responses and which agrees with
    the history on calls that do not overlap. `Linearized` is kept along a run by three rules, one
    for each of the points invocation, commit and response of a call. -/

namespace SoulSociety.Lib

variable {σ Op Res : Type*}

/-- What callers see. -/
inductive Point (Op Res : Type*) where
  | invoke (call : ℕ) (op : Op)
  | respond (call : ℕ) (res : Res)

/-- The object performs the calls in a row, with these responses, and ends in a state. -/
def Performs (perform : σ → Op → Res × σ) : σ → List (ℕ × Op × Res) → σ → Prop
  | s, [], s' => s = s'
  | s, (_, op, res) :: calls, s' =>
    (perform s op).1 = res ∧ Performs perform (perform s op).2 calls s'

/-- Some order of all completed calls, and maybe of others that have begun. -/
def Linearizable (perform : σ → Op → Res × σ) (s₀ : σ) (history : List (Point Op Res)) : Prop :=
  ∃ order : List (ℕ × Op × Res), (order.map Prod.fst).Nodup ∧
    (∃ s, Performs perform s₀ order s) ∧
    (∀ c ∈ order, .invoke c.1 c.2.1 ∈ history) ∧
    (∀ i res, .respond i res ∈ history → ∃ op, (i, op, res) ∈ order) ∧
    ∀ i res c, [.respond i res, .invoke c.1 c.2.1].Sublist history → c ∈ order →
      ∃ op, [(i, op, res), c].Sublist order

variable {perform : σ → Op → Res × σ} {s₀ s s' : σ} {history : List (Point Op Res)}
  {order order' : List (ℕ × Op × Res)} {i : ℕ} {op : Op} {res : Res}

theorem performs_append : ∀ {order : List (ℕ × Op × Res)} {s₀ : σ},
    Performs perform s₀ (order ++ order') s' ↔
      ∃ s, Performs perform s₀ order s ∧ Performs perform s order' s'
  | [], s₀ => by simp [Performs]
  | (_, op, res) :: order, s₀ => by
    have ih : ∀ m, Performs perform m (order ++ order') s' ↔
        ∃ s, Performs perform m order s ∧ Performs perform s order' s' := fun _ => performs_append
    simp only [List.cons_append, Performs, ih, ← exists_and_left, and_assoc]

/-- Every call of an order is performed in some state in between. -/
theorem Performs.of_mem : ∀ {order : List (ℕ × Op × Res)} {s₀ : σ},
    Performs perform s₀ order s' → (i, op, res) ∈ order →
      ∃ before after s, order = before ++ (i, op, res) :: after ∧ Performs perform s₀ before s ∧
        (perform s op).1 = res ∧ Performs perform (perform s op).2 after s'
  | [], _, _, hmem => nomatch hmem
  | (j, op', res') :: order, s₀, ⟨hres, hrest⟩, hmem => by
    rcases List.mem_cons.mp hmem with heq | hmem
    · cases heq
      exact ⟨[], order, s₀, rfl, rfl, hres, hrest⟩
    · obtain ⟨before, after, s, rfl, hbefore, hcall, hafter⟩ := Performs.of_mem hrest hmem
      exact ⟨(j, op', res') :: before, after, s, rfl, ⟨hres, hbefore⟩, hcall, hafter⟩

/-- What holds at the start and is kept by every operation holds at the end. -/
theorem Performs.invariant {I : σ → Prop} (hkeep : ∀ s op, I s → I (perform s op).2) :
    ∀ {order : List (ℕ × Op × Res)} {s₀ : σ}, Performs perform s₀ order s → I s₀ → I s
  | [], _, h, hI => by cases h; exact hI
  | (_, op, _) :: _, s₀, ⟨_, hrest⟩, hI => Performs.invariant hkeep hrest (hkeep s₀ op hI)

/-- What one call establishes and every operation keeps, a later call meets. -/
theorem Performs.of_pair {I : σ → Prop} {x y : ℕ × Op × Res}
    (h : Performs perform s₀ order s') (hpair : [x, y].Sublist order)
    (hstart : ∀ s, (perform s x.2.1).1 = x.2.2 → I (perform s x.2.1).2)
    (hkeep : ∀ s op, I s → I (perform s op).2) : ∃ s, I s ∧ (perform s y.2.1).1 = y.2.2 := by
  obtain ⟨front, back, rfl, hx, hy⟩ := List.cons_sublist_iff.mp hpair
  obtain ⟨m, hfront, hback⟩ := performs_append.mp h
  obtain ⟨-, _, s₁, -, -, hcall, hafter⟩ := hfront.of_mem hx
  obtain ⟨_, -, s₂, -, hbefore, hcall', -⟩ := hback.of_mem (List.singleton_sublist.mp hy)
  exact ⟨s₂, hbefore.invariant hkeep (hafter.invariant hkeep (hstart s₁ hcall)), hcall'⟩

/-- A pair of a longer list is one of the list, or ends in the new entry. -/
theorem pair_sublist_concat {α : Type*} {x y z : α} : ∀ {l : List α},
    [x, y].Sublist (l ++ [z]) → [x, y].Sublist l ∨ x ∈ l ∧ y = z
  | [], h => by simpa using h.length_le
  | a :: l, h => by
    cases h with
    | cons _ h =>
      rcases pair_sublist_concat h with h | ⟨h, hz⟩
      · exact Or.inl (h.cons a)
      · exact Or.inr ⟨List.mem_cons_of_mem a h, hz⟩
    | cons_cons _ h =>
      rcases List.mem_append.mp (List.singleton_sublist.mp h) with h | h
      · exact Or.inl ((List.singleton_sublist.mpr h).cons_cons _)
      · exact Or.inr ⟨List.mem_cons_self, List.mem_singleton.mp h⟩

theorem mem_of_pair {α : Type*} {x y : α} {l : List α} (h : [x, y].Sublist l) : x ∈ l ∧ y ∈ l :=
  ⟨h.subset (by simp), h.subset (by simp)⟩

/-- The calls that have taken effect, in the order in which they did, and the object's state. -/
structure Linearized (perform : σ → Op → Res × σ) (s₀ : σ) (history : List (Point Op Res))
    (order : List (ℕ × Op × Res)) (s : σ) : Prop where
  once : (order.map Prod.fst).Nodup
  performs : Performs perform s₀ order s
  invoked : ∀ c ∈ order, .invoke c.1 c.2.1 ∈ history
  responded : ∀ i res, .respond i res ∈ history → ∃ op, (i, op, res) ∈ order
  ordered : ∀ i res c, [.respond i res, .invoke c.1 c.2.1].Sublist history → c ∈ order →
    ∃ op, [(i, op, res), c].Sublist order

namespace Linearized

theorem start : Linearized perform s₀ [] [] s₀ where
  once := List.nodup_nil
  performs := rfl
  invoked _ h := nomatch h
  responded _ _ h := nomatch h
  ordered _ _ _ _ h := nomatch h

theorem linearizable (h : Linearized perform s₀ history order s) :
    Linearizable perform s₀ history :=
  ⟨order, h.once, ⟨s, h.performs⟩, h.invoked, h.responded, h.ordered⟩

/-- A call begins. -/
theorem invoke (h : Linearized perform s₀ history order s)
    (hnew : ∀ op, .invoke i op ∉ history) :
    Linearized perform s₀ (history ++ [.invoke i op]) order s where
  once := h.once
  performs := h.performs
  invoked c hc := List.mem_append_left _ (h.invoked c hc)
  responded j res hj := by
    rcases List.mem_append.mp hj with hj | hj
    · exact h.responded j res hj
    · cases List.mem_singleton.mp hj
  ordered j res c hpair hc := by
    rcases pair_sublist_concat hpair with hpair | ⟨-, heq⟩
    · exact h.ordered j res c hpair hc
    · -- the new call has not taken effect
      have hinvoked := h.invoked c hc
      rw [heq] at hinvoked
      exact absurd hinvoked (hnew op)

/-- A call takes effect. -/
theorem commit (h : Linearized perform s₀ history order s) (hinvoked : .invoke i op ∈ history)
    (hnew : i ∉ order.map Prod.fst) :
    Linearized perform s₀ history (order ++ [(i, op, (perform s op).1)]) (perform s op).2 where
  once := by
    rw [List.map_append, List.nodup_append]
    refine ⟨h.once, List.nodup_singleton _, ?_⟩
    rintro a ha b hb rfl
    rw [List.mem_singleton.mp hb] at ha
    exact hnew ha
  performs := performs_append.mpr ⟨s, h.performs, rfl, rfl⟩
  invoked c hc := by
    rcases List.mem_append.mp hc with hc | hc
    · exact h.invoked c hc
    · rw [List.mem_singleton.mp hc]
      exact hinvoked
  responded j res hj := by
    obtain ⟨op', hmem⟩ := h.responded j res hj
    exact ⟨op', List.mem_append_left _ hmem⟩
  ordered j res c hpair hc := by
    rcases List.mem_append.mp hc with hc | hc
    · obtain ⟨op', hsub⟩ := h.ordered j res c hpair hc
      exact ⟨op', hsub.trans (List.sublist_append_left _ _)⟩
    · -- whoever responded before this call began has taken effect already
      obtain ⟨op', hmem⟩ := h.responded j res (mem_of_pair hpair).1
      rw [List.mem_singleton.mp hc]
      exact ⟨op', (List.singleton_sublist.mpr hmem).append (List.Sublist.refl _)⟩

/-- A call that has taken effect responds. -/
theorem respond (h : Linearized perform s₀ history order s) (hmem : (i, op, res) ∈ order) :
    Linearized perform s₀ (history ++ [.respond i res]) order s where
  once := h.once
  performs := h.performs
  invoked c hc := List.mem_append_left _ (h.invoked c hc)
  responded j res' hj := by
    rcases List.mem_append.mp hj with hj | hj
    · exact h.responded j res' hj
    · cases List.mem_singleton.mp hj
      exact ⟨op, hmem⟩
  ordered j res' c hpair hc := by
    rcases pair_sublist_concat hpair with hpair | ⟨-, heq⟩
    · exact h.ordered j res' c hpair hc
    · cases heq

/-- A call that takes effect once has one response. -/
theorem unique (h : Linearized perform s₀ history order s) {op' : Op} {res' : Res}
    (hmem : (i, op, res) ∈ order) (hmem' : (i, op', res') ∈ order) : op = op' ∧ res = res' := by
  have heq := List.inj_on_of_nodup_map h.once hmem hmem' rfl
  simpa using heq

end Linearized

end SoulSociety.Lib
