import Mathlib.Algebra.GroupWithZero.Nat
import Mathlib.Data.List.Count

/-! A counting semaphore and its parties. The parties stand in a list, and one that moves replaces
    its own entry. What is conserved is the number of free permits and of parties that hold one. -/

namespace SoulSociety.Lib

variable {α : Type*} {holds p q : α → Bool} {permits max i : ℕ} {parties : List α} {a b : α}

/-- Replacing one entry moves the count by that entry. -/
theorem countP_set : ∀ {i : ℕ} {l : List α}, l[i]? = some a →
    (l.set i b).countP p + (if p a then 1 else 0) = l.countP p + (if p b then 1 else 0)
  | i, [], h => by simp at h
  | 0, x :: l, h => by
    obtain rfl : x = a := by simpa using h
    simp only [List.set_cons_zero, List.countP_cons]
    omega
  | i + 1, x :: l, h => by
    have ih := countP_set (l := l) (i := i) (by simpa using h)
    simp only [List.set_cons_succ, List.countP_cons]
    omega

/-- Replacing one entry moves the sum by that entry. -/
theorem sum_map_set {w : α → ℕ} : ∀ {i : ℕ} {l : List α}, l[i]? = some a →
    ((l.set i b).map w).sum + w a = (l.map w).sum + w b
  | i, [], h => by simp at h
  | 0, x :: l, h => by
    obtain rfl : x = a := by simpa using h
    simp only [List.set_cons_zero, List.map_cons, List.sum_cons]
    omega
  | i + 1, x :: l, h => by
    have ih := sum_map_set (w := w) (l := l) (i := i) (by simpa using h)
    simp only [List.set_cons_succ, List.map_cons, List.sum_cons]
    omega

/-- The entry that was replaced, and the others. -/
theorem getElem?_set_eq_some {j : ℕ} {l : List α} {x : α} (h : l[i]? = some a) :
    (l.set i b)[j]? = some x ↔ i = j ∧ b = x ∨ i ≠ j ∧ l[j]? = some x := by
  obtain ⟨hlt, -⟩ := List.getElem?_eq_some_iff.mp h
  rw [List.getElem?_set]
  split
  · rename_i hij
    simp [hij, hij ▸ hlt]
  · rename_i hij
    simp [hij]

/-- Replacing one entry exchanges what that entry carries. -/
theorem perm_filterMap_set {β : Type*} {f : α → Option β} : ∀ {i : ℕ} {l : List α}, l[i]? = some a →
    ((l.set i b).filterMap f ++ (f a).toList).Perm (l.filterMap f ++ (f b).toList)
  | i, [], h => by simp at h
  | 0, x :: l, h => by
    obtain rfl : x = a := by simpa using h
    have hcons : ∀ y, ((y :: l).filterMap f).Perm (l.filterMap f ++ (f y).toList) := by
      intro y
      rw [List.filterMap_cons]
      cases f y with
      | none => simp
      | some z => exact (List.perm_append_singleton z _).symm
    rw [List.set_cons_zero]
    refine ((hcons b).append_right _).trans (List.Perm.trans ?_ ((hcons x).symm.append_right _))
    rw [List.append_assoc, List.append_assoc]
    exact List.perm_append_comm.append_left _
  | i + 1, x :: l, h => by
    have ih := perm_filterMap_set (f := f) (l := l) (i := i) (by simpa using h)
    rw [List.set_cons_succ, List.filterMap_cons, List.filterMap_cons]
    cases f x with
    | none => exact ih
    | some z => exact ih.cons z

/-- Every permit is free or held by one party. -/
def Conserved (holds : α → Bool) (max permits : ℕ) (parties : List α) : Prop :=
  permits + parties.countP holds = max

theorem conserved_nil : Conserved holds max max [] := by simp [Conserved]

namespace Conserved

/-- A new party takes a permit. -/
theorem acquire (h : Conserved holds max permits parties) (hfree : 0 < permits)
    (ha : holds a = true) : Conserved holds max (permits - 1) (parties ++ [a]) := by
  simp only [Conserved, List.countP_append, List.countP_cons, List.countP_nil, ha] at *
  simp only [if_true]
  omega

/-- A new party takes none. -/
theorem pass (h : Conserved holds max permits parties) (ha : holds a = false) :
    Conserved holds max permits (parties ++ [a]) := by
  simpa [Conserved, ha] using h

/-- A party moves and keeps what it holds. -/
theorem keep (h : Conserved holds max permits parties) (hi : parties[i]? = some a)
    (hab : holds b = holds a) : Conserved holds max permits (parties.set i b) := by
  have hcount := countP_set (b := b) (p := holds) hi
  rw [hab] at hcount
  simp only [Conserved] at *
  omega

/-- A party returns its permit. -/
theorem release (h : Conserved holds max permits parties) (hi : parties[i]? = some a)
    (ha : holds a = true) (hb : holds b = false) :
    Conserved holds max (permits + 1) (parties.set i b) := by
  have hcount := countP_set (b := b) (p := holds) hi
  simp only [ha, hb, if_true] at hcount
  simp only [Conserved] at *
  simp at hcount
  omega

/-- When nobody holds a permit, all are free. -/
theorem all_free (h : Conserved holds max permits parties) (hnone : ∀ a ∈ parties, holds a = false) :
    permits = max := by
  have hcount : parties.countP holds = 0 :=
    List.countP_eq_zero.mpr fun a ha => by simp [hnone a ha]
  rw [Conserved, hcount] at h
  exact h

/-- The parties that do what takes a permit, or are among `q`, are at most `max` and those in `q`. -/
theorem countP_le (h : Conserved holds max permits parties)
    (hp : ∀ a ∈ parties, p a = true → holds a = true ∨ q a = true) :
    parties.countP p ≤ max + parties.countP q := by
  have hle : parties.countP p ≤ parties.countP holds + parties.countP q := by
    clear h
    induction parties with
    | nil => simp
    | cons a l ih =>
      have hrec := ih fun b hb => hp b (List.mem_cons_of_mem a hb)
      have ha := hp a List.mem_cons_self
      simp only [List.countP_cons]
      cases hpa : p a with
      | false => simp; omega
      | true => rcases ha hpa with ha | ha <;> simp [ha] <;> omega
  simp only [Conserved] at h
  omega

end Conserved

end SoulSociety.Lib
