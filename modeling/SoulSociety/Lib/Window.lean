import Mathlib.Data.Finset.Card
import Mathlib.Data.List.Nodup

/-! A bounded first-in first-out window: the last `c` elements of a history, kept free of
    duplicates because an element that is still inside is never pushed again. An element that comes
    back must have been pushed out, and that takes `c` distinct other elements. -/

namespace SoulSociety.Lib

variable {α : Type*}

/-- The last `c` elements of `history`. -/
def window (c : ℕ) (history : List α) : List α := history.drop (history.length - c)

theorem window_suffix (c : ℕ) (history : List α) : window c history <:+ history :=
  List.drop_suffix _ _

@[simp] theorem length_window (c : ℕ) (history : List α) :
    (window c history).length = min c history.length := by
  rw [window, List.length_drop]; omega

/-- While there is room a push only appends. -/
theorem window_concat_of_lt {c : ℕ} {history : List α} (x : α) (h : (window c history).length < c) :
    window c (history ++ [x]) = window c history ++ [x] := by
  rw [length_window] at h
  have hlt : history.length < c := by omega
  have h₀ : history.length - c = 0 := by omega
  have h₁ : (history ++ [x]).length - c = 0 := by
    rw [List.length_append, List.length_singleton]; omega
  rw [window, window, h₀, h₁, List.drop_zero, List.drop_zero]

/-- A push into a full window drops the oldest element. -/
theorem window_concat_of_ge {c : ℕ} {history : List α} (x : α) (h : c ≤ (window c history).length) :
    window c (history ++ [x]) = (window c history ++ [x]).tail := by
  rw [length_window] at h
  have hle : c ≤ history.length := by omega
  have hlen : (history ++ [x]).length - c = history.length - c + 1 := by
    rw [List.length_append, List.length_singleton]; omega
  rw [window, hlen, ← List.drop_drop, window, List.drop_append_of_le_length (by omega),
    List.drop_one]

/-- Once `c` elements follow, what came before is out of the window. -/
theorem window_append_of_le {c : ℕ} (pre : List α) {mid : List α} (h : c ≤ mid.length) :
    window c (pre ++ mid) = window c mid := by
  have hlen : (pre ++ mid).length - c = pre.length + (mid.length - c) := by
    rw [List.length_append]; omega
  rw [window, hlen, ← List.drop_drop, List.drop_left, window]

/-- An element outside the window was followed by at least `c` others. -/
theorem le_length_of_not_mem_window {c : ℕ} {pre mid : List α} {x : α}
    (h : x ∉ window c (pre ++ x :: mid)) : c ≤ mid.length := by
  by_contra hlt
  apply h
  have hlen : (pre ++ x :: mid).length - c ≤ pre.length := by
    rw [List.length_append, List.length_cons]; omega
  rw [window, List.drop_append_of_le_length hlen]
  exact List.mem_append_right _ (List.mem_cons_self ..)

/-- The window after the push of a new element has no duplicates either. -/
theorem nodup_window_concat {c : ℕ} {history : List α} {x : α} (h : (window c history).Nodup)
    (hx : x ∉ window c history) : (window c (history ++ [x])).Nodup := by
  have hnd : (window c history ++ [x]).Nodup := by
    rw [List.nodup_append]
    refine ⟨h, List.nodup_singleton x, fun a ha b hb hab => hx ?_⟩
    rw [List.mem_singleton] at hb
    exact hb ▸ hab ▸ ha
  rcases Nat.lt_or_ge (window c history).length c with hlt | hge
  · rw [window_concat_of_lt x hlt]; exact hnd
  · rw [window_concat_of_ge x hge]; exact hnd.tail

/-- A history in which every element was outside the window when it was pushed. -/
inductive Fresh (c : ℕ) : List α → Prop
  | nil : Fresh c []
  | push {history : List α} {x : α} (h : Fresh c history) (hx : x ∉ window c history) :
      Fresh c (history ++ [x])

theorem Fresh.nodup_window {c : ℕ} {history : List α} (h : Fresh c history) :
    (window c history).Nodup := by
  induction h with
  | nil => simp [window]
  | push _ hx ih => exact nodup_window_concat ih hx

theorem Fresh.of_concat {c : ℕ} {history : List α} {x : α} (h : Fresh c (history ++ [x])) :
    Fresh c history ∧ x ∉ window c history := by
  generalize hl : history ++ [x] = l at h
  cases h with
  | nil => simp at hl
  | push h hx =>
    obtain ⟨rfl, hxx⟩ := List.append_inj' hl rfl
    rw [List.singleton_inj] at hxx
    exact ⟨h, hxx ▸ hx⟩

theorem Fresh.of_append {c : ℕ} {pre : List α} : ∀ {post : List α}, Fresh c (pre ++ post) →
    Fresh c pre := by
  intro post
  induction post using List.reverseRecOn with
  | nil => intro h; simpa using h
  | append_singleton post x ih =>
    intro h
    rw [← List.append_assoc] at h
    exact ih h.of_concat.1

variable [DecidableEq α]

/-- Between two pushes of the same element at least `c` distinct others are pushed. -/
theorem Fresh.card_between {c : ℕ} {pre mid post : List α} {x : α}
    (h : Fresh c (pre ++ x :: mid ++ x :: post)) : c ≤ (mid.toFinset.erase x).card := by
  have hsplit : pre ++ x :: mid ++ x :: post = (pre ++ x :: mid ++ [x]) ++ post := by simp
  rw [hsplit] at h
  obtain ⟨hfresh, hx⟩ := h.of_append.of_concat
  have hlen : c ≤ mid.length := le_length_of_not_mem_window hx
  -- the window at the second push is the last `c` elements of `mid`, without duplicates, without `x`
  have hwin : window c (pre ++ x :: mid) = window c mid := by
    have := window_append_of_le (pre ++ [x]) hlen
    simpa using this
  rw [hwin] at hx
  have hnd : (window c mid).Nodup := hwin ▸ hfresh.nodup_window
  have hsub : (window c mid).toFinset ⊆ mid.toFinset.erase x := by
    intro y hy
    rw [List.mem_toFinset] at hy
    rw [Finset.mem_erase, List.mem_toFinset]
    exact ⟨fun hyx => hx (hyx ▸ hy), (window_suffix c mid).subset hy⟩
  have hcard : (window c mid).toFinset.card = c := by
    rw [List.toFinset_card_of_nodup hnd, length_window]; omega
  exact hcard ▸ Finset.card_le_card hsub

/-- A history over at most `c` distinct elements never repeats one. -/
theorem Fresh.nodup_of_card_le {c : ℕ} {history : List α} (h : Fresh c history)
    (hc : history.toFinset.card ≤ c) : history.Nodup := by
  induction h with
  | nil => exact List.nodup_nil
  | @push history x hfresh hx ih =>
    have hle : history.toFinset.card ≤ c := by
      refine le_trans (Finset.card_le_card ?_) hc
      intro y hy
      rw [List.mem_toFinset] at hy ⊢
      exact List.mem_append_left _ hy
    have hnd : history.Nodup := ih hle
    have hnotin : x ∉ history := by
      intro hmem
      -- an element pushed before and outside the window now was followed by `c` distinct others
      obtain ⟨pre, mid, rfl⟩ := List.append_of_mem hmem
      have hagain : Fresh c (pre ++ x :: mid ++ x :: []) := Fresh.push hfresh hx
      have hbetween : c ≤ (mid.toFinset.erase x).card := hagain.card_between
      have hlt : (mid.toFinset.erase x).card < (pre ++ x :: mid).toFinset.card := by
        refine Finset.card_lt_card ⟨?_, fun hsub => ?_⟩
        · intro y hy
          rw [Finset.mem_erase, List.mem_toFinset] at hy
          simp [hy.2]
        · have hxm : x ∈ mid.toFinset.erase x := hsub (by simp)
          simp at hxm
      omega
    rw [List.nodup_append]
    refine ⟨hnd, List.nodup_singleton x, fun a ha b hb hab => hnotin ?_⟩
    rw [List.mem_singleton] at hb
    exact hb ▸ hab ▸ ha

/-! ### Remembering arrivals -/

/-- The history after an arrival: what the window holds is not pushed again. -/
def remember (c : ℕ) (history : List α) (x : α) : List α :=
  if x ∈ window c history then history else history ++ [x]

/-- The history of arrivals. -/
def remembered (c : ℕ) (arrivals : List α) : List α := arrivals.foldl (remember c) []

theorem remembered_concat (c : ℕ) (arrivals : List α) (x : α) :
    remembered c (arrivals ++ [x]) = remember c (remembered c arrivals) x := by
  rw [remembered, List.foldl_append]
  rfl

theorem mem_of_mem_remembered {c : ℕ} {arrivals : List α} {x : α} (h : x ∈ remembered c arrivals) :
    x ∈ arrivals := by
  induction arrivals using List.reverseRecOn with
  | nil => cases h
  | append_singleton arrivals y ih =>
    rw [remembered_concat, remember] at h
    split at h
    · exact List.mem_append_left _ (ih h)
    · rcases List.mem_append.mp h with h | h
      · exact List.mem_append_left _ (ih h)
      · exact List.mem_append_right _ h

end SoulSociety.Lib
