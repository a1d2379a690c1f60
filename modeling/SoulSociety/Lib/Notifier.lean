import Mathlib.Data.List.Basic
import Mathlib.Data.Nat.Notation

/-! Synchronous notification of a live list of listeners. A commit replaces the current value and
    starts a broadcast of it; a listener that is called may commit again, so broadcasts nest, the
    newest innermost. A listener is up to date once the outermost broadcast has returned, and hears
    the values in their order exactly as long as no broadcast calls it with a value that has been
    replaced. -/

namespace SoulSociety.Lib

variable {ι V : Type*}

/-- The current value, the listeners (`false` marks one that was removed), the broadcasts under way
    with the position of the next listener, innermost first, and what was heard. -/
structure Notifier (ι V : Type*) where
  current : V
  listeners : List (ι × Bool)
  frames : List (V × ℕ)
  heard : List (ι × V)

namespace Notifier

def commit (n : Notifier ι V) (v : V) : Notifier ι V :=
  { n with current := v, frames := (v, 0) :: n.frames }

/-- The innermost broadcast is of the current value and inside another one, and has not come to every
    listener. -/
def LeavesOut (n : Notifier ι V) : Prop :=
  ∃ i fs, n.frames = (n.current, i) :: fs ∧ fs ≠ [] ∧
    ∃ j l, i ≤ j ∧ n.listeners[j]? = some (l, true)

/-- The broadcast of `v`, inside those of `fs`, calls the listener at its position. -/
def deliver (n : Notifier ι V) (v : V) (i : ℕ) (fs : List (V × ℕ)) (l : ι) : Notifier ι V :=
  { n with frames := (v, i + 1) :: fs, heard := n.heard ++ [(l, v)] }

/-- What the broadcasts under way have still to tell the listener at position `j`. -/
def owed (n : Notifier ι V) (j : ℕ) : List V :=
  n.frames.flatMap fun f => if f.2 ≤ j then [f.1] else []

/-- What happens besides commits and deliveries. A broadcast that leaves out a listener is not
    abandoned. -/
inductive Step (n : Notifier ι V) : Notifier ι V → Prop
  | idle : Step n n
  | skip {v : V} {i : ℕ} {fs : List (V × ℕ)} {l : ι} (hf : n.frames = (v, i) :: fs)
      (hl : n.listeners[i]? = some (l, false)) :
      Step n { n with frames := (v, i + 1) :: fs }
  | finish {v : V} {i : ℕ} {fs : List (V × ℕ)} (hf : n.frames = (v, i) :: fs)
      (hi : n.listeners.length ≤ i) :
      Step n { n with frames := fs }
  | abandon {v : V} {i : ℕ} {fs : List (V × ℕ)} (hf : n.frames = (v, i) :: fs)
      (hkept : ¬ n.LeavesOut) : Step n { n with frames := fs }
  | greet {l : ι} (hl : (l, true) ∈ n.listeners) : Step n { n with heard := n.heard ++ [(l, n.current)] }
  | subscribe {l : ι} : Step n
      { n with listeners := n.listeners ++ [(l, true)], heard := n.heard ++ [(l, n.current)] }
  | unsubscribe (f : ι × Bool → ι × Bool) (hf : ∀ x l, f x = (l, true) → x = (l, true)) :
      Step n { n with listeners := n.listeners.map f }

/-- Steps, and commits after them. A commit may also follow when a broadcast is abandoned, whomever it
    leaves out. -/
inductive Moves (rev : V → ℕ) (n : Notifier ι V) : Notifier ι V → Prop
  | step {n' : Notifier ι V} (h : Step n n') : Moves rev n n'
  | commit {n' : Notifier ι V} {v : V} (h : Step n n') (hv : rev n'.current < rev v) :
      Moves rev n (n'.commit v)
  | replace {v w : V} {i : ℕ} {fs : List (V × ℕ)} (hf : n.frames = (w, i) :: fs)
      (hv : rev n.current < rev v) : Moves rev n (commit { n with frames := fs } v)

variable {n n' : Notifier ι V} {v : V} {i : ℕ} {fs : List (V × ℕ)} {l : ι} {rev : V → ℕ}

/-! ### What a listener has heard -/

variable [DecidableEq ι]

def heardBy (n : Notifier ι V) (l : ι) : List V :=
  n.heard.filterMap fun x => if x.1 = l then some x.2 else none

theorem mem_heardBy : v ∈ n.heardBy l ↔ (l, v) ∈ n.heard := by
  rw [heardBy, List.mem_filterMap]
  constructor
  · rintro ⟨⟨k, w⟩, hmem, hsome⟩
    obtain ⟨rfl, hw⟩ := Option.ite_none_right_eq_some.mp hsome
    exact Option.some.inj hw ▸ hmem
  · intro hmem
    exact ⟨(l, v), hmem, if_pos rfl⟩

/-- Every listener has heard the values in the order of their commits. -/
def InOrder (rev : V → ℕ) (n : Notifier ι V) : Prop :=
  ∀ l, (n.heardBy l).Pairwise fun v w => rev v ≤ rev w

/-- The last value that each listener heard is the current one. -/
def Informed (n : Notifier ι V) : Prop :=
  ∀ l, (l, true) ∈ n.listeners → (n.heardBy l).getLast? = some n.current

/-! ### Invariants -/

omit [DecidableEq ι] in
/-- Nothing is newer than the current value, and outer broadcasts are older than inner ones. -/
structure Sorted (rev : V → ℕ) (n : Notifier ι V) : Prop where
  heard : ∀ x ∈ n.heard, x.2 = n.current ∨ rev x.2 < rev n.current
  frames : ∀ f ∈ n.frames, f.1 = n.current ∨ rev f.1 < rev n.current
  nested : n.frames.Pairwise fun f g => rev g.1 < rev f.1

/-- While a broadcast is under way, every listener has heard the current value or a broadcast of it
    has not come to it yet. -/
def Covered (n : Notifier ι V) : Prop :=
  n.frames ≠ [] → ∀ j l, n.listeners[j]? = some (l, true) →
    (l, n.current) ∈ n.heard ∨ ∃ f ∈ n.frames, f.1 = n.current ∧ f.2 ≤ j

omit [DecidableEq ι]

/-- Outer broadcasts are of older values than the innermost one. -/
theorem Sorted.older (h : n.Sorted rev) (hf : n.frames = (v, i) :: fs) {f : V × ℕ} (hmem : f ∈ fs) :
    rev f.1 < rev n.current := by
  have hnested := h.nested
  rw [hf, List.pairwise_cons] at hnested
  have hlt := hnested.1 f hmem
  rcases h.frames (v, i) (hf ▸ List.mem_cons_self) with heq | hle
  · rw [← heq]
    exact hlt
  · exact Nat.lt_trans hlt hle

theorem Sorted.commit (h : n.Sorted rev) (hv : rev n.current < rev v) : (n.commit v).Sorted rev := by
  have hle : ∀ w, w = n.current ∨ rev w < rev n.current → rev w < rev v := by
    rintro w (rfl | hw)
    · exact hv
    · exact Nat.lt_trans hw hv
  refine ⟨fun x hx => .inr (hle _ (h.heard x hx)), fun f hf => ?_, ?_⟩
  · rcases List.mem_cons.mp hf with rfl | hf
    · exact .inl rfl
    · exact .inr (hle _ (h.frames f hf))
  · exact List.pairwise_cons.mpr ⟨fun f hf => hle _ (h.frames f hf), h.nested⟩

/-- One more value is heard, which is not newer than the current one. -/
theorem Sorted.hear (h : n.Sorted rev) (hv : v = n.current ∨ rev v < rev n.current)
    {ls : List (ι × Bool)} :
    Sorted rev { n with listeners := ls, heard := n.heard ++ [(l, v)] } := by
  refine ⟨fun x hx => ?_, h.frames, h.nested⟩
  rcases List.mem_append.mp hx with hx | hx
  · exact h.heard x hx
  · obtain rfl := List.mem_singleton.mp hx
    exact hv

theorem Sorted.pop (h : n.Sorted rev) (hf : n.frames = (v, i) :: fs) :
    Sorted rev { n with frames := fs } := by
  obtain ⟨hheard, hframes, hnested⟩ := h
  rw [hf] at hframes hnested
  exact ⟨hheard, fun f hmem => hframes f (List.mem_cons_of_mem _ hmem), hnested.tail⟩

/-- The innermost broadcast goes on to another position. -/
theorem Sorted.next (h : n.Sorted rev) (hf : n.frames = (v, i) :: fs) (j : ℕ) :
    Sorted rev { n with frames := (v, j) :: fs } := by
  obtain ⟨hheard, hframes, hnested⟩ := h
  rw [hf] at hframes hnested
  rw [List.pairwise_cons] at hnested
  refine ⟨hheard, fun f hmem => ?_, List.pairwise_cons.mpr hnested⟩
  rcases List.mem_cons.mp hmem with rfl | hmem
  · exact hframes (v, i) List.mem_cons_self
  · exact hframes f (List.mem_cons_of_mem _ hmem)

theorem Sorted.deliver (h : n.Sorted rev) (hf : n.frames = (v, i) :: fs) (l : ι) :
    (n.deliver v i fs l).Sorted rev :=
  (h.next hf (i + 1)).hear (h.frames (v, i) (hf ▸ List.mem_cons_self))

theorem Sorted.step (h : n.Sorted rev) (hstep : Step n n') : n'.Sorted rev := by
  cases hstep with
  | idle => exact h
  | skip hf _ => exact h.next hf _
  | finish hf _ => exact h.pop hf
  | abandon hf _ => exact h.pop hf
  | greet _ => exact h.hear (.inl rfl)
  | subscribe => exact h.hear (.inl rfl)
  | unsubscribe f _ => exact ⟨h.heard, h.frames, h.nested⟩

theorem covered_commit : (n.commit v).Covered :=
  fun _ j _ _ => .inr ⟨(v, 0), List.mem_cons_self, rfl, Nat.zero_le j⟩

/-- More is heard, and no listener is added. -/
theorem Covered.hear (h : n.Covered) {x : ι × V} :
    Covered { n with heard := n.heard ++ [x] } := fun hne j l hj =>
  (h hne j l hj).imp_left (List.mem_append_left _)

/-- The innermost broadcast goes on, once the listener at its position has heard or was removed. -/
theorem Covered.next (h : n.Covered) (hf : n.frames = (v, i) :: fs)
    (hi : ∀ l, n.listeners[i]? = some (l, true) → v = n.current → (l, v) ∈ n.heard) :
    Covered { n with frames := (v, i + 1) :: fs } := by
  intro _ j l hj
  rcases h (hf ▸ List.cons_ne_nil _ _) j l hj with hheard | ⟨f, hmem, hcurrent, hle⟩
  · exact .inl hheard
  · rw [hf] at hmem
    rcases List.mem_cons.mp hmem with rfl | hmem
    · have hle : i ≤ j := hle
      rcases Nat.eq_or_lt_of_le hle with rfl | hlt
      · have hcurrent : v = n.current := hcurrent
        exact .inl (hcurrent ▸ hi l hj hcurrent)
      · exact .inr ⟨(v, i + 1), List.mem_cons_self, hcurrent, hlt⟩
    · exact .inr ⟨f, List.mem_cons_of_mem _ hmem, hcurrent, hle⟩

/-- The innermost broadcast ends, and leaves nobody out. -/
theorem Covered.pop (h : n.Covered) (hf : n.frames = (v, i) :: fs)
    (hi : fs ≠ [] → v = n.current → ∀ j l, i ≤ j → n.listeners[j]? ≠ some (l, true)) :
    Covered { n with frames := fs } := by
  intro hne j l hj
  rcases h (hf ▸ List.cons_ne_nil _ _) j l hj with hheard | ⟨f, hmem, hcurrent, hle⟩
  · exact .inl hheard
  · rw [hf] at hmem
    rcases List.mem_cons.mp hmem with rfl | hmem
    · exact absurd hj (hi hne hcurrent j l hle)
    · exact .inr ⟨f, hmem, hcurrent, hle⟩

theorem Covered.deliver (h : n.Covered) (hf : n.frames = (v, i) :: fs)
    (hl : n.listeners[i]? = some (l, true)) : (n.deliver v i fs l).Covered := by
  refine Covered.next (n := { n with heard := n.heard ++ [(l, v)] }) h.hear hf ?_
  intro k hk _
  obtain rfl : l = k := congrArg Prod.fst (Option.some.inj (hl.symm.trans hk))
  exact List.mem_append_right _ List.mem_cons_self

theorem Covered.step (h : n.Covered) (hstep : Step n n') : n'.Covered := by
  cases hstep with
  | idle => exact h
  | @skip v i fs l hf hl =>
    refine h.next hf fun k hk _ => ?_
    cases hl.symm.trans hk
  | @finish v i fs hf hi =>
    refine h.pop hf fun _ _ j l hle hj => ?_
    have hlt := (List.getElem?_eq_some_iff.mp hj).1
    omega
  | @abandon v i fs hf hkept =>
    refine h.pop hf fun hne hcurrent j l hle hj => hkept ?_
    exact ⟨i, fs, hcurrent ▸ hf, hne, j, l, hle, hj⟩
  | greet _ => exact h.hear
  | @subscribe l =>
    intro hne j k hj
    -- the listener that was added has just heard the current value
    rcases Nat.lt_or_ge j n.listeners.length with hlt | hge
    · have hj : (n.listeners ++ [(l, true)])[j]? = some (k, true) := hj
      rw [List.getElem?_append_left hlt] at hj
      exact h.hear hne j k hj
    · have hj : (n.listeners ++ [(l, true)])[j]? = some (k, true) := hj
      rw [List.getElem?_append_right hge] at hj
      have hk : (k, true) ∈ [(l, true)] := List.mem_of_getElem? hj
      obtain rfl : k = l := congrArg Prod.fst (List.mem_singleton.mp hk)
      exact .inl (List.mem_append_right _ List.mem_cons_self)
  | unsubscribe f hf =>
    intro hne j k hj
    have hj : (n.listeners.map f)[j]? = some (k, true) := hj
    rw [List.getElem?_map, Option.map_eq_some_iff] at hj
    obtain ⟨x, hx, hfx⟩ := hj
    exact h hne j k (hf x k hfx ▸ hx)

/-- Both invariants, along any moves. -/
theorem Moves.preserve (h : Moves rev n n') (hsorted : n.Sorted rev) (hcovered : n.Covered) :
    n'.Sorted rev ∧ n'.Covered := by
  cases h with
  | step h => exact ⟨hsorted.step h, hcovered.step h⟩
  | commit h hv => exact ⟨(hsorted.step h).commit hv, covered_commit⟩
  | replace hf hv => exact ⟨(hsorted.pop hf).commit hv, covered_commit⟩

/-! ### What the listeners hear -/

theorem Step.heard (h : Step n n') :
    n'.heard = n.heard ∨ ∃ l, n'.heard = n.heard ++ [(l, n.current)] := by
  cases h with
  | greet _ => exact .inr ⟨_, rfl⟩
  | subscribe => exact .inr ⟨_, rfl⟩
  | _ => exact .inl rfl

theorem Moves.heard (h : Moves rev n n') :
    n'.heard = n.heard ∨ ∃ l, n'.heard = n.heard ++ [(l, n.current)] := by
  cases h with
  | step h => exact h.heard
  | commit h _ => exact h.heard
  | replace _ _ => exact .inl rfl

variable [DecidableEq ι]

theorem heardBy_of_eq (h : n'.heard = n.heard) (l : ι) : n'.heardBy l = n.heardBy l := by
  rw [heardBy, h, heardBy]

theorem heardBy_concat {x : ι × V} (h : n'.heard = n.heard ++ [x]) (l : ι) :
    n'.heardBy l = n.heardBy l ++ if x.1 = l then [x.2] else [] := by
  rw [heardBy, h, List.filterMap_append, heardBy]
  split <;> simp [*]

/-- The current value keeps the order. -/
theorem InOrder.hear (h : n.InOrder rev) (hsorted : n.Sorted rev)
    (hheard : n'.heard = n.heard ++ [(l, n.current)]) : n'.InOrder rev := by
  intro k
  rw [heardBy_concat hheard]
  split
  · rename_i hk
    obtain rfl : l = k := hk
    rw [List.pairwise_append]
    refine ⟨h l, List.pairwise_singleton _ _, fun v hv w hw => ?_⟩
    obtain rfl := List.mem_singleton.mp hw
    rcases hsorted.heard (l, v) (mem_heardBy.mp hv) with heq | hlt
    · exact Nat.le_of_eq (congrArg rev heq)
    · exact Nat.le_of_lt hlt
  · rw [List.append_nil]
    exact h k

theorem InOrder.moves (h : n.InOrder rev) (hsorted : n.Sorted rev) (hmoves : Moves rev n n') :
    n'.InOrder rev := by
  rcases hmoves.heard with hsame | ⟨l, hheard⟩
  · intro k
    rw [heardBy_of_eq hsame]
    exact h k
  · exact h.hear hsorted hheard

/-- A listener that is called with a replaced value has heard the current one before. -/
theorem not_inOrder_of_stale (hsorted : n.Sorted rev) (hcovered : n.Covered)
    (hf : n.frames = (v, i) :: fs) (hl : n.listeners[i]? = some (l, true)) (hv : v ≠ n.current) :
    ¬ (n.deliver v i fs l).InOrder rev := by
  have hlt : rev v < rev n.current :=
    (hsorted.frames (v, i) (hf ▸ List.mem_cons_self)).resolve_left hv
  have hheard : (l, n.current) ∈ n.heard := by
    refine (hcovered (hf ▸ List.cons_ne_nil _ _) i l hl).resolve_right ?_
    rintro ⟨f, hmem, hcurrent, -⟩
    rw [hf] at hmem
    rcases List.mem_cons.mp hmem with rfl | hmem
    · exact hv hcurrent
    · have hold := hsorted.older hf hmem
      rw [hcurrent] at hold
      exact Nat.lt_irrefl _ hold
  intro horder
  have horder := horder l
  have hconcat : (n.deliver v i fs l).heard = n.heard ++ [(l, v)] := rfl
  rw [heardBy_concat hconcat, if_pos rfl, List.pairwise_append] at horder
  have hle := horder.2.2 n.current (mem_heardBy.mpr hheard) v List.mem_cons_self
  omega

/-- When the outermost broadcast has come to all listeners, they are up to date. -/
theorem informed_of_outermost (hsorted : n.Sorted rev) (hcovered : n.Covered)
    (horder : n.InOrder rev) (hf : n.frames = [(v, i)]) (hi : n.listeners.length ≤ i) :
    n.Informed := by
  intro l hl
  obtain ⟨j, hj, hget⟩ := List.getElem_of_mem hl
  have hheard : (l, n.current) ∈ n.heard := by
    refine (hcovered (hf ▸ List.cons_ne_nil _ _) j l ?_).resolve_right ?_
    · rw [List.getElem?_eq_getElem hj, hget]
    · rintro ⟨f, hmem, -, hle⟩
      rw [hf] at hmem
      obtain rfl := List.mem_singleton.mp hmem
      have hle : i ≤ j := hle
      omega
  -- nothing that the listener heard later is older, and nothing is newer
  obtain ⟨pre, w, hsplit⟩ : ∃ pre w, n.heardBy l = pre ++ [w] := by
    have hne : n.heardBy l ≠ [] := List.ne_nil_of_mem (mem_heardBy.mpr hheard)
    exact ⟨_, _, (List.dropLast_append_getLast hne).symm⟩
  have hlast : w = n.current := by
    have hw : (l, w) ∈ n.heard := mem_heardBy.mp (hsplit ▸ by simp)
    rcases hsorted.heard (l, w) hw with heq | hlt
    · exact heq
    · have hmem := mem_heardBy.mpr hheard
      have hpairwise := horder l
      rw [hsplit] at hmem hpairwise
      rw [List.pairwise_append] at hpairwise
      rcases List.mem_append.mp hmem with hpre | hsame
      · have hle := hpairwise.2.2 _ hpre w List.mem_cons_self
        have hlt : rev w < rev n.current := hlt
        omega
      · exact (List.mem_singleton.mp hsame).symm
  rw [hsplit, List.getLast?_concat, hlast]

/-! ### Listeners that only listen -/

/-- The listener at position `j` is the only one with this name. Since the values in `past` were heard,
    it was told those in `told`: it has heard them in their order, or a broadcast owes them to it. -/
structure Follows (l : ι) (j : ℕ) (past told : List V) (n : Notifier ι V) : Prop where
  only : ∀ i, n.listeners[i]? = some (l, true) ↔ i = j
  heard : n.heardBy l ++ n.owed j = past ++ told

variable {j : ℕ} {past told : List V}

theorem Follows.lt_length (h : n.Follows l j past told) : j < n.listeners.length :=
  (List.getElem?_eq_some_iff.mp ((h.only j).mpr rfl)).1

/-- Between the broadcasts everything has been heard. -/
theorem Follows.heardBy_eq (h : n.Follows l j past told) (hf : n.frames = []) :
    n.heardBy l = past ++ told := by
  have hheard := h.heard
  rwa [owed, hf, List.flatMap_nil, List.append_nil] at hheard

theorem Follows.commit (h : n.Follows l j past told) (hf : n.frames = []) (v : V) :
    (n.commit v).Follows l j past (told ++ [v]) := by
  refine ⟨h.only, ?_⟩
  have howed : (n.commit v).owed j = [v] := by simp [owed, Notifier.commit, hf]
  rw [howed, ← List.append_assoc, ← h.heardBy_eq hf]
  rfl

/-- The innermost broadcast comes to the listener, or to another one. -/
theorem Follows.deliver (h : n.Follows l j past told) (hf : n.frames = (v, i) :: fs) {k : ι}
    (hk : n.listeners[i]? = some (k, true)) : (n.deliver v i fs k).Follows l j past told := by
  refine ⟨h.only, ?_⟩
  have hconcat : (n.deliver v i fs k).heard = n.heard ++ [(k, v)] := rfl
  have hheard := h.heard
  rw [owed, hf, List.flatMap_cons] at hheard
  rw [heardBy_concat hconcat, owed, Notifier.deliver, List.flatMap_cons, ← hheard, List.append_assoc]
  by_cases hij : i = j
  · obtain rfl : k = l :=
      congrArg Prod.fst (Option.some.inj (hk.symm.trans ((h.only i).mpr hij)))
    have hpassed : ¬ i + 1 ≤ j := by omega
    rw [if_pos rfl, if_pos (Nat.le_of_eq hij), if_neg hpassed, List.nil_append]
  · have hother : k ≠ l := fun hkl => hij ((h.only i).mp (hkl ▸ hk))
    have hsame : i + 1 ≤ j ↔ i ≤ j := by omega
    rw [if_neg hother, List.nil_append]
    simp only [hsame]

/-- The innermost broadcast passes over a listener that was removed. -/
theorem Follows.skip (h : n.Follows l j past told) (hf : n.frames = (v, i) :: fs) {k : ι}
    (hk : n.listeners[i]? = some (k, false)) :
    Follows l j past told { n with frames := (v, i + 1) :: fs } := by
  refine ⟨h.only, ?_⟩
  have hij : i ≠ j := by
    rintro rfl
    have hlive := (h.only i).mpr rfl
    rw [hk] at hlive
    cases hlive
  have hsame : i + 1 ≤ j ↔ i ≤ j := by omega
  have hheard := h.heard
  rw [owed, hf, List.flatMap_cons] at hheard
  rw [← hheard, owed, List.flatMap_cons]
  simp only [hsame]
  rfl

theorem Follows.finish (h : n.Follows l j past told) (hf : n.frames = (v, i) :: fs)
    (hi : n.listeners.length ≤ i) : Follows l j past told { n with frames := fs } := by
  refine ⟨h.only, ?_⟩
  have hlt := h.lt_length
  have hpassed : ¬ i ≤ j := by omega
  have hheard := h.heard
  rw [owed, hf, List.flatMap_cons, if_neg hpassed, List.nil_append] at hheard
  exact hheard

/-- Another listener hears the current value. -/
theorem Follows.greet (h : n.Follows l j past told) {k : ι} (hk : k ≠ l) :
    Follows l j past told { n with heard := n.heard ++ [(k, n.current)] } := by
  refine ⟨h.only, ?_⟩
  have hconcat : ({ n with heard := n.heard ++ [(k, n.current)] } : Notifier ι V).heard =
      n.heard ++ [(k, n.current)] := rfl
  rw [heardBy_concat hconcat, if_neg hk, List.append_nil]
  exact h.heard

/-- Another listener is added. -/
theorem Follows.add (h : n.Follows l j past told) {k : ι} (hk : k ≠ l) :
    Follows l j past told { n with listeners := n.listeners ++ [(k, true)] } := by
  refine ⟨fun i => ?_, h.heard⟩
  rcases Nat.lt_trichotomy i n.listeners.length with hlt | rfl | hgt
  · rw [List.getElem?_append_left hlt]
    exact h.only i
  · have hne : n.listeners.length ≠ j := Nat.ne_of_gt h.lt_length
    simp [hk, hne]
  · have hne : i ≠ j := Nat.ne_of_gt (Nat.lt_trans h.lt_length hgt)
    rw [List.getElem?_eq_none (by rw [List.length_append]; exact hgt)]
    simp [hne]

/-- Another listener is removed. -/
theorem Follows.remove (h : n.Follows l j past told) (f : ι × Bool → ι × Bool)
    (hf : ∀ x, f x = (l, true) ↔ x = (l, true)) :
    Follows l j past told { n with listeners := n.listeners.map f } := by
  refine ⟨fun i => ?_, h.heard⟩
  rw [← h.only i, List.getElem?_map, Option.map_eq_some_iff]
  constructor
  · rintro ⟨x, hx, hfx⟩
    rw [hx, (hf x).mp hfx]
  · intro hi
    exact ⟨_, hi, (hf _).mpr rfl⟩

end Notifier

end SoulSociety.Lib
