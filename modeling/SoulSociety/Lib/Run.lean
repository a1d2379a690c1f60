import Mathlib.Data.List.Infix

/-! Runs of a deterministic labelled system. Nondeterminism lives in the labels: a label says which
    party moves and what the environment answers, `step` says what follows, and `none` means that
    the label is not enabled. A run is a list of labels that are enabled one after the other. -/

namespace SoulSociety.Lib

variable {S L : Type*}

/-- Perform the labels in order. -/
def exec (step : S → L → Option S) : S → List L → Option S
  | s, [] => some s
  | s, l :: ls => (step s l).bind fun s' => exec step s' ls

/-- The run `ls` from `s₀` passes through `s`. -/
def Visits (step : S → L → Option S) (s₀ : S) (ls : List L) (s : S) : Prop :=
  ∃ pre, pre <+: ls ∧ exec step s₀ pre = some s

/-- The run `ls` from `s₀` takes the step `s —l→ s'`. -/
def Takes (step : S → L → Option S) (s₀ : S) (ls : List L) (s : S) (l : L) (s' : S) : Prop :=
  ∃ pre, pre ++ [l] <+: ls ∧ exec step s₀ pre = some s ∧ step s l = some s'

variable {step : S → L → Option S} {s₀ s s' : S} {ls ls' : List L} {l : L}

@[simp] theorem exec_nil : exec step s [] = some s := rfl

theorem exec_cons (h : step s l = some s') : exec step s (l :: ls) = exec step s' ls := by
  rw [exec, h]
  rfl

theorem exec_append : ∀ (ls ls' : List L) (s : S),
    exec step s (ls ++ ls') = (exec step s ls).bind fun m => exec step m ls'
  | [], ls', s => by simp [exec]
  | l :: ls, ls', s => by
    simp only [List.cons_append, exec]
    cases step s l with
    | none => rfl
    | some m => simpa using exec_append ls ls' m

theorem exec_concat : exec step s (ls ++ [l]) = some s' ↔
    ∃ m, exec step s ls = some m ∧ step m l = some s' := by
  rw [exec_append, Option.bind_eq_some_iff]
  simp [exec]

theorem Visits.start (s₀ : S) (ls : List L) : Visits step s₀ ls s₀ :=
  ⟨[], List.nil_prefix, rfl⟩

theorem Visits.last (h : exec step s₀ ls = some s) : Visits step s₀ ls s :=
  ⟨ls, List.prefix_refl ls, h⟩

theorem Takes.visits (h : Takes step s₀ ls s l s') : Visits step s₀ ls s := by
  obtain ⟨pre, hpre, hs, _⟩ := h
  exact ⟨pre, (List.prefix_append pre [l]).trans hpre, hs⟩

theorem Takes.visits_next (h : Takes step s₀ ls s l s') : Visits step s₀ ls s' := by
  obtain ⟨pre, hpre, hs, hl⟩ := h
  exact ⟨pre ++ [l], hpre, exec_concat.mpr ⟨s, hs, hl⟩⟩

theorem Takes.enabled (h : Takes step s₀ ls s l s') : step s l = some s' := by
  obtain ⟨_, _, _, hl⟩ := h
  exact hl

/-- What holds at the start and is kept by every step the run takes holds throughout the run. The
    step hypothesis may use the run, so conditions on its steps enter there. -/
theorem Visits.invariant {I : S → Prop} (h₀ : I s₀)
    (hstep : ∀ s l s', Takes step s₀ ls s l s' → I s → I s') (h : Visits step s₀ ls s) : I s := by
  obtain ⟨pre, hpre, hs⟩ := h
  induction pre using List.reverseRecOn generalizing s with
  | nil => simp only [exec_nil, Option.some.injEq] at hs; exact hs ▸ h₀
  | append_singleton pre l ih =>
    obtain ⟨m, hm, hl⟩ := exec_concat.mp hs
    exact hstep m l s ⟨pre, hpre, hm, hl⟩ (ih ((List.prefix_append pre [l]).trans hpre) hm)

/-- A run visits its start, and what its tail visits. -/
theorem visits_cons_iff : Visits step s (l :: ls) s' ↔
    s' = s ∨ ∃ m, step s l = some m ∧ Visits step m ls s' := by
  constructor
  · rintro ⟨pre, hpre, hs⟩
    cases pre with
    | nil => exact Or.inl (Option.some.inj hs).symm
    | cons a pre =>
      obtain ⟨rfl, htail⟩ := List.cons_prefix_cons.mp hpre
      obtain ⟨m, hm, hs⟩ := Option.bind_eq_some_iff.mp hs
      exact Or.inr ⟨m, hm, pre, htail, hs⟩
  · rintro (rfl | ⟨m, hm, pre, hpre, hs⟩)
    · exact Visits.start _ _
    · refine ⟨l :: pre, List.cons_prefix_cons.mpr ⟨rfl, hpre⟩, ?_⟩
      rw [exec, hm]
      exact hs

theorem visits_nil_iff : Visits step s [] s' ↔ s' = s := by
  constructor
  · rintro ⟨pre, hpre, hs⟩
    rw [List.prefix_nil.mp hpre] at hs
    exact (Option.some.inj hs).symm
  · rintro rfl
    exact Visits.start _ _

/-- One more step visits one more state. -/
theorem visits_concat (h : Visits step s (ls ++ [l]) s') :
    Visits step s ls s' ∨ exec step s (ls ++ [l]) = some s' := by
  obtain ⟨pre, hpre, hs⟩ := h
  rcases List.prefix_concat_iff.mp hpre with rfl | hpre
  · exact Or.inr hs
  · exact Or.inl ⟨pre, hpre, hs⟩

/-- A joined run visits what its parts visit. -/
theorem visits_append (h : Visits step s (ls ++ ls') s') : Visits step s ls s' ∨
    ∃ m, exec step s ls = some m ∧ Visits step m ls' s' := by
  induction ls generalizing s with
  | nil => exact Or.inr ⟨s, rfl, h⟩
  | cons a ls ih =>
    rcases visits_cons_iff.mp h with rfl | ⟨m, hm, hv⟩
    · exact Or.inl (Visits.start _ _)
    · rcases ih hv with hv | ⟨m', hm', hv⟩
      · exact Or.inl (visits_cons_iff.mpr (Or.inr ⟨m, hm, hv⟩))
      · refine Or.inr ⟨m', ?_, hv⟩
        rw [exec, hm]
        exact hm'

/-- The first step of a run, or one of its tail. -/
theorem takes_cons {l' : L} {m m' : S} (h : Takes step s (l :: ls) m l' m') :
    m = s ∧ l' = l ∧ step s l = some m' ∨ ∃ n, step s l = some n ∧ Takes step n ls m l' m' := by
  obtain ⟨pre, hpre, hm, hl⟩ := h
  cases pre with
  | nil =>
    obtain ⟨rfl, -⟩ := List.cons_prefix_cons.mp hpre
    obtain rfl := Option.some.inj hm
    exact Or.inl ⟨rfl, rfl, hl⟩
  | cons a pre =>
    obtain ⟨rfl, htail⟩ := List.cons_prefix_cons.mp hpre
    obtain ⟨n, hn, hm⟩ := Option.bind_eq_some_iff.mp hm
    exact Or.inr ⟨n, hn, pre, htail, hm, hl⟩

/-- A step of a joined run is one of its parts. -/
theorem takes_append {m m' : S} (h : Takes step s (ls ++ ls') m l m') : Takes step s ls m l m' ∨
    ∃ n, exec step s ls = some n ∧ Takes step n ls' m l m' := by
  induction ls generalizing s with
  | nil => exact Or.inr ⟨s, rfl, h⟩
  | cons a ls ih =>
    obtain ⟨pre, hpre, hm, hl⟩ := h
    cases pre with
    | nil =>
      obtain ⟨rfl, -⟩ := List.cons_prefix_cons.mp hpre
      exact Or.inl ⟨[], List.cons_prefix_cons.mpr ⟨rfl, List.nil_prefix⟩, hm, hl⟩
    | cons b pre =>
      obtain ⟨rfl, htail⟩ := List.cons_prefix_cons.mp hpre
      obtain ⟨n, hn, hm⟩ := Option.bind_eq_some_iff.mp hm
      rcases ih ⟨pre, htail, hm, hl⟩ with ⟨pre, htail, hm, hl⟩ | ⟨n', hn', ht⟩
      · exact Or.inl ⟨b :: pre, List.cons_prefix_cons.mpr ⟨rfl, htail⟩, by rw [exec_cons hn, hm], hl⟩
      · exact Or.inr ⟨n', by rw [exec_cons hn, hn'], ht⟩

theorem Takes.mem {m m' : S} (h : Takes step s ls m l m') : l ∈ ls := by
  obtain ⟨pre, hpre, -⟩ := h
  exact hpre.subset (List.mem_append_right _ (List.mem_singleton_self _))

/-- Steps that each use up some of a measure are no more than the measure is at the start. -/
theorem length_add_le {μ : S → ℕ} {p : L → Prop}
    (hstep : ∀ s l s', p l → step s l = some s' → μ s' < μ s) :
    ∀ {ls : List L} {s : S}, (∀ l ∈ ls, p l) → exec step s ls = some s' →
      ls.length + μ s' ≤ μ s
  | [], s, _, h => by
    obtain rfl := Option.some.inj h
    exact (Nat.zero_add _).le
  | l :: ls, s, hp, h => by
    obtain ⟨m, hm, h⟩ := Option.bind_eq_some_iff.mp h
    have hless := hstep s l m (hp l List.mem_cons_self) hm
    have hrest := length_add_le hstep (fun l' hl' => hp l' (List.mem_cons_of_mem l hl')) h
    rw [List.length_cons]
    omega

theorem not_takes_nil {m m' : S} : ¬ Takes step s [] m l m' := by
  rintro ⟨pre, hpre, -⟩
  rw [List.prefix_nil] at hpre
  exact List.append_ne_nil_of_right_ne_nil pre (List.cons_ne_nil l []) hpre

/-- Checks every step that a run takes. -/
def allTakes (step : S → L → Option S) (ok : S → L → Bool) : S → List L → Bool
  | _, [] => true
  | s, l :: ls =>
    match step s l with
    | some m => ok s l && allTakes step ok m ls
    | none => true

theorem of_allTakes {ok : S → L → Bool} {m m' : S} : ∀ {ls : List L} {s : S},
    allTakes step ok s ls = true → Takes step s ls m l m' → ok m l = true
  | [], _, _, ht => (not_takes_nil ht).elim
  | l' :: ls, s, h, ht => by
    rw [allTakes] at h
    rcases takes_cons ht with ⟨rfl, rfl, hl⟩ | ⟨n, hn, ht⟩
    · rw [hl, Bool.and_eq_true] at h
      exact h.1
    · rw [hn, Bool.and_eq_true] at h
      exact of_allTakes h.2 ht

end SoulSociety.Lib
