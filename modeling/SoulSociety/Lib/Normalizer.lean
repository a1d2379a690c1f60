import Mathlib.Data.List.Forall2
import SoulSociety.Lib.Check

/-! Normalizing a list: every entry by a function that may fail, then the first of equal entries is
    kept. A list without duplicates is left alone exactly when each entry is its own normal form. -/

namespace SoulSociety.Lib

universe u

variable {ε α : Type u} [DecidableEq α]

/-! ### The first of equal entries -/

theorem eraseDups_sublist : ∀ as : List α, as.eraseDups.Sublist as
  | [] => by simp
  | a :: as => by
    rw [List.eraseDups_cons]
    exact ((eraseDups_sublist _).trans List.filter_sublist).cons_cons a
termination_by as => as.length
decreasing_by exact Nat.lt_succ_of_le (List.length_filter_le _ _)

theorem nodup_eraseDups : ∀ as : List α, as.eraseDups.Nodup
  | [] => by simp
  | a :: as => by
    rw [List.eraseDups_cons, List.nodup_cons]
    exact ⟨by simp, nodup_eraseDups _⟩
termination_by as => as.length
decreasing_by exact Nat.lt_succ_of_le (List.length_filter_le _ _)

theorem eraseDups_of_nodup {as : List α} (h : as.Nodup) : as.eraseDups = as := by
  induction as with
  | nil => rfl
  | cons a as ih =>
    obtain ⟨ha, has⟩ := List.nodup_cons.mp h
    have hkeep : as.filter (fun b => !b == a) = as :=
      List.filter_eq_self.mpr fun b hb => by
        simpa using fun hba : b = a => ha (hba ▸ hb)
    rw [List.eraseDups_cons, hkeep, ih has]

/-! ### Normal forms -/

omit [DecidableEq α] in
theorem mapM_eq_ok {f : α → Except ε α} {as bs : List α} :
    as.mapM f = .ok bs ↔ List.Forall₂ (fun a b => f a = .ok b) as bs := by
  induction as generalizing bs with
  | nil =>
    rw [List.mapM_nil, pure_eq_ok, List.forall₂_nil_left_iff]
    exact eq_comm
  | cons a as ih =>
    simp only [List.mapM_cons, bind_eq_ok, pure_eq_ok]
    constructor
    · rintro ⟨b, hb, bs, hbs, rfl⟩
      exact .cons hb (ih.mp hbs)
    · intro h
      cases h with
      | cons hb hbs => exact ⟨_, hb, _, ih.mpr hbs, rfl⟩

/-- The normal forms of the entries, each one once. -/
def normalizeAll (f : α → Except ε α) (as : List α) : Except ε (List α) := do
  return (← as.mapM f).eraseDups

theorem normalizeAll_eq_ok {f : α → Except ε α} {as bs : List α} :
    normalizeAll f as = .ok bs ↔ ∃ cs, as.mapM f = .ok cs ∧ cs.eraseDups = bs := by
  rw [normalizeAll, bind_eq_ok]
  simp only [pure_eq_ok]

variable {f : α → Except ε α} {as bs : List α}

theorem nodup_of_normalizeAll (h : normalizeAll f as = .ok bs) : bs.Nodup := by
  obtain ⟨cs, -, rfl⟩ := normalizeAll_eq_ok.mp h
  exact nodup_eraseDups cs

theorem mem_of_normalizeAll (h : normalizeAll f as = .ok bs) {b : α} :
    b ∈ bs ↔ ∃ a ∈ as, f a = .ok b := by
  obtain ⟨cs, hcs, rfl⟩ := normalizeAll_eq_ok.mp h
  rw [List.mem_eraseDups]
  have hforall := mapM_eq_ok.mp hcs
  clear hcs h
  induction hforall with
  | nil => simp
  | @cons a c as cs hb _ ih =>
    simp only [List.mem_cons, ih]
    constructor
    · rintro (rfl | ⟨a, ha, hf⟩)
      · exact ⟨_, .inl rfl, hb⟩
      · exact ⟨a, .inr ha, hf⟩
    · rintro ⟨a, rfl | ha, hf⟩
      · exact .inl (Except.ok.inj (hf.symm.trans hb))
      · exact .inr ⟨a, ha, hf⟩

theorem normalized_of_mem (h : normalizeAll f as = .ok bs) {a : α} (ha : a ∈ as) :
    ∃ b ∈ bs, f a = .ok b := by
  obtain ⟨cs, hcs, -⟩ := normalizeAll_eq_ok.mp h
  obtain ⟨i, hi, rfl⟩ := List.getElem_of_mem ha
  have hforall := mapM_eq_ok.mp hcs
  have hb := hforall.get hi (hforall.length_eq ▸ hi)
  exact ⟨_, (mem_of_normalizeAll h).mpr ⟨_, ha, hb⟩, hb⟩

theorem normalizeAll_eq_self_iff (h : as.Nodup) :
    normalizeAll f as = .ok as ↔ ∀ a ∈ as, f a = .ok a := by
  rw [normalizeAll_eq_ok]
  constructor
  · rintro ⟨cs, hcs, herase⟩
    have hforall := mapM_eq_ok.mp hcs
    -- nothing was erased, because as many entries are left as there were at first
    have hsame : cs.eraseDups = cs := by
      refine (eraseDups_sublist cs).eq_of_length ?_
      rw [herase, hforall.length_eq]
    rw [← hsame, herase] at hforall
    exact List.forall₂_same.mp hforall
  · intro hfixed
    exact ⟨as, mapM_eq_ok.mpr (List.forall₂_same.mpr hfixed), eraseDups_of_nodup h⟩

end SoulSociety.Lib
