import Mathlib.Data.List.Basic

/-! Attempts in order until one succeeds. -/

namespace SoulSociety.Lib

variable {α β ε : Type*}

/-- `for a in attempts { match f(a) { Ok(b) => return Ok(b), Err(e) => last = e } }; Err(last)`. -/
def firstOk (f : α → Except ε β) : List α → ε → Except ε β
  | [], last => .error last
  | a :: rest, _ =>
    match f a with
    | .ok b => .ok b
    | .error e => firstOk f rest e

/-- The attempt fails. -/
def Fails (f : α → Except ε β) (a : α) : Prop := ∃ e, f a = .error e

variable {f : α → Except ε β} {as : List α} {a : α} {b : β} {e last : ε}

theorem firstOk_cons_of_ok (h : f a = .ok b) : firstOk f (a :: as) last = .ok b := by
  rw [firstOk, h]

theorem firstOk_cons_of_error (h : f a = .error e) : firstOk f (a :: as) last = firstOk f as e := by
  rw [firstOk, h]

/-- Failed attempts are passed by, and the last of their errors is kept. -/
theorem firstOk_append_of_fails (as : List α) : ∀ {before : List α} (last : ε),
    (∀ x ∈ before, Fails f x) →
      ∃ e, firstOk f (before ++ as) last = firstOk f as e ∧ firstOk f before last = .error e
  | [], last, _ => ⟨last, rfl, rfl⟩
  | x :: before, _, h => by
    obtain ⟨e, he⟩ := h x (List.mem_cons_self ..)
    rw [List.cons_append, firstOk_cons_of_error he, firstOk_cons_of_error he]
    exact firstOk_append_of_fails as e fun y hy => h y (List.mem_cons_of_mem _ hy)

/-- What is returned is what the first attempt gives that does not fail. -/
theorem firstOk_eq_ok : firstOk f as last = .ok b ↔
    ∃ before a after, as = before ++ a :: after ∧ (∀ x ∈ before, Fails f x) ∧ f a = .ok b := by
  constructor
  · intro h
    induction as generalizing last with
    | nil => cases h
    | cons a as ih =>
      cases ha : f a with
      | ok b' =>
        rw [firstOk_cons_of_ok ha] at h
        exact ⟨[], a, as, rfl, by simp, ha.trans h⟩
      | error e =>
        rw [firstOk_cons_of_error ha] at h
        obtain ⟨before, a', after, rfl, hfails, hok⟩ := ih h
        exact ⟨a :: before, a', after, rfl, List.forall_mem_cons.mpr ⟨⟨e, ha⟩, hfails⟩, hok⟩
  · rintro ⟨before, a, after, rfl, hfails, hok⟩
    obtain ⟨e, heq, -⟩ := firstOk_append_of_fails (a :: after) last hfails
    rw [heq, firstOk_cons_of_ok hok]

/-! ### Numbered attempts -/

variable {g : ℕ → Except ε β} {n : ℕ}

theorem firstOk_range_eq_ok : firstOk g (List.range n) last = .ok b ↔
    ∃ k < n, (∀ i < k, Fails g i) ∧ g k = .ok b := by
  rw [firstOk_eq_ok]
  constructor
  · rintro ⟨before, k, after, hrange, hfails, hok⟩
    have hlen := congrArg List.length hrange
    simp only [List.length_range, List.length_append, List.length_cons] at hlen
    have hget : ∀ i (hi : i < n), (List.range n)[i]? = some i := fun i hi => by simp [hi]
    have hk : k = before.length := by
      have := hget before.length (by omega)
      rw [hrange, List.getElem?_append_right (Nat.le_refl _), Nat.sub_self] at this
      exact Option.some.inj this
    refine ⟨k, by omega, fun i hi => hfails i ?_, hok⟩
    have := hget i (by omega)
    rw [hrange, List.getElem?_append_left (by omega)] at this
    exact List.mem_of_getElem? this
  · rintro ⟨k, hk, hfails, hok⟩
    obtain ⟨m, rfl⟩ := Nat.exists_eq_add_of_lt hk
    refine ⟨List.range k, k, (List.range m).map (k + 1 + ·), ?_, ?_, hok⟩
    · rw [Nat.add_right_comm, List.range_add, List.range_succ, List.append_assoc]
      rfl
    · exact fun i hi => hfails i (List.mem_range.mp hi)

end SoulSociety.Lib
