import Mathlib.Logic.Basic
import Mathlib.Data.Nat.Notation

/-! A `while` loop as a relation: it holds of a start, the number of turns and the state at the exit.
    A loop that does not end stands in the relation to nothing. -/

namespace SoulSociety.Lib

variable {S : Type*}

/-- `while cond(s) { s = body(s) }` started in `s` ends in `s'` after `n` turns. -/
inductive Loop (cond : S → Prop) (body : S → S) : ℕ → S → S → Prop
  | done {s : S} (h : ¬ cond s) : Loop cond body 0 s s
  | again {n : ℕ} {s s' : S} (h : cond s) (hl : Loop cond body n (body s) s') :
      Loop cond body (n + 1) s s'

variable {cond : S → Prop} {body : S → S} {n : ℕ} {s s' : S}

/-- A body that changes nothing never gets the loop to its exit. -/
theorem not_loop_of_fixed (hs : cond s) (hfixed : body s = s) : ¬ Loop cond body n s s' := by
  intro h
  induction h with
  | done hs' => exact hs' hs
  | again _ _ ih => exact ih (hfixed.symm ▸ hs) (by rw [hfixed, hfixed])

end SoulSociety.Lib
