import Mathlib.Logic.Basic

/-! Straight-line validators in `Except`: a sequence of checks, each of which rejects with its own
    error, ending in a value. A validator succeeds exactly when no check rejects, and the lemmas
    here turn `validator = .ok v` into that conjunction, one check at a time. -/

namespace SoulSociety.Lib

universe u v

variable {ε : Type v} {α β : Type u}

/-- `if bad { return Err(e) }`. -/
def rejectIf (bad : Prop) [Decidable bad] (e : ε) : Except ε Unit :=
  if bad then .error e else .ok ()

/-- `value.ok_or(e)?`. -/
def orReject (o : Option α) (e : ε) : Except ε α :=
  match o with
  | some a => .ok a
  | none => .error e

/-- `result.map_err(|_| e)?`. -/
def mapReject {δ : Type*} (r : Except δ α) (e : δ → ε) : Except ε α :=
  match r with
  | .ok a => .ok a
  | .error d => .error (e d)

@[simp] theorem rejectIf_eq_ok {bad : Prop} [Decidable bad] {e : ε} {u : Unit} :
    rejectIf bad e = .ok u ↔ ¬ bad := by
  unfold rejectIf
  split <;> simp_all

@[simp] theorem orReject_eq_ok {o : Option α} {e : ε} {a : α} :
    orReject o e = .ok a ↔ o = some a := by
  cases o <;> simp [orReject]

@[simp] theorem mapReject_eq_ok {δ : Type*} {r : Except δ α} {e : δ → ε} {a : α} :
    mapReject r e = .ok a ↔ r = .ok a := by
  cases r <;> simp [mapReject]

@[simp] theorem bind_eq_ok {r : Except ε α} {f : α → Except ε β} {b : β} :
    (r >>= f) = .ok b ↔ ∃ a, r = .ok a ∧ f a = .ok b := by
  cases r <;> simp [bind, Except.bind]

/-- A check that returns nothing has one way to succeed. -/
@[simp] theorem exists_unit {p : PUnit.{u} → Prop} : (∃ x, p x) ↔ p ⟨⟩ :=
  ⟨fun ⟨_, h⟩ => h, fun h => ⟨⟨⟩, h⟩⟩

@[simp] theorem pure_eq_ok {a b : α} : (pure a : Except ε α) = .ok b ↔ a = b := by
  simp [pure, Except.pure]

/-! ### Failures -/

/-- How a Rust function fails: with an error, or with a panic. -/
inductive Fault (ε : Type v) where
  | panic
  | err (e : ε)
  deriving DecidableEq, Repr

/-- `result.map_err(f)`, which a panic passes by. -/
def Fault.map {δ : Type*} (f : δ → ε) : Fault δ → Fault ε
  | .panic => .panic
  | .err d => .err (f d)

theorem rejectIf_eq_error {bad : Prop} [Decidable bad] {e e' : ε} :
    rejectIf bad e = .error e' ↔ bad ∧ e = e' := by
  unfold rejectIf
  split <;> simp_all

theorem orReject_eq_error {o : Option α} {e e' : ε} :
    orReject o e = .error e' ↔ o = none ∧ e = e' := by
  cases o <;> simp [orReject]

theorem mapReject_eq_error {δ : Type*} {r : Except δ α} {e : δ → ε} {e' : ε} :
    mapReject r e = .error e' ↔ ∃ d, r = .error d ∧ e d = e' := by
  cases r <;> simp [mapReject]

theorem bind_eq_error {r : Except ε α} {f : α → Except ε β} {e : ε} :
    (r >>= f) = .error e ↔ r = .error e ∨ ∃ a, r = .ok a ∧ f a = .error e := by
  cases r <;> simp [bind, Except.bind]

theorem pure_ne_error {a : α} {e : ε} : (pure a : Except ε α) ≠ .error e := by
  simp [pure, Except.pure]

end SoulSociety.Lib
