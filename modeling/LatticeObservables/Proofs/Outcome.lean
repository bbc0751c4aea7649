import Mathlib.Data.List.Forall2

/-!
# Outcomes of Sequences

A sequence of two computations succeeds exactly when both do (`bind_eq_ok`), and it fails
exactly when the first one fails, or the second one after it (`bind_eq_error`). Computations
that can fail are opened step by step through these two, and those that are made once for each
element of a list through `mapM_eq_ok`.
-/

namespace LatticeObservables

variable {ε α β : Type}

/-- A sequence succeeds exactly when both of its steps do. -/
theorem bind_eq_ok {x : Except ε α} {next : α → Except ε β} {b : β} :
    x >>= next = .ok b ↔ ∃ a, x = .ok a ∧ next a = .ok b := by
  rcases x with reason | value <;> simp [bind, Except.bind]

/-- A mapped computation succeeds exactly when the computation does. -/
theorem map_eq_ok {x : Except ε α} {f : α → β} {b : β} :
    x.map f = .ok b ↔ ∃ a, x = .ok a ∧ f a = b := by
  rcases x with reason | value <;> simp [Except.map]

/-- Rewording what stops a computation changes nothing when it succeeds. -/
theorem mapError_eq_ok {ε' : Type} {x : Except ε α} {f : ε → ε'} {a : α} :
    x.mapError f = .ok a ↔ x = .ok a := by
  rcases x with reason | value <;> simp [Except.mapError]

/-- A sequence fails exactly when its first step does, or the second one after it. -/
theorem bind_eq_error {x : Except ε α} {next : α → Except ε β} {reason : ε} :
    x >>= next = .error reason ↔
      x = .error reason ∨ ∃ a, x = .ok a ∧ next a = .error reason := by
  rcases x with other | value <;> simp [bind, Except.bind]

/-- Computing with the value of a computation fails exactly when that computation does. -/
theorem return_eq_error {x : Except ε α} {f : α → β} {reason : ε} :
    (do return f (← x) : Except ε β) = .error reason ↔ x = .error reason := by
  rcases x with other | value <;> simp [bind, Except.bind, pure, Except.pure]

/-- A computation that is made for each element of a list succeeds exactly when it does **for
all of them**. -/
theorem mapM_eq_ok {f : α → Except ε β} {l : List α} {m : List β} :
    l.mapM f = .ok m ↔ List.Forall₂ (fun a b => f a = .ok b) l m := by
  induction l generalizing m with
  | nil => simp [pure, Except.pure, eq_comm]
  | cons a rest ih =>
      simp only [List.mapM_cons, bind_eq_ok, List.forall₂_cons_left_iff, ih]
      constructor
      · rintro ⟨b, hb, others, hothers, hcons⟩
        exact ⟨b, others, hb, hothers, (Except.ok.inj hcons).symm⟩
      · rintro ⟨b, others, hb, hothers, rfl⟩
        exact ⟨b, hb, others, hothers, rfl⟩

/-- A computation fails unless it succeeds. -/
theorem exists_error_of_ne_ok {x : Except ε α} (h : ∀ a, x ≠ .ok a) : ∃ e, x = .error e := by
  cases x with
  | error e => exact ⟨e, rfl⟩
  | ok a => exact absurd rfl (h a)

end LatticeObservables
