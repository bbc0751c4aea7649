import Mathlib.Data.Rat.Defs
import LatticeObservables.Evaluation.Observable
import LatticeObservables.Measurement.Plan
import LatticeObservables.Proofs.Text.Legible

/-!
# The Text of an Operator Identifies It

Errors name an operator by its text. The same marks stand at different depths of it: a comma between
coordinates, between hops and between phases, square brackets around all of these, around
coordinates and around a basis index, a minus before a number and in an arrow. The text is legible
nevertheless, from the numbers up: sites where no square bracket follows (`Site.legible_text`), hops
where no digit does (`Hop.legible_text`), boundary conditions everywhere
(`BoundaryConditions.legible_text`), and operators where no blank does
(`BasicOperator.legible_text`). So each of them is identified by its text, and an operator by the
messages that name it (`BasicOperator.text_identifies`).
-/

namespace LatticeObservables

/-- A number other than the one that is left out. -/
def shown? (hidden n : Nat) : Option Nat :=
  if n = hidden then none else some n

/-- What is left out is known, too. -/
theorem shown?_injective (hidden : Nat) : Function.Injective (shown? hidden) := by
  intro m n h
  simp only [shown?] at h
  split_ifs at h with hm hn
  · exact hm.trans hn.symm
  · exact Option.some.inj h

/-! ### Sites and hops -/

/-- The text of a site is **legible** where no square bracket follows. -/
theorem Site.legible_text : Legible (· ≠ '[') Site.text := by
  have coordinates := legible_int.bracketed (by decide) (by decide) fun n =>
    (begins_int n).mono fun c hc => by rintro rfl; revert hc; decide
  have index := (legible_nat.closed "]" (c := ']') rfl (by decide)).option "[" (c := '[') rfl
  have both := coordinates.append index fun _ _ _ _ _ => trivial
  refine (both.of_eq (f := fun s : Site => (s.coordinates, shown? 0 s.basisIndex)) ?_ ?_).mono
    fun c hc => ⟨trivial, hc⟩
  · rintro ⟨xs, i⟩ ⟨ys, j⟩ h
    obtain ⟨rfl, hindex⟩ := Prod.mk.inj h
    obtain rfl := shown?_injective 0 hindex
    rfl
  · intro s
    simp only [text, shown?]
    split
    · rfl
    · rw [Option.elim_some, String.append_assoc]

/-- A hop begins with the square bracket of its source. -/
theorem Hop.begins_text (h : Hop) : Begins (· = '[') h.text := by
  have source : Begins (· = '[') h.source.text := (begins_bracketed _).append _
  exact (((source.append _).append _).append _).append _

/-- The text of a hop is **legible** where no digit follows. -/
theorem Hop.legible_text : Legible NoDigit Hop.text := by
  have source := Site.legible_text.closed "->" (c := '-') rfl (by decide)
  have sites := source.append Site.legible_text fun _ _ _ _ _ => trivial
  have all := (sites.closed ":" (c := ':') rfl (by decide)).append legible_nat
    fun _ _ _ _ _ => trivial
  refine all.of_eq (f := fun h : Hop => ((h.source, h.destination), h.species)) ?_ fun _ => rfl
  rintro ⟨source, destination, species, _⟩ ⟨source', destination', species', _⟩ h
  cases h
  rfl

/-! ### Boundary conditions -/

/-- The text of a fraction is **legible** where neither a digit nor a slash follows. -/
theorem Fraction.legible_text : Legible (fun c => NoDigit c ∧ c ≠ '/') Fraction.text := by
  have denominator := legible_nat.option "/" (c := '/') rfl
  have both := legible_int.append denominator fun o r hr => by
    cases o with
    | none => exact fun c hc => (hr c hc).1
    | some n =>
        simp only [Option.elim_some, String.toList_append]
        exact goesOn_cons_iff.mpr (by decide)
  refine both.of_eq (f := fun a : Rat => (a.num, shown? 1 a.den)) ?_ ?_
  · intro a b h
    obtain ⟨hnum, hden⟩ := Prod.mk.inj h
    exact Rat.ext hnum (shown?_injective 1 hden)
  · intro a
    simp only [text, shown?]
    split
    · exact String.append_empty.symm
    · rw [Option.elim_some, String.append_assoc]

/-- A fraction begins with a digit or a minus. -/
theorem Fraction.begins_text (a : Rat) : Begins (fun c => c.isDigit ∨ c = '-') (text a) := by
  rw [text]
  split
  · exact begins_int a.num
  · exact ((begins_int a.num).append _).append _

/-- The text of boundary conditions is **legible** in front of anything. -/
theorem BoundaryConditions.legible_text : Legible (fun _ => True) BoundaryConditions.text := by
  have condition : Legible (fun c => NoDigit c ∧ c ≠ '/') BoundaryCondition.text := by
    refine Fraction.legible_text.of_eq (f := BoundaryCondition.phase) ?_ fun _ => rfl
    rintro ⟨p, _⟩ ⟨q, _⟩ rfl
    rfl
  have conditions := condition.parenthesized (by decide) (by decide) fun c =>
    (Fraction.begins_text c.phase).mono fun d hd => by rintro rfl; revert hd; decide
  refine conditions.of_eq (f := BoundaryConditions.conditions) ?_ fun _ => rfl
  rintro ⟨cs⟩ ⟨ds⟩ rfl
  rfl

/-! ### Operators -/

/-- The text of an operator is **legible** where no blank follows. -/
theorem BasicOperator.legible_text : Legible (· ≠ ' ') BasicOperator.text := by
  have hops := Hop.legible_text.bracketed (by decide) (by decide) fun h =>
    h.begins_text.mono fun c hc => by rintro rfl; revert hc; decide
  have tail := BoundaryConditions.legible_text.option " summed with " (c := ' ') rfl
  have both := hops.append tail fun _ _ _ _ _ => trivial
  refine (both.of_eq (f := fun o : BasicOperator => (o.hops, o.boundary)) ?_ ?_).mono
    fun c hc => ⟨trivial, hc⟩
  · rintro ⟨hops, boundary, _, _, _⟩ ⟨hops', boundary', _, _, _⟩ h
    cases h
    rfl
  · intro o
    rw [text]
    cases o.boundary <;> rfl

/-- **The text of an operator identifies it.** Two sites have the same text exactly if they are the
same, whatever the numbers of their coordinates are, and so it is with boundary conditions, hops and
basic operators. The message that a measurement is missing tells which operator was not measured,
and the message that a plan is not accepted which operator does not fit. -/
theorem BasicOperator.text_identifies :
    (∀ a b : Site, a.text = b.text ↔ a = b) ∧
    (∀ a b : BoundaryConditions, a.text = b.text ↔ a = b) ∧
    (∀ a b : Hop, a.text = b.text ↔ a = b) ∧
    (∀ a b : BasicOperator, a.text = b.text ↔ a = b) ∧
    (∀ a b : BasicOperator, (EvaluationError.missingMeasurement a).message =
      (EvaluationError.missingMeasurement b).message ↔ a = b) ∧
    ∀ a b : BasicOperator, (PlanError.mk a).message = (PlanError.mk b).message ↔ a = b := by
  have operators := BasicOperator.legible_text.injective
  refine ⟨fun _ _ => Site.legible_text.injective.eq_iff,
    fun _ _ => BoundaryConditions.legible_text.injective.eq_iff,
    fun _ _ => Hop.legible_text.injective.eq_iff, fun _ _ => operators.eq_iff, ?missing, ?invalid⟩
  case missing =>
    intro a b
    have message (o : BasicOperator) : (EvaluationError.missingMeasurement o).message =
        "no measurement for basic operator " ++ o.text := rfl
    rw [message, message, String.append_right_inj, operators.eq_iff]
  case invalid =>
    intro a b
    have message (o : BasicOperator) : (PlanError.mk o).message =
        "invalid operator: " ++ o.text ++ " is not valid for the walk's wavefunction" := rfl
    rw [message, message, String.append_left_inj, String.append_right_inj, operators.eq_iff]

end LatticeObservables
