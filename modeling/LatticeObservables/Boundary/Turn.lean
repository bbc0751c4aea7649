import LatticeObservables.Arithmetic.Bounded
import LatticeObservables.Evaluation.Complex

/-!
# Phase Factors

The factor `exp (2πi · phase)` of a phase, as a complex double. It depends on the fractional
part of the phase alone. Quarter turns have the exact factors `1`, `i`, `-1` and `-i`
(`Turn.factor`); every other one is computed from the cosine and the sine.
-/

namespace LatticeObservables

/-- A phase up to whole **turns**: one of the four quarters, or another part of a turn. -/
inductive Turn
  | zero
  | quarter
  | half
  | threeQuarters
  | part (fraction : Rat)
  deriving DecidableEq

namespace Turn

/-- The turn of a phase from zero up to one. -/
def ofFraction (fraction : Rat) : Turn :=
  if fraction = 0 then zero
  else if fraction = mkRat 1 2 then half
  else if fraction = mkRat 1 4 then quarter
  else if fraction = mkRat 3 4 then threeQuarters
  else part fraction

/-- The turn of any phase, in words of 64 bits. -/
def ofPhase (phase : Rat) : Except Fault Turn :=
  return ofFraction (← Fraction.fractionalPart 64 phase)

/-- The double nearest to an integer of 64 bits. -/
def wordDouble (n : Int) : Float :=
  (Int64.ofInt n).toFloat

/-- The ratio of the circumference of a circle to its diameter, as the nearest double. -/
def circleRatio : Float :=
  3.14159265358979323846264338327950288

/-- The factor of a turn. -/
def factor : Turn → Complex Float
  | zero => ⟨1.0, 0.0⟩
  | quarter => ⟨0.0, 1.0⟩
  | half => ⟨-1.0, 0.0⟩
  | threeQuarters => ⟨0.0, -1.0⟩
  | part fraction =>
    let angle := 2.0 * circleRatio * (wordDouble fraction.num / wordDouble fraction.den)
    ⟨angle.cos, angle.sin⟩

end Turn

/-- The **phase factor** of a phase. -/
def phaseFactor (phase : Rat) : Except Fault (Complex Float) :=
  return (← Turn.ofPhase phase).factor

end LatticeObservables
