import LatticeObservables.Lattice.Cell
import LatticeObservables.Boundary.Condition

/-!
# Winding Around the Torus

A site outside the block of a lattice has an image inside it: each coordinate is reduced
modulo the length, and the quotient counts how often the image was reached by winding
around the torus in that dimension (`Lattice.wrap`). Under twisted boundary conditions the
windings add up to a phase in the interval from zero, which belongs to it, to one, which
does not (`Lattice.enforceWithPhase`).

The phases are added in words of 128 bits and the sum has to fit words of 64 bits. What one
winding contributes is reduced first: only the remainders of the winding number and of the
numerator modulo the denominator matter.
-/

namespace LatticeObservables

namespace Lattice

/-- Image and winding number of each coordinate. A length is a 64-bit pattern, so the upper
half of the lengths acts as a negative one. -/
def windingNumbers : List Int → List Nat → Except Fault (List (Int × Int))
  | x :: xs, length :: rest => do
    let (winding, image) ← euclideanDivision x (signedReading length)
    let others ← windingNumbers xs rest
    return (image, winding) :: others
  | _, _ => return []

/-- The image of a site inside the lattice, with the winding numbers. -/
def wrap (l : Lattice) (s : Site) : Except ConstructionError (Site × List Int) := do
  if s.dimension ≠ l.dimension then
    throw (.dimensionMismatch l.dimension s.dimension)
  let pairs ← (windingNumbers s.coordinates l.lengths).mapError .arithmetic
  let image : Site := ⟨pairs.map Prod.fst, s.basisIndex⟩
  if !l.contains image then
    throw (.siteOutsideLattice image)
  return (image, pairs.map Prod.snd)

/-- The **periodic image** of a site. -/
def enforce (l : Lattice) (s : Site) : Except ConstructionError Site :=
  return (← l.wrap s).1

end Lattice

/-! ### Phases -/

/-- The phase of `n` windings under the condition `p`, up to whole turns. -/
def windingPhase (n : Int) (p : BoundaryCondition) : Except Fault Rat := do
  let d : Int := p.phase.den
  let product ← bounded 128 (n % d * (p.phase.num % d))
  return mkRat (product % d) p.phase.den

/-- The sum of two phases below a full turn, with a full turn taken off if it has one. -/
def addPhase (a b : Rat) : Except Fault Rat := do
  let sum ← Fraction.combine 128 (· + ·) a b
  if 1 ≤ sum then Fraction.combine 128 (· - ·) sum 1 else return sum

/-- The phase that the windings add up to, starting from `start`. -/
def totalPhase (start : Rat) : List Int → List BoundaryCondition → Except Fault Rat
  | n :: ns, p :: ps => do
    let sum ← addPhase start (← windingPhase n p)
    totalPhase sum ns ps
  | _, _ => return start

namespace Lattice

/-- The **periodic image** of a site together with the phase that winding to it brings
under twisted boundary conditions. A phase too fine for words of 64 bits is refused. -/
def enforceWithPhase (l : Lattice) (b : BoundaryConditions) (s : Site) :
    Except ConstructionError (Site × Rat) := do
  b.validate l.dimension
  let (image, windings) ← l.wrap s
  let phase ← (totalPhase 0 windings b.conditions).mapError .arithmetic
  if Fits 64 phase.num ∧ Fits 64 phase.den then
    return (image, phase)
  else
    throw (.invalidBoundaryConditions b.text l.dimension)

end Lattice

end LatticeObservables
