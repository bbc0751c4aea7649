import LatticeObservables.Lattice.Cell

/-!
# Twisted Boundary Conditions

A boundary condition along one dimension is a phase in units of a full turn: moving once
around the lattice in that direction multiplies amplitudes by `exp (2πi · phase)`. The phase
`1` is the periodic condition. Open boundaries, which would be the phase zero, do not exist,
so a condition carries the proof that its phase is not zero, and every way to make one
checks it (`BoundaryCondition.ofPhase`, `BoundaryConditions.ofPhases`).
-/

namespace LatticeObservables

/-- A **boundary condition** along one dimension: a phase other than zero. -/
structure BoundaryCondition where
  phase : Rat
  phase_ne_zero : phase ≠ 0
  deriving DecidableEq

namespace BoundaryCondition

/-- The condition that adds no phase. -/
def periodic : BoundaryCondition :=
  ⟨1, by decide⟩

/-- The condition that adds half a turn, which changes the sign. -/
def antiperiodic : BoundaryCondition :=
  ⟨mkRat 1 2, by decide⟩

/-- The condition with the given phase, unless it is zero. -/
def ofPhase (phase : Rat) : Except ConstructionError BoundaryCondition :=
  if h : phase = 0 then .error (.invalidBoundaryConditions (Fraction.text phase) 1)
  else .ok ⟨phase, h⟩

/-- The text of a condition is that of its phase. -/
def text (c : BoundaryCondition) : String :=
  Fraction.text c.phase

end BoundaryCondition

/-- The **boundary conditions** of a lattice, one for each dimension. -/
structure BoundaryConditions where
  conditions : List BoundaryCondition
  deriving DecidableEq

namespace BoundaryConditions

/-- The number of dimensions that have a condition. -/
def dimension (b : BoundaryConditions) : Nat :=
  b.conditions.length

/-- Periodic conditions along `n` dimensions. -/
def periodic (n : Nat) : BoundaryConditions :=
  ⟨List.replicate n .periodic⟩

/-- The conditions with the given phases, unless one of them is zero. -/
def ofPhases (phases : List Rat) : Except ConstructionError BoundaryConditions :=
  if h : ∀ p ∈ phases, p ≠ 0 then
    .ok ⟨phases.attach.map fun p => ⟨p.1, h p.1 p.2⟩⟩
  else
    let found := bracketed (phases.map fun p => inQuotes (Fraction.text p))
    .error (.invalidBoundaryConditions found phases.length)

/-- The text of the conditions. -/
def text (b : BoundaryConditions) : String :=
  parenthesized (b.conditions.map BoundaryCondition.text)

/-- Checks that there is exactly one condition for each of `n` dimensions. -/
def validate (b : BoundaryConditions) (n : Nat) : Except ConstructionError Unit :=
  if b.dimension = n then .ok () else .error (.invalidBoundaryConditions b.text n)

end BoundaryConditions

/-! ### Order -/

/-- Conditions along one dimension are ordered by their phases. -/
instance instOrdBoundaryCondition : Ord BoundaryCondition where
  compare a b := compareOfLessAndEq a.phase b.phase

/-- The first dimension that tells two lists of conditions apart decides, and a proper
beginning comes before what continues it. -/
instance instOrdBoundaryConditions : Ord BoundaryConditions where
  compare := compareOn BoundaryConditions.conditions

end LatticeObservables
