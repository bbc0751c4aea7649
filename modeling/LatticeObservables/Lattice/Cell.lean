import LatticeObservables.Arithmetic.Bounded
import LatticeObservables.Lattice.Site

/-!
# Finite Lattices

A lattice is a block of unit cells, `lengths[0] × lengths[1] × …` of them, with a number of
basis sites in each. Its sites are numbered from zero: the first coordinate runs fastest and
the basis index slowest, so a number is read in the mixed radix system of the lengths
(`Lattice.siteAt?`, `Lattice.indexOf?`).

`Lattice.build` makes lattices that have sites. A lattice read from a record is taken as it
is, and then it may have none. What can be wrong with a lattice, and with the boundary
conditions and operators that are built on it, is a `ConstructionError`, which
`ConstructionError.message` words.
-/

namespace LatticeObservables

/-! ### Reasons not to build -/

/-- Why a lattice object was **not built**. -/
inductive ConstructionError
  /-- The conditions with the text `found` do not suit `expected` dimensions. -/
  | invalidBoundaryConditions (found : String) (expected : Nat)
  | dimensionMismatch (expected found : Nat)
  | noDimensions
  /-- A length among `lengths` is zero. -/
  | emptyDimension (lengths : List Nat)
  | noBasisSites
  | siteOutsideLattice (site : Site)
  | noSpecies
  /-- The site stands twice among the corners of a ring. -/
  | repeatedCorner (site : Site)
  /-- The arithmetic of bounded words stopped. -/
  | arithmetic (fault : Fault)
  deriving DecidableEq

/-- The wording of a reason. -/
def ConstructionError.message : ConstructionError → String
  | .invalidBoundaryConditions found expected =>
    "invalid boundary conditions " ++ inQuotes found ++ " for a " ++ toString expected ++
      "-dimensional lattice"
  | .dimensionMismatch expected found =>
    "dimension mismatch: expected " ++ toString expected ++ ", found " ++ toString found
  | .noDimensions => "invalid lattice: a lattice needs at least one dimension"
  | .emptyDimension lengths =>
    "invalid lattice: dimension lengths must be positive, got " ++
      bracketed (lengths.map toString)
  | .noBasisSites => "invalid lattice: basis_indices must be positive"
  | .siteOutsideLattice site => "site " ++ site.text ++ " is not a member of the lattice"
  | .noSpecies => "invalid operator: density-density needs at least one species"
  | .repeatedCorner site =>
    "invalid operator: ring exchange needs four distinct sites, " ++ site.text ++
      " appears twice"
  | .arithmetic .divisionByZero => "division by zero"
  | .arithmetic .overflow => "arithmetic overflow"

/-! ### Lattices -/

/-- A **lattice**: the number of unit cells along each dimension, and the number of basis
sites in a cell. -/
structure Lattice where
  lengths : List Nat
  basisIndices : Nat
  deriving DecidableEq

namespace Lattice

/-- A lattice with at least one dimension, no length zero and at least one basis site. -/
def build (lengths : List Nat) (basisIndices : Nat) : Except ConstructionError Lattice :=
  if lengths = [] then .error .noDimensions
  else if 0 ∈ lengths then .error (.emptyDimension lengths)
  else if basisIndices = 0 then .error .noBasisSites
  else .ok ⟨lengths, basisIndices⟩

/-- The number of dimensions. -/
def dimension (l : Lattice) : Nat :=
  l.lengths.length

/-- The number of unit cells with these lengths. -/
def cellCount : List Nat → Nat
  | [] => 1
  | length :: rest => length * cellCount rest

/-- The number of sites, every basis site counted. -/
def totalSites (l : Lattice) : Nat :=
  cellCount l.lengths * l.basisIndices

/-- Whether coordinates lie within lengths, dimension by dimension; what one list has more
than the other is not looked at. -/
def inBlock : List Int → List Nat → Bool
  | x :: xs, length :: rest => 0 ≤ x && x < length && inBlock xs rest
  | _, _ => true

/-- Whether a site has the dimension of the lattice and lies in it. -/
def contains (l : Lattice) (s : Site) : Bool :=
  s.dimension == l.dimension && inBlock s.coordinates l.lengths &&
    s.basisIndex < l.basisIndices

/-! ### Numbering -/

/-- The digits of `n` in the mixed radix system of the lengths, the first one fastest, and
the quotient that is left. A digit is a 64-bit pattern read as a coordinate. -/
def mixedRadixDigits : List Nat → Nat → List Int × Nat
  | [], n => ([], n)
  | length :: rest, n =>
    let (digits, quotient) := mixedRadixDigits rest (n / length)
    (signedReading (n % length) :: digits, quotient)

/-- The number with the given digits and the given quotient above them. -/
def mixedRadixValue : List Nat → List Int → Nat → Nat
  | length :: rest, x :: xs, quotient => x.toNat + length * mixedRadixValue rest xs quotient
  | _, _, quotient => quotient

/-- The site with the number `n`. -/
def siteAt? (l : Lattice) (n : Nat) : Option Site :=
  if n < l.totalSites then
    let (digits, quotient) := mixedRadixDigits l.lengths n
    some ⟨digits, quotient⟩
  else none

/-- The number of a site. -/
def indexOf? (l : Lattice) (s : Site) : Option Nat :=
  if l.contains s then some (mixedRadixValue l.lengths s.coordinates s.basisIndex) else none

/-- All sites in the order of their numbers. -/
def sites (l : Lattice) : List Site :=
  (List.range l.totalSites).filterMap l.siteAt?

end Lattice

end LatticeObservables
