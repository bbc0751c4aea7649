import LatticeObservables.Collection.FirstSeen
import LatticeObservables.Operator.Basic

/-!
# Composite Operators

The observables that are expanded into basic operators, and everything that can be measured
(`Observable`). What has to be measured for an observable are its basic operators, each of
them once (`Observable.basicOperators`).

Terms are written in two forms, as a product of densities (`densities`) and as a product of
moves between sites (`moves`). Spins are the species `0` and `1` of spin-1/2 particles.

* The density correlation `Σ_ij n_i(first) n_j(second)` goes over all pairs of species. On a
  single site the square of a density is the density itself.
* The spin correlation `S(first) · S(second)` is three quarters of the density on a single
  site, because double occupation has no spin. On two sites it takes the densities of all
  four pairs of spins and the exchange of opposite ones.
* The singlet ring exchange moves a pair of opposite spins between the diagonals of the unit
  plaquette. The spin ring exchange is the cyclic permutation of the spins of any four sites
  together with its inverse, in sixteen terms, one for each assignment of spins to the sites
  (`SpinRingExchange.table`).
* The t-J-K Hamiltonian is hopping, spin exchange and singlet ring exchange per site of a
  two-dimensional lattice, each summed over all shifts of the lattice. Along a dimension of
  length two, the bond to the right neighbour and the bond from the left one are the same,
  so the sum over shifts counts every bond and plaquette along it twice; the divisors `divX`
  and `divY` undo that.
-/

namespace LatticeObservables

/-! ### Products of densities and moves -/

/-- The product of the densities of the given species on the given sites. -/
def densities (sites : List Site) (species : List Nat) (boundary : Option BoundaryConditions) :
    Except ConstructionError BasicOperator :=
  BasicOperator.build (sites.zipWith Hop.density species) boundary

/-- The product of moves, each from a source to a destination. -/
def moves (terms : List (Site × Site × Nat)) (boundary : Option BoundaryConditions) :
    Except ConstructionError BasicOperator := do
  let hops ← terms.mapM fun (source, destination, species) =>
    Hop.build source destination species
  BasicOperator.build hops boundary

/-- Checks that all sites have the dimension of the first one. -/
def checkDimensions : List Site → Except ConstructionError Unit
  | [] => .ok ()
  | first :: rest =>
    match rest.find? fun s => s.dimension ≠ first.dimension with
    | some s => .error (.dimensionMismatch first.dimension s.dimension)
    | none => .ok ()

/-! ### Density correlations -/

/-- A **density correlation**: its terms, one for each pair of species, the species of the
second site running fastest. -/
structure DensityDensity where
  operators : List BasicOperator
  deriving DecidableEq

namespace DensityDensity

/-- The term of one pair of species. -/
def term (first second : Site) (boundary : Option BoundaryConditions) (i j : Nat) :
    Except ConstructionError BasicOperator :=
  if first = second ∧ i = j then densities [first] [i] boundary
  else densities [first, second] [i, j] boundary

/-- The correlation of two sites of one dimension for a positive number of species, however large.
The product `species * species`, which words of 64 bits may not hold and which would only be the
capacity of the list of terms, decides no term and is left out. -/
def build (first second : Site) (species : Nat) (boundary : Option BoundaryConditions) :
    Except ConstructionError DensityDensity := do
  if species = 0 then
    throw .noSpecies
  checkDimensions [first, second]
  let pairs := (List.range species).flatMap fun i => (List.range species).map fun j => (i, j)
  let operators ← pairs.mapM fun (i, j) => term first second boundary i j
  return ⟨operators⟩

end DensityDensity

/-! ### Spin correlations -/

/-- A **spin correlation**. -/
inductive SpinSpin
  | sameSite (up down : BasicOperator)
  | twoSites (upUp downDown upDown downUp exchange : BasicOperator)
  deriving DecidableEq

namespace SpinSpin

/-- The correlation of the spins of two sites of one dimension. -/
def build (first second : Site) (boundary : Option BoundaryConditions) :
    Except ConstructionError SpinSpin := do
  checkDimensions [first, second]
  if first = second then
    let up ← densities [first] [0] boundary
    let down ← densities [first] [1] boundary
    return sameSite up down
  else
    let upUp ← densities [first, second] [0, 0] boundary
    let downDown ← densities [first, second] [1, 1] boundary
    let upDown ← densities [first, second] [0, 1] boundary
    let downUp ← densities [first, second] [1, 0] boundary
    let exchange ← moves [(first, second, 0), (second, first, 1)] boundary
    return twoSites upUp downDown upDown downUp exchange

/-- The terms in their order. -/
def operators : SpinSpin → List BasicOperator
  | sameSite up down => [up, down]
  | twoSites upUp downDown upDown downUp exchange => [upUp, downDown, upDown, downUp, exchange]

/-- Whether the two sites are one. -/
def isSameSite : SpinSpin → Bool
  | sameSite .. => true
  | twoSites .. => false

end SpinSpin

/-! ### Ring exchange -/

/-- The **singlet ring exchange** of the unit plaquette: moves along the first dimension,
then along the second, each with both assignments of spins. -/
structure SingletRingExchange where
  operators : List BasicOperator
  deriving DecidableEq

namespace SingletRingExchange

/-- The ring exchange on the plaquette of the cells `(0, 0)`, `(1, 0)`, `(1, 1)` and
`(0, 1)`. -/
def build (boundary : Option BoundaryConditions) :
    Except ConstructionError SingletRingExchange := do
  let s00 := Site.ofCell [0, 0]
  let s10 := Site.ofCell [1, 0]
  let s11 := Site.ofCell [1, 1]
  let s01 := Site.ofCell [0, 1]
  let operators ← [
      [(s00, s10, 0), (s11, s01, 1)],
      [(s00, s10, 1), (s11, s01, 0)],
      [(s00, s01, 0), (s11, s10, 1)],
      [(s00, s01, 1), (s11, s10, 0)]
    ].mapM fun terms => moves terms boundary
  return ⟨operators⟩

end SingletRingExchange

namespace SpinRingExchange

/-- A corner of the ring. -/
abbrev Corner := Fin 4

/-- One term of the expansion: four moves of a spin from corner to corner. -/
abbrev Term := List (Corner × Corner × Nat)

/-- The terms with a plus sign: all spins alike, and alternating spins, where every spin
moves. -/
def alignedTable : List Term := [
  [(0, 0, 0), (1, 1, 0), (2, 2, 0), (3, 3, 0)],
  [(0, 0, 1), (1, 1, 1), (2, 2, 1), (3, 3, 1)],
  [(0, 1, 0), (1, 0, 1), (2, 3, 0), (3, 2, 1)],
  [(0, 1, 1), (1, 0, 0), (2, 3, 1), (3, 2, 0)]]

/-- The terms with a minus sign: one spin unlike the others, and two neighbouring pairs of
like spins. Two spins move in each. -/
def mixedTable : List Term := [
  [(3, 3, 0), (0, 0, 0), (1, 2, 0), (2, 1, 1)],
  [(3, 3, 1), (0, 0, 1), (1, 2, 1), (2, 1, 0)],
  [(0, 0, 0), (1, 1, 0), (2, 3, 0), (3, 2, 1)],
  [(0, 0, 1), (1, 1, 1), (2, 3, 1), (3, 2, 0)],
  [(1, 1, 0), (2, 2, 0), (3, 0, 0), (0, 3, 1)],
  [(1, 1, 1), (2, 2, 1), (3, 0, 1), (0, 3, 0)],
  [(2, 2, 0), (3, 3, 0), (0, 1, 0), (1, 0, 1)],
  [(2, 2, 1), (3, 3, 1), (0, 1, 1), (1, 0, 0)],
  [(1, 1, 0), (3, 3, 1), (0, 2, 1), (2, 0, 0)],
  [(1, 1, 1), (3, 3, 0), (0, 2, 0), (2, 0, 1)],
  [(0, 0, 0), (2, 2, 1), (3, 1, 1), (1, 3, 0)],
  [(0, 0, 1), (2, 2, 0), (3, 1, 0), (1, 3, 1)]]

/-- All terms of the expansion. -/
def table : List Term :=
  alignedTable ++ mixedTable

end SpinRingExchange

/-- The **spin ring exchange** of four sites. The terms in `aligned` are counted with a plus
sign, those in `mixed` with a minus sign. -/
structure SpinRingExchange where
  aligned : List BasicOperator
  mixed : List BasicOperator
  aligned_length : aligned.length = SpinRingExchange.alignedTable.length
  mixed_length : mixed.length = SpinRingExchange.mixedTable.length
  deriving DecidableEq

namespace SpinRingExchange

/-- The operator of a term on the four sites of a ring. -/
def termOperator (ring : Corner → Site) (boundary : Option BoundaryConditions) (term : Term) :
    Except ConstructionError BasicOperator :=
  moves (term.map fun (source, destination, spin) => (ring source, ring destination, spin))
    boundary

/-- The operators of a list of terms, one for each. -/
def termOperators (ring : Corner → Site) (boundary : Option BoundaryConditions) :
    (terms : List Term) →
      Except ConstructionError { l : List BasicOperator // l.length = terms.length }
  | [] => .ok ⟨[], rfl⟩
  | term :: rest => do
    let o ← termOperator ring boundary term
    let ⟨others, h⟩ ← termOperators ring boundary rest
    return ⟨o :: others, by simp [h]⟩

/-- The first site of a list that stands in it again. -/
def repeated? : List Site → Option Site
  | [] => none
  | s :: rest => if s ∈ rest then some s else repeated? rest

/-- The ring exchange of four different sites of one dimension, given in their order around
the ring. -/
def build (ring : Corner → Site) (boundary : Option BoundaryConditions) :
    Except ConstructionError SpinRingExchange := do
  let sites := List.ofFn ring
  checkDimensions sites
  if let some site := repeated? sites then
    throw (.repeatedCorner site)
  let ⟨aligned, aligned_length⟩ ← termOperators ring boundary alignedTable
  let ⟨mixed, mixed_length⟩ ← termOperators ring boundary mixedTable
  return ⟨aligned, mixed, aligned_length, mixed_length⟩

/-- The terms in their order. -/
def operators (o : SpinRingExchange) : List BasicOperator :=
  o.aligned ++ o.mixed

end SpinRingExchange

/-! ### The t-J-K Hamiltonian -/

/-- The **hops** of both spins along a bond. -/
structure BondHops where
  up : BasicOperator
  down : BasicOperator
  deriving DecidableEq

namespace BondHops

/-- The hops from the origin to a neighbour. -/
def build (neighbour : Site) (boundary : BoundaryConditions) :
    Except ConstructionError BondHops := do
  let hop (spin : Nat) := moves [(Site.ofCell [0, 0], neighbour, spin)] (some boundary)
  return ⟨← hop 0, ← hop 1⟩

/-- The terms in their order. -/
def operators (b : BondHops) : List BasicOperator :=
  [b.up, b.down]

end BondHops

/-- The terms of the **t-J-K Hamiltonian**. -/
structure TJKHamiltonian where
  hopsX : BondHops
  hopsY : BondHops
  spinSpinX : SpinSpin
  spinSpinY : SpinSpin
  ring : SingletRingExchange
  divX : Nat
  divY : Nat
  deriving DecidableEq

namespace TJKHamiltonian

/-- How often a sum over shifts counts a bond along a dimension of this length. -/
def divisor (length : Nat) : Nat :=
  if length = 2 then 2 else 1

/-- The Hamiltonian of a two-dimensional lattice with the given boundary conditions. -/
def build (boundary : BoundaryConditions) (lattice : Lattice) :
    Except ConstructionError TJKHamiltonian :=
  match lattice.lengths with
  | [lengthX, lengthY] => do
    boundary.validate 2
    let origin := Site.ofCell [0, 0]
    let right := Site.ofCell [1, 0]
    let above := Site.ofCell [0, 1]
    let hopsX ← BondHops.build right boundary
    let hopsY ← BondHops.build above boundary
    let spinSpinX ← SpinSpin.build origin right boundary
    let spinSpinY ← SpinSpin.build origin above boundary
    let ring ← SingletRingExchange.build boundary
    return {
      hopsX := hopsX
      hopsY := hopsY
      spinSpinX := spinSpinX
      spinSpinY := spinSpinY
      ring := ring
      divX := divisor lengthX
      divY := divisor lengthY }
  | _ => throw (.dimensionMismatch 2 lattice.dimension)

/-- The terms in their order. -/
def operators (h : TJKHamiltonian) : List BasicOperator :=
  h.hopsX.operators ++ h.hopsY.operators ++ h.spinSpinX.operators ++ h.spinSpinY.operators ++
    h.ring.operators

end TJKHamiltonian

/-! ### Observables -/

/-- An **observable**. -/
inductive Observable
  | basic (operator : BasicOperator)
  | densityDensity (operator : DensityDensity)
  | spinSpin (operator : SpinSpin)
  | singletRing (operator : SingletRingExchange)
  | hamiltonian (operator : TJKHamiltonian)
  | spinRing (operator : SpinRingExchange)
  deriving DecidableEq

namespace Observable

/-- The terms of an observable in their order, repeated ones included. -/
def terms : Observable → List BasicOperator
  | basic o => [o]
  | densityDensity o => o.operators
  | spinSpin o => o.operators
  | singletRing o => o.operators
  | hamiltonian o => o.operators
  | spinRing o => o.operators

/-- The **basic operators** that an observable depends on, in first-seen order. -/
def basicOperators (o : Observable) : List BasicOperator :=
  firstSeen o.terms

/-- The names of the couplings that the value of an observable depends on. -/
def parameters : Observable → List String
  | hamiltonian _ => ["t", "tperp", "J", "Jperp", "K"]
  | _ => []

end Observable

end LatticeObservables
