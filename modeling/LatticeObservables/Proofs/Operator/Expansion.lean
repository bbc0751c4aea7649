import LatticeObservables.Operator.Composite
import LatticeObservables.Proofs.Operator.Composite
import LatticeObservables.Proofs.Operator.CyclicExchange

/-!
# What Observables Are Expanded To

An observable forgets what it was defined by and keeps its terms. Here is the way back: for every
way to define one (`Observable.Definition`), the moves of each of its terms, written down without
building anything (`Observable.Definition.expansion`). What is built has these moves, term by
term, and the boundary conditions of the definition (`Observable.Definition.forall₂_of_build`).
-/

namespace LatticeObservables

/-- A **move** of a particle: from where, to where, and of which species. -/
abbrev Move : Type :=
  Site × Site × Nat

/-- An operator that is **the product of some moves**, in whatever order, with some boundary
conditions. -/
def BasicOperator.IsProduct (boundary : Option BoundaryConditions) (terms : List Move)
    (o : BasicOperator) : Prop :=
  (o.hops.map Hop.move).Perm terms ∧ o.boundary = boundary

/-- The move that leaves a particle where it is. -/
def Site.stay (s : Site) (species : Nat) : Move :=
  (s, s, species)

section Terms

variable {boundary : Option BoundaryConditions}

/-! ### Density correlations -/

/-- The moves of the term of a pair of species. -/
def DensityDensity.termMoves (first second : Site) (i j : Nat) : List Move :=
  if first = second ∧ i = j then [first.stay i] else [first.stay i, second.stay j]

/-- The moves of all pairs of species. -/
def DensityDensity.expansion (first second : Site) (species : Nat) : List (List Move) :=
  ((List.range species).flatMap fun i => (List.range species).map fun j => (i, j)).map
    fun (i, j) => termMoves first second i j

/-- The term of a pair of species has its moves. -/
theorem DensityDensity.isProduct_of_term {first second : Site} {i j : Nat} {o : BasicOperator}
    (h : term first second boundary i j = .ok o) :
    o.IsProduct boundary (termMoves first second i j) := by
  rw [term] at h
  rw [termMoves]
  split at h
  next hsame =>
    rw [if_pos hsame]
    exact densities_eq_ok h
  next hsame =>
    rw [if_neg hsame]
    exact densities_eq_ok h

/-- A density correlation is built of **its pairs of species**, and there are some. -/
theorem DensityDensity.forall₂_of_build {first second : Site} {species : Nat} {o : DensityDensity}
    (h : build first second species boundary = .ok o) :
    0 < species ∧
      List.Forall₂ (BasicOperator.IsProduct boundary) (expansion first second species)
        o.operators := by
  rw [build] at h
  split at h
  next => cases h
  next hspecies =>
    obtain ⟨⟨⟩, -, h⟩ := bind_eq_ok.mp h
    obtain ⟨operators, hoperators, h⟩ := bind_eq_ok.mp h
    obtain rfl := Except.ok.inj h
    refine ⟨Nat.pos_of_ne_zero hspecies, ?_⟩
    rw [expansion, List.forall₂_map_left_iff]
    exact (mapM_eq_ok.mp hoperators).imp fun _ _ hterm => isProduct_of_term hterm

/-! ### Spin correlations -/

/-- The moves of the terms of a spin correlation. -/
def SpinSpin.expansion (first second : Site) : List (List Move) :=
  if first = second then [[first.stay 0], [first.stay 1]]
  else [[first.stay 0, second.stay 0], [first.stay 1, second.stay 1],
    [first.stay 0, second.stay 1], [first.stay 1, second.stay 0],
    [(first, second, 0), (second, first, 1)]]

/-- A spin correlation is built of its densities and, on two sites, of its exchange. -/
theorem SpinSpin.forall₂_of_build {first second : Site} {o : SpinSpin}
    (h : build first second boundary = .ok o) :
    List.Forall₂ (BasicOperator.IsProduct boundary) (expansion first second) o.operators := by
  obtain ⟨⟨⟩, -, h⟩ := bind_eq_ok.mp h
  rw [expansion]
  split at h
  next hsame =>
    obtain ⟨up, hup, h⟩ := bind_eq_ok.mp h
    obtain ⟨down, hdown, h⟩ := bind_eq_ok.mp h
    obtain rfl := Except.ok.inj h
    rw [if_pos hsame]
    exact .cons (densities_eq_ok hup) (.cons (densities_eq_ok hdown) .nil)
  next hsame =>
    obtain ⟨upUp, hupUp, h⟩ := bind_eq_ok.mp h
    obtain ⟨downDown, hdownDown, h⟩ := bind_eq_ok.mp h
    obtain ⟨upDown, hupDown, h⟩ := bind_eq_ok.mp h
    obtain ⟨downUp, hdownUp, h⟩ := bind_eq_ok.mp h
    obtain ⟨exchange, hexchange, h⟩ := bind_eq_ok.mp h
    obtain rfl := Except.ok.inj h
    rw [if_neg hsame]
    exact .cons (densities_eq_ok hupUp) (.cons (densities_eq_ok hdownDown)
      (.cons (densities_eq_ok hupDown) (.cons (densities_eq_ok hdownUp)
        (.cons (moves_eq_ok hexchange) .nil))))

/-! ### Operators of the plane -/

/-- The moves of both spins along a bond from the origin. -/
def BondHops.expansion (neighbour : Site) : List (List Move) :=
  [[(Site.ofCell [0, 0], neighbour, 0)], [(Site.ofCell [0, 0], neighbour, 1)]]

/-- The hops along a bond are those of both spins. -/
theorem BondHops.forall₂_of_build {neighbour : Site} {conditions : BoundaryConditions}
    {o : BondHops} (h : build neighbour conditions = .ok o) :
    List.Forall₂ (BasicOperator.IsProduct (some conditions)) (expansion neighbour)
      o.operators := by
  obtain ⟨up, hup, h⟩ := bind_eq_ok.mp h
  obtain ⟨down, hdown, h⟩ := bind_eq_ok.mp h
  obtain rfl := Except.ok.inj h
  exact .cons (moves_eq_ok hup) (.cons (moves_eq_ok hdown) .nil)

/-- The moves of the terms of a singlet ring exchange: between the diagonals of the unit
plaquette, along the first dimension and then along the second. -/
def SingletRingExchange.expansion : List (List Move) :=
  let s00 := Site.ofCell [0, 0]
  let s10 := Site.ofCell [1, 0]
  let s11 := Site.ofCell [1, 1]
  let s01 := Site.ofCell [0, 1]
  [[(s00, s10, 0), (s11, s01, 1)], [(s00, s10, 1), (s11, s01, 0)],
    [(s00, s01, 0), (s11, s10, 1)], [(s00, s01, 1), (s11, s10, 0)]]

/-- A singlet ring exchange is built of its four double moves. -/
theorem SingletRingExchange.forall₂_of_build {o : SingletRingExchange}
    (h : build boundary = .ok o) :
    List.Forall₂ (BasicOperator.IsProduct boundary) expansion o.operators := by
  obtain ⟨operators, hoperators, h⟩ := bind_eq_ok.mp h
  obtain rfl := Except.ok.inj h
  exact (mapM_eq_ok.mp hoperators).imp fun _ _ hmoves => moves_eq_ok hmoves

/-- The moves of the terms of a Hamiltonian. -/
def TJKHamiltonian.expansion : List (List Move) :=
  BondHops.expansion (Site.ofCell [1, 0]) ++ BondHops.expansion (Site.ofCell [0, 1]) ++
    SpinSpin.expansion (Site.ofCell [0, 0]) (Site.ofCell [1, 0]) ++
    SpinSpin.expansion (Site.ofCell [0, 0]) (Site.ofCell [0, 1]) ++
    SingletRingExchange.expansion

/-- A Hamiltonian is built of hops and spin correlations along **two bonds**, and of the ring
exchange of **one plaquette**. -/
theorem TJKHamiltonian.forall₂_of_build {conditions : BoundaryConditions} {lattice : Lattice}
    {o : TJKHamiltonian} (h : build conditions lattice = .ok o) :
    List.Forall₂ (BasicOperator.IsProduct (some conditions)) expansion o.operators := by
  obtain ⟨lengthX, lengthY, hlengths⟩ := exists_lengths_of_build h
  obtain ⟨-, hhopsX, hhopsY, hspinSpinX, hspinSpinY, hring, -⟩ := (build_eq_ok_iff hlengths).mp h
  have hhops := List.rel_append (BondHops.forall₂_of_build hhopsX)
    (BondHops.forall₂_of_build hhopsY)
  have hspins := List.rel_append (List.rel_append hhops (SpinSpin.forall₂_of_build hspinSpinX))
    (SpinSpin.forall₂_of_build hspinSpinY)
  exact List.rel_append hspins (SingletRingExchange.forall₂_of_build hring)

/-! ### Ring exchange -/

/-- The moves of the terms of a spin ring exchange. -/
def SpinRingExchange.expansion (ring : Corner → Site) : List (List Move) :=
  table.map fun t => t.map (onRing ring)

/-- A spin ring exchange is built of **the terms of the table**. -/
theorem SpinRingExchange.forall₂_of_build {ring : Corner → Site} {o : SpinRingExchange}
    (h : build ring boundary = .ok o) :
    List.Forall₂ (BasicOperator.IsProduct boundary) (expansion ring) o.operators := by
  rw [expansion, List.forall₂_map_left_iff]
  exact (forall₂_table_of_build h).imp fun _ _ hterm => moves_eq_ok hterm

end Terms

/-! ### Observables -/

namespace Observable

/-- What an observable is **defined by**: the constructor that it is made with, and what is handed
to that. -/
inductive Definition
  | basic (hops : List Hop) (boundary : Option BoundaryConditions)
  | densityDensity (first second : Site) (species : Nat) (boundary : Option BoundaryConditions)
  | spinSpin (first second : Site) (boundary : Option BoundaryConditions)
  | singletRing (boundary : Option BoundaryConditions)
  | hamiltonian (conditions : BoundaryConditions) (lattice : Lattice)
  | spinRing (ring : SpinRingExchange.Corner → Site) (boundary : Option BoundaryConditions)

namespace Definition

/-- The observable that is defined. -/
def build : Definition → Except ConstructionError Observable
  | basic hops boundary => (BasicOperator.build hops boundary).map .basic
  | densityDensity first second species boundary =>
    (DensityDensity.build first second species boundary).map .densityDensity
  | spinSpin first second boundary => (SpinSpin.build first second boundary).map .spinSpin
  | singletRing boundary => (SingletRingExchange.build boundary).map .singletRing
  | hamiltonian conditions lattice => (TJKHamiltonian.build conditions lattice).map .hamiltonian
  | spinRing ring boundary => (SpinRingExchange.build ring boundary).map .spinRing

/-- The boundary conditions of a definition, if it has any. -/
def boundary : Definition → Option BoundaryConditions
  | basic _ boundary => boundary
  | densityDensity _ _ _ boundary => boundary
  | spinSpin _ _ boundary => boundary
  | singletRing boundary => boundary
  | hamiltonian conditions _ => some conditions
  | spinRing _ boundary => boundary

/-- The moves of each term of what is defined. -/
def expansion : Definition → List (List Move)
  | basic hops _ => [hops.map Hop.move]
  | densityDensity first second species _ => DensityDensity.expansion first second species
  | spinSpin first second _ => SpinSpin.expansion first second
  | singletRing _ => SingletRingExchange.expansion
  | hamiltonian _ _ => TJKHamiltonian.expansion
  | spinRing ring _ => SpinRingExchange.expansion ring

/-- What is built are the products of **the moves of the expansion**, term by term, with the
boundary conditions of the definition. -/
theorem forall₂_of_build {d : Definition} {o : Observable} (h : d.build = .ok o) :
    List.Forall₂ (BasicOperator.IsProduct d.boundary) d.expansion o.terms := by
  cases d with
  | basic hops boundary =>
      obtain ⟨b, hb, rfl⟩ := map_eq_ok.mp h
      obtain ⟨-, hcanonical, hboundary⟩ := BasicOperator.build_eq_ok_iff.mp hb
      refine .cons ⟨?_, hboundary⟩ .nil
      rw [hcanonical]
      exact (BasicOperator.canonical_perm hops).map Hop.move
  | densityDensity first second species boundary =>
      obtain ⟨o, ho, rfl⟩ := map_eq_ok.mp h
      exact (DensityDensity.forall₂_of_build ho).2
  | spinSpin first second boundary =>
      obtain ⟨o, ho, rfl⟩ := map_eq_ok.mp h
      exact SpinSpin.forall₂_of_build ho
  | singletRing boundary =>
      obtain ⟨o, ho, rfl⟩ := map_eq_ok.mp h
      exact SingletRingExchange.forall₂_of_build ho
  | hamiltonian conditions lattice =>
      obtain ⟨o, ho, rfl⟩ := map_eq_ok.mp h
      exact TJKHamiltonian.forall₂_of_build ho
  | spinRing ring boundary =>
      obtain ⟨o, ho, rfl⟩ := map_eq_ok.mp h
      exact SpinRingExchange.forall₂_of_build ho

end Definition

end Observable

end LatticeObservables
