import LatticeObservables.Operator.Composite
import LatticeObservables.Proofs.Collection.Related
import LatticeObservables.Proofs.Operator.Canonical
import LatticeObservables.Proofs.Outcome

/-!
# Building Composite Operators

When products of densities and of moves can be built, and what they are then. A hop is known
by its move, so that what the terms of a composite operator say about sources, destinations
and species is said about the hops of the operators that are built of them (`moves_eq_ok`).

The composite operators of the t-J-K Hamiltonian can be built as soon as the boundary conditions
have the dimension of their sites, and so can the Hamiltonian of any two-dimensional lattice
with boundary conditions of two dimensions (`TJKHamiltonian.exists_build`).
-/

namespace LatticeObservables

/-! ### Hops as moves -/

/-- The **move** of a hop: its source, its destination and its species. -/
def Hop.move (h : Hop) : Site × Site × Nat :=
  (h.source, h.destination, h.species)

/-- What is built of a move is the hop with that move. -/
theorem Hop.build_eq_ok {source destination : Site} {species : Nat} {h : Hop} :
    Hop.build source destination species = .ok h ↔ h.move = (source, destination, species) := by
  obtain ⟨source', destination', species', hdimension⟩ := h
  rw [Hop.build]
  split
  next hd => simp [move, eq_comm]
  next hd =>
    refine ⟨by simp, ?_⟩
    rintro ⟨⟩
    exact absurd hdimension hd

/-- What is built of moves are the hops with those moves. -/
theorem mapM_build_eq_ok {terms : List (Site × Site × Nat)} {hops : List Hop} :
    (terms.mapM fun (source, destination, species) => Hop.build source destination species) =
      .ok hops ↔ hops.map Hop.move = terms := by
  rw [mapM_eq_ok, eq_comm, ← List.forall₂_eq_eq_eq, List.forall₂_map_right_iff]
  constructor
  · exact fun h => h.imp fun _ _ hbuild => (Hop.build_eq_ok.mp hbuild).symm
  · exact fun h => h.imp fun _ _ hmove => Hop.build_eq_ok.mpr hmove.symm

/-! ### Products -/

/-- A product of moves has hops with **these moves**, in canonical order, and the boundary
conditions it was built with. -/
theorem moves_eq_ok {terms : List (Site × Site × Nat)} {boundary : Option BoundaryConditions}
    {o : BasicOperator} (h : moves terms boundary = .ok o) :
    (o.hops.map Hop.move).Perm terms ∧ o.boundary = boundary := by
  obtain ⟨hops, hhops, hbuild⟩ := bind_eq_ok.mp h
  obtain ⟨-, hcanonical, hboundary⟩ := BasicOperator.build_eq_ok_iff.mp hbuild
  refine ⟨?_, hboundary⟩
  rw [hcanonical, ← mapM_build_eq_ok.mp hhops]
  exact (BasicOperator.canonical_perm hops).map Hop.move

/-- A product of densities has hops that **stay on the sites**, in canonical order, and the
boundary conditions it was built with. -/
theorem densities_eq_ok {sites : List Site} {species : List Nat}
    {boundary : Option BoundaryConditions} {o : BasicOperator}
    (h : densities sites species boundary = .ok o) :
    (o.hops.map Hop.move).Perm (sites.zipWith (fun s n => (s, s, n)) species) ∧
      o.boundary = boundary := by
  obtain ⟨-, hcanonical, hboundary⟩ := BasicOperator.build_eq_ok_iff.mp h
  refine ⟨?_, hboundary⟩
  have hmoves : (sites.zipWith Hop.density species).map Hop.move =
      sites.zipWith (fun s n => (s, s, n)) species := by
    rw [List.map_zipWith]
    rfl
  rw [hcanonical, ← hmoves]
  exact (BasicOperator.canonical_perm _).map Hop.move

/-- A product of moves can be built if **all sites have one dimension**, and the boundary
conditions have it too. -/
theorem exists_moves {terms : List (Site × Site × Nat)} {boundary : Option BoundaryConditions}
    {d : Nat} (hsites : ∀ t ∈ terms, t.1.dimension = d ∧ t.2.1.dimension = d)
    (hboundary : ∀ c, boundary = some c → c.dimension = d) :
    ∃ o, moves terms boundary = .ok o := by
  have hbuild : ∀ t ∈ terms, ∃ h, Hop.build t.1 t.2.1 t.2.2 = .ok h := fun t ht =>
    ⟨⟨t.1, t.2.1, t.2.2, (hsites t ht).2.trans (hsites t ht).1.symm⟩, Hop.build_eq_ok.mpr rfl⟩
  obtain ⟨hops, hhops⟩ := exists_forall₂ hbuild
  obtain rfl := mapM_build_eq_ok.mp (mapM_eq_ok.mpr hhops)
  have hfit : BasicOperator.Fit hops boundary d :=
    ⟨fun h hh => (hsites h.move (List.mem_map_of_mem hh)).1, fun c hc _ => hboundary c hc⟩
  obtain ⟨o, ho⟩ := BasicOperator.exists_build_iff.mpr ⟨d, hfit⟩
  exact ⟨o, bind_eq_ok.mpr ⟨hops, mapM_eq_ok.mpr hhops, ho⟩⟩

/-- A product of densities can be built if all sites have one dimension, and the boundary
conditions have it too. -/
theorem exists_densities {sites : List Site} {boundary : Option BoundaryConditions} {d : Nat}
    (hsites : ∀ s ∈ sites, s.dimension = d)
    (hboundary : ∀ c, boundary = some c → c.dimension = d) (species : List Nat) :
    ∃ o, densities sites species boundary = .ok o := by
  refine BasicOperator.exists_build_iff.mpr ⟨d, ?_, fun c hc _ => hboundary c hc⟩
  intro h hh
  rw [← List.map_uncurry_zip_eq_zipWith, List.mem_map] at hh
  obtain ⟨⟨s, n⟩, hmem, rfl⟩ := hh
  exact hsites s (List.of_mem_zip hmem).1

/-- Dimensions are accepted exactly if **all sites have one**. -/
theorem checkDimensions_eq_ok {sites : List Site} :
    checkDimensions sites = .ok () ↔ ∃ d, ∀ s ∈ sites, s.dimension = d := by
  cases sites with
  | nil => simp [checkDimensions]
  | cons first rest =>
      have hfind : (rest.find? fun s => s.dimension ≠ first.dimension) = none ↔
          ∀ s ∈ rest, s.dimension = first.dimension := by
        simp [List.find?_eq_none]
      rw [checkDimensions]
      split
      next s hs =>
        refine ⟨by simp, ?_⟩
        rintro ⟨d, hd⟩
        obtain ⟨hfirst, hrest⟩ := List.forall_mem_cons.mp hd
        rw [hfind.mpr fun s hs => (hrest s hs).trans hfirst.symm] at hs
        cases hs
      next hnone =>
        refine ⟨fun _ => ⟨first.dimension, ?_⟩, fun _ => rfl⟩
        exact List.forall_mem_cons.mpr ⟨rfl, hfind.mp hnone⟩

/-! ### Composite operators -/

/-- The hops along a bond of the plane can be built. -/
theorem BondHops.exists_build (neighbour : Site) {boundary : BoundaryConditions}
    (hneighbour : neighbour.dimension = 2) (hboundary : boundary.dimension = 2) :
    ∃ h, BondHops.build neighbour boundary = .ok h := by
  have hop (spin : Nat) :
      ∃ o, moves [(Site.ofCell [0, 0], neighbour, spin)] (some boundary) = .ok o := by
    refine exists_moves (d := 2) ?_ ?_
    · simpa using ⟨rfl, hneighbour⟩
    · simpa using hboundary
  obtain ⟨up, hup⟩ := hop 0
  obtain ⟨down, hdown⟩ := hop 1
  exact ⟨⟨up, down⟩, bind_eq_ok.mpr ⟨up, hup, bind_eq_ok.mpr ⟨down, hdown, rfl⟩⟩⟩

/-- The spin correlation of two sites of one dimension can be built. -/
theorem SpinSpin.exists_build (first second : Site) {boundary : Option BoundaryConditions}
    {d : Nat} (hfirst : first.dimension = d) (hsecond : second.dimension = d)
    (hboundary : ∀ c, boundary = some c → c.dimension = d) :
    ∃ o, SpinSpin.build first second boundary = .ok o := by
  have hcheck : checkDimensions [first, second] = .ok () :=
    checkDimensions_eq_ok.mpr ⟨d, by simp [hfirst, hsecond]⟩
  rw [SpinSpin.build, hcheck]
  by_cases hsame : first = second
  · have hone (species : List Nat) : ∃ o, densities [first] species boundary = .ok o :=
      exists_densities (by simp [hfirst]) hboundary species
    obtain ⟨up, hup⟩ := hone [0]
    obtain ⟨down, hdown⟩ := hone [1]
    rw [if_pos hsame, hup, hdown]
    exact ⟨_, rfl⟩
  · have htwo (species : List Nat) : ∃ o, densities [first, second] species boundary = .ok o :=
      exists_densities (by simp [hfirst, hsecond]) hboundary species
    obtain ⟨upUp, hupUp⟩ := htwo [0, 0]
    obtain ⟨downDown, hdownDown⟩ := htwo [1, 1]
    obtain ⟨upDown, hupDown⟩ := htwo [0, 1]
    obtain ⟨downUp, hdownUp⟩ := htwo [1, 0]
    obtain ⟨exchange, hexchange⟩ :
        ∃ o, moves [(first, second, 0), (second, first, 1)] boundary = .ok o :=
      exists_moves (by simp [hfirst, hsecond]) hboundary
    rw [if_neg hsame, hupUp, hdownDown, hupDown, hdownUp, hexchange]
    exact ⟨_, rfl⟩

/-- The ring exchange of the unit plaquette can be built. -/
theorem SingletRingExchange.exists_build {boundary : Option BoundaryConditions}
    (hboundary : ∀ c, boundary = some c → c.dimension = 2) :
    ∃ o, SingletRingExchange.build boundary = .ok o := by
  have hall {terms : List (List (Site × Site × Nat))}
      (hterms : ∀ l ∈ terms, ∀ t ∈ l, t.1.dimension = 2 ∧ t.2.1.dimension = 2) :
      ∃ operators, (terms.mapM fun l => moves l boundary) = .ok operators := by
    obtain ⟨operators, hoperators⟩ :=
      exists_forall₂ fun l hl => exists_moves (hterms l hl) hboundary
    exact ⟨operators, mapM_eq_ok.mpr hoperators⟩
  refine (hall ?_).elim fun operators hoperators =>
    ⟨⟨operators⟩, bind_eq_ok.mpr ⟨operators, hoperators, rfl⟩⟩
  decide

/-- Boundary conditions are valid for their own number of dimensions and no other. -/
theorem BoundaryConditions.validate_eq_ok {b : BoundaryConditions} {n : Nat} :
    b.validate n = .ok () ↔ b.dimension = n := by
  rw [validate]
  split <;> simp_all

namespace TJKHamiltonian

variable {boundary : BoundaryConditions} {lattice : Lattice} {lengthX lengthY : Nat}

/-- **What a Hamiltonian is built of**: hops and spin correlations along the two bonds of the
origin, the ring exchange of the unit plaquette, and the divisors of the two lengths. -/
theorem build_eq_ok_iff {h : TJKHamiltonian} (hlengths : lattice.lengths = [lengthX, lengthY]) :
    build boundary lattice = .ok h ↔
      boundary.dimension = 2 ∧
      BondHops.build (Site.ofCell [1, 0]) boundary = .ok h.hopsX ∧
      BondHops.build (Site.ofCell [0, 1]) boundary = .ok h.hopsY ∧
      SpinSpin.build (Site.ofCell [0, 0]) (Site.ofCell [1, 0]) boundary = .ok h.spinSpinX ∧
      SpinSpin.build (Site.ofCell [0, 0]) (Site.ofCell [0, 1]) boundary = .ok h.spinSpinY ∧
      SingletRingExchange.build boundary = .ok h.ring ∧
      h.divX = divisor lengthX ∧ h.divY = divisor lengthY := by
  simp only [build, hlengths]
  constructor
  · intro h
    obtain ⟨⟨⟩, hvalid, h⟩ := bind_eq_ok.mp h
    obtain ⟨hopsX, hhopsX, h⟩ := bind_eq_ok.mp h
    obtain ⟨hopsY, hhopsY, h⟩ := bind_eq_ok.mp h
    obtain ⟨spinSpinX, hspinSpinX, h⟩ := bind_eq_ok.mp h
    obtain ⟨spinSpinY, hspinSpinY, h⟩ := bind_eq_ok.mp h
    obtain ⟨ring, hring, h⟩ := bind_eq_ok.mp h
    obtain rfl := Except.ok.inj h
    exact ⟨BoundaryConditions.validate_eq_ok.mp hvalid, hhopsX, hhopsY, hspinSpinX, hspinSpinY,
      hring, rfl, rfl⟩
  · rintro ⟨hdim, hhopsX, hhopsY, hspinSpinX, hspinSpinY, hring, hdivX, hdivY⟩
    rw [← hdivX, ← hdivY]
    exact bind_eq_ok.mpr ⟨(), BoundaryConditions.validate_eq_ok.mpr hdim,
      bind_eq_ok.mpr ⟨_, hhopsX, bind_eq_ok.mpr ⟨_, hhopsY, bind_eq_ok.mpr ⟨_, hspinSpinX,
        bind_eq_ok.mpr ⟨_, hspinSpinY, bind_eq_ok.mpr ⟨_, hring, rfl⟩⟩⟩⟩⟩⟩

/-- A Hamiltonian is built for a lattice of **two dimensions**. -/
theorem exists_lengths_of_build {h : TJKHamiltonian} (hbuild : build boundary lattice = .ok h) :
    ∃ lengthX lengthY, lattice.lengths = [lengthX, lengthY] := by
  rw [build] at hbuild
  split at hbuild
  next lengthX lengthY hlengths => exact ⟨lengthX, lengthY, hlengths⟩
  next => cases hbuild

/-- The **Hamiltonian of a two-dimensional lattice** can be built with any boundary conditions of
two dimensions. Its divisors are those of the two lengths. -/
theorem exists_build (hlengths : lattice.lengths = [lengthX, lengthY])
    (hboundary : boundary.dimension = 2) :
    ∃ h, build boundary lattice = .ok h ∧ h.divX = divisor lengthX ∧ h.divY = divisor lengthY := by
  have hsome : ∀ c, some boundary = some c → c.dimension = 2 := by simpa using hboundary
  obtain ⟨hopsX, hhopsX⟩ := BondHops.exists_build (Site.ofCell [1, 0]) rfl hboundary
  obtain ⟨hopsY, hhopsY⟩ := BondHops.exists_build (Site.ofCell [0, 1]) rfl hboundary
  obtain ⟨spinSpinX, hspinSpinX⟩ :=
    SpinSpin.exists_build (Site.ofCell [0, 0]) (Site.ofCell [1, 0]) rfl rfl hsome
  obtain ⟨spinSpinY, hspinSpinY⟩ :=
    SpinSpin.exists_build (Site.ofCell [0, 0]) (Site.ofCell [0, 1]) rfl rfl hsome
  obtain ⟨ring, hring⟩ := SingletRingExchange.exists_build hsome
  exact ⟨⟨hopsX, hopsY, spinSpinX, spinSpinY, ring, divisor lengthX, divisor lengthY⟩,
    (build_eq_ok_iff hlengths).mpr
      ⟨hboundary, hhopsX, hhopsY, hspinSpinX, hspinSpinY, hring, rfl, rfl⟩, rfl, rfl⟩

end TJKHamiltonian

end LatticeObservables
