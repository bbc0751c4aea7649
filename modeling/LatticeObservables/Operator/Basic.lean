import LatticeObservables.Boundary.Condition

/-!
# Hops and Basic Operators

A hop moves one particle of a species from a source to a destination; one that stays where
it is counts the particles of the species on the site. Hops are ordered by species, then by
source, then by destination, and the order tells different hops apart
(`instTransOrdHop`, `instLawfulEqOrdHop`).

A basic operator is a product of hops. With boundary conditions it stands for the sum of
all its shifts over the lattice. The hops of a product commute as far as measuring is
concerned, so they are kept in their canonical order: two operators built from the same hops
are equal, and operators that were declared independently share a measurement.

`BasicOperator.build` is the way to make one. It checks that all hops have the dimension of
the first one, and that the boundary conditions have it too.
-/

namespace LatticeObservables

/-! ### Hops -/

/-- What is known of a trial **wavefunction**: where particles can be, and how many species
of them there are. -/
structure Wavefunction where
  lattice : Lattice
  species : Nat
  deriving DecidableEq

/-- A **hop** of one particle of a species. -/
structure Hop where
  source : Site
  destination : Site
  species : Nat
  dimension_eq : destination.dimension = source.dimension
  deriving DecidableEq

namespace Hop

/-- The hop between two sites of one dimension. -/
def build (source destination : Site) (species : Nat) : Except ConstructionError Hop :=
  if h : destination.dimension = source.dimension then .ok ⟨source, destination, species, h⟩
  else .error (.dimensionMismatch source.dimension destination.dimension)

/-- The density of a species on a site. -/
def density (site : Site) (species : Nat) : Hop :=
  ⟨site, site, species, rfl⟩

/-- The number of coordinates of its sites. -/
def dimension (h : Hop) : Nat :=
  h.source.dimension

/-- Whether both sites are on the lattice of a wavefunction and the species exists. -/
def isValidFor (h : Hop) (w : Wavefunction) : Bool :=
  w.lattice.contains h.source && w.lattice.contains h.destination && h.species < w.species

/-- The text of a hop. -/
def text (h : Hop) : String :=
  h.source.text ++ "->" ++ h.destination.text ++ ":" ++ toString h.species

end Hop

/-- The species decides first, then the source, then the destination. -/
instance instOrdHop : Ord Hop where
  compare := compareLex (compareOn Hop.species)
    (compareLex (compareOn Hop.source) (compareOn Hop.destination))

instance instTransOrdHop : Std.TransOrd Hop :=
  inferInstanceAs (Std.TransCmp (compareLex (compareOn Hop.species)
    (compareLex (compareOn Hop.source) (compareOn Hop.destination))))

instance instLawfulEqOrdHop : Std.LawfulEqOrd Hop where
  eq_of_compare {a b} h := by
    obtain ⟨hs, hr⟩ := Ordering.then_eq_eq.mp h
    obtain ⟨hsource, hdestination⟩ := Ordering.then_eq_eq.mp hr
    cases a; cases b
    simp only [Hop.mk.injEq]
    exact ⟨Std.LawfulEqOrd.eq_of_compare hsource, Std.LawfulEqOrd.eq_of_compare hdestination,
      Std.LawfulEqOrd.eq_of_compare hs⟩

/-! ### Basic operators -/

/-- The **canonical order** of hops. -/
def Hop.precedes (a b : Hop) : Bool :=
  (compare a b).isLE

/-- What precedes a hop precedes the hops behind it. -/
theorem Hop.precedes_trans (a b c : Hop) (hab : a.precedes b) (hbc : b.precedes c) :
    a.precedes c :=
  Std.TransOrd.isLE_trans hab hbc

/-- Of two hops one precedes the other. -/
theorem Hop.precedes_total (a b : Hop) : a.precedes b || b.precedes a := by
  rw [Hop.precedes, Hop.precedes, Std.OrientedOrd.eq_swap (a := b) (b := a), Ordering.isLE_swap]
  cases compare a b <;> rfl

/-- A **basic operator**: hops in canonical order, all of one dimension, and boundary
conditions of that dimension if the operator is summed over shifts. -/
structure BasicOperator where
  hops : List Hop
  boundary : Option BoundaryConditions
  ordered : hops.Pairwise fun a b => a.precedes b
  uniform : ∀ a ∈ hops, ∀ b ∈ hops, a.dimension = b.dimension
  boundary_dimension : ∀ c, boundary = some c → ∀ a ∈ hops, c.dimension = a.dimension
  deriving DecidableEq

namespace BasicOperator

/-! ### Canonical form -/

/-- The hops in canonical order. -/
def canonical (hops : List Hop) : List Hop :=
  hops.mergeSort Hop.precedes

/-- Ordering loses no hop and invents none. -/
theorem canonical_perm (hops : List Hop) : (canonical hops).Perm hops :=
  List.mergeSort_perm hops Hop.precedes

/-- The canonical form has the same members. -/
theorem mem_canonical {hops : List Hop} {h : Hop} : h ∈ canonical hops ↔ h ∈ hops :=
  List.mem_mergeSort

/-- The canonical form is in canonical order. -/
theorem ordered_canonical (hops : List Hop) :
    (canonical hops).Pairwise fun a b => a.precedes b :=
  List.pairwise_mergeSort Hop.precedes_trans Hop.precedes_total hops

/-! ### Construction -/

/-- The dimension of the first hop and that of the first hop that differs from it. -/
def mismatch? : List Hop → Option (Nat × Nat)
  | [] => none
  | first :: rest =>
    (rest.find? fun h => h.dimension ≠ first.dimension).map fun h =>
      (first.dimension, h.dimension)

/-- Without a mismatch all hops have one dimension. -/
theorem uniform_of_mismatch?_eq_none {hops : List Hop} (h : mismatch? hops = none) :
    ∀ a ∈ hops, ∀ b ∈ hops, a.dimension = b.dimension := by
  cases hops with
  | nil => simp
  | cons first rest =>
      simp only [mismatch?, Option.map_eq_none_iff, List.find?_eq_none, decide_eq_true_eq,
        Decidable.not_not] at h
      have all : ∀ a ∈ first :: rest, a.dimension = first.dimension := by
        intro a ha
        rcases List.mem_cons.mp ha with rfl | ha
        · rfl
        · exact h a ha
      intro a ha b hb
      rw [all a ha, all b hb]

/-- The dimension that boundary conditions should have: that of the hops, or their own if
there are no hops. -/
def expectedDimension (hops : List Hop) (c : BoundaryConditions) : Nat :=
  match hops with
  | [] => c.dimension
  | first :: _ => first.dimension

/-- Builds an operator from hops in any order. -/
def build (hops : List Hop) (boundary : Option BoundaryConditions) :
    Except ConstructionError BasicOperator :=
  match hm : mismatch? hops with
  | some (expected, found) => .error (.dimensionMismatch expected found)
  | none =>
    have uniform := uniform_of_mismatch?_eq_none hm
    if hb : ∀ c, boundary = some c → c.dimension = expectedDimension hops c then
      .ok {
        hops := canonical hops
        boundary := boundary
        ordered := ordered_canonical hops
        uniform := fun a ha b hb =>
          uniform a (mem_canonical.mp ha) b (mem_canonical.mp hb)
        boundary_dimension := fun c hc a ha => by
          have ha := mem_canonical.mp ha
          cases hops with
          | nil => simp at ha
          | cons first rest => rw [hb c hc]; exact uniform first (by simp) a ha }
    else
      match boundary with
      | some c => .error (.invalidBoundaryConditions c.text (expectedDimension hops c))
      | none => False.elim (hb (by simp))

/-! ### Use -/

/-- Whether every hop is valid for a wavefunction and the boundary conditions, if any, have
the dimension of its lattice. -/
def isValidFor (o : BasicOperator) (w : Wavefunction) : Bool :=
  o.hops.all (·.isValidFor w) && o.boundary.all fun c => c.dimension == w.lattice.dimension

/-- The text of an operator: its hops, and the boundary conditions of the sum if there is
one. -/
def text (o : BasicOperator) : String :=
  bracketed (o.hops.map Hop.text) ++
    match o.boundary with
    | none => ""
    | some c => " summed with " ++ c.text

end BasicOperator

end LatticeObservables
