import LatticeObservables.Measurement.Plan
import LatticeObservables.Proofs.Boundary.Inside
import LatticeObservables.Proofs.Operator.Composite
import LatticeObservables.Proofs.Operator.Expansion
import LatticeObservables.Proofs.Sampling.Coverage

/-!
# Which Operators a Walk Accepts

Whether an observable can be measured on a walk is decided by its basic operators, after it was
expanded to them. What that comes to is said here in terms of what the observable was defined by:
the sites of the definition have to be on the lattice of the walk, and its species have to exist
(`Observable.Definition.LivesOn`).

## Main statements

* `BasicOperator.IsProduct.isValidFor_iff`: a product is valid if its moves and its boundary
  conditions are.
* `Observable.Definition.livesOn_iff`: an observable lives on a wavefunction exactly if that admits
  every move of its expansion.
* `MeasurementPlan.build_accepts_what_lives`: which plans are accepted, what is reported of the
  others, and what an accepted plan can rely on.
-/

namespace LatticeObservables

/-! ### Moves on a wavefunction -/

/-- A wavefunction **admits** a move if both sites are on its lattice and the species exists. -/
def Wavefunction.Admits (w : Wavefunction) (m : Move) : Prop :=
  w.lattice.contains m.1 ∧ w.lattice.contains m.2.1 ∧ m.2.2 < w.species

variable {w : Wavefunction}

/-- A hop is valid if its move is admitted. -/
theorem Hop.isValidFor_iff {h : Hop} : h.isValidFor w ↔ w.Admits h.move := by
  simp [isValidFor, Wavefunction.Admits, move, and_assoc]

/-- A move that stays on a site is admitted if the site is on the lattice and the species
exists. -/
theorem Wavefunction.admits_stay {s : Site} {n : Nat} :
    w.Admits (s.stay n) ↔ w.lattice.contains s ∧ n < w.species := by
  simp [Admits, Site.stay]

namespace BasicOperator

/-- A product is valid if **all its moves are admitted** and its boundary conditions have the
dimension of the lattice. -/
theorem IsProduct.isValidFor_iff {boundary : Option BoundaryConditions} {terms : List Move}
    {o : BasicOperator} (h : o.IsProduct boundary terms) :
    o.isValidFor w ↔
      (∀ c, boundary = some c → c.dimension = w.lattice.dimension) ∧ ∀ m ∈ terms, w.Admits m := by
  obtain ⟨hmoves, rfl⟩ := h
  have hhops : o.hops.all (·.isValidFor w) ↔ ∀ m ∈ terms, w.Admits m := by
    simp only [List.all_eq_true, Hop.isValidFor_iff, ← hmoves.mem_iff, List.mem_map,
      forall_exists_index, and_imp, forall_apply_eq_imp_iff₂]
  have hboundary : (o.boundary.all fun c => c.dimension == w.lattice.dimension) ↔
      ∀ c, o.boundary = some c → c.dimension = w.lattice.dimension := by
    simp [Option.all_eq_true]
  rw [isValidFor, Bool.and_eq_true, hhops, hboundary, and_comm]

/-- Products are all valid if **all moves of their expansion are admitted** and the boundary
conditions, which they share, have the dimension of the lattice. -/
theorem forall_isValidFor_iff {boundary : Option BoundaryConditions}
    {expansion : List (List Move)} {operators : List BasicOperator}
    (h : List.Forall₂ (IsProduct boundary) expansion operators) (hne : expansion ≠ []) :
    (∀ o ∈ operators, o.isValidFor w) ↔
      (∀ c, boundary = some c → c.dimension = w.lattice.dimension) ∧
        ∀ terms ∈ expansion, ∀ m ∈ terms, w.Admits m := by
  constructor
  · intro hvalid
    have hterm : ∀ terms ∈ expansion,
        (∀ c, boundary = some c → c.dimension = w.lattice.dimension) ∧
          ∀ m ∈ terms, w.Admits m := by
      intro terms hterms
      obtain ⟨o, ho, hproduct⟩ := exists_of_mem_right h.flip hterms
      exact (IsProduct.isValidFor_iff hproduct).mp (hvalid o ho)
    obtain ⟨terms, hterms⟩ := List.exists_mem_of_ne_nil expansion hne
    exact ⟨(hterm terms hterms).1, fun terms hterms => (hterm terms hterms).2⟩
  · rintro ⟨hboundary, hadmits⟩ o ho
    obtain ⟨terms, hterms, hproduct⟩ := exists_of_mem_right h ho
    exact hproduct.isValidFor_iff.mpr ⟨hboundary, hadmits terms hterms⟩

end BasicOperator

/-! ### Expansions on a wavefunction -/

/-- The moves of a pair of species are those that stay on either site. -/
theorem DensityDensity.admits_termMoves_iff {first second : Site} {i j : Nat} :
    (∀ m ∈ termMoves first second i j, w.Admits m) ↔
      w.Admits (first.stay i) ∧ w.Admits (second.stay j) := by
  rw [termMoves]
  split
  next hsame =>
    obtain ⟨rfl, rfl⟩ := hsame
    simp
  next => simp

/-- A density correlation needs **its sites and its species**. -/
theorem DensityDensity.admits_expansion_iff {first second : Site} {species : Nat}
    (hpos : 0 < species) :
    (∀ terms ∈ expansion first second species, ∀ m ∈ terms, w.Admits m) ↔
      w.lattice.contains first ∧ w.lattice.contains second ∧ species ≤ w.species := by
  have hpairs : (∀ terms ∈ expansion first second species, ∀ m ∈ terms, w.Admits m) ↔
      ∀ i < species, ∀ j < species, w.Admits (first.stay i) ∧ w.Admits (second.stay j) := by
    simp only [expansion, List.forall_mem_map, List.forall_mem_flatMap, List.mem_range,
      admits_termMoves_iff]
  rw [hpairs]
  simp only [Wavefunction.admits_stay]
  constructor
  · intro h
    obtain ⟨⟨hfirst, hlast⟩, hsecond, -⟩ := h (species - 1) (by omega) (species - 1) (by omega)
    exact ⟨hfirst, hsecond, by omega⟩
  · rintro ⟨hfirst, hsecond, hspecies⟩ i hi j hj
    exact ⟨⟨hfirst, by omega⟩, hsecond, by omega⟩

/-- A spin correlation needs **its sites and two species**. -/
theorem SpinSpin.admits_expansion_iff {first second : Site} :
    (∀ terms ∈ expansion first second, ∀ m ∈ terms, w.Admits m) ↔
      w.lattice.contains first ∧ w.lattice.contains second ∧ 2 ≤ w.species := by
  rw [expansion]
  split
  next hsame =>
    subst hsame
    simp only [List.forall_mem_cons, List.not_mem_nil, false_implies, implies_true, and_true,
      Wavefunction.admits_stay]
    constructor
    · rintro ⟨⟨hsite, -⟩, -, hdown⟩
      exact ⟨hsite, hsite, hdown⟩
    · rintro ⟨hsite, -, hspecies⟩
      exact ⟨⟨hsite, by omega⟩, hsite, by omega⟩
  next =>
    simp only [List.forall_mem_cons, List.not_mem_nil, false_implies, implies_true, and_true,
      Wavefunction.admits_stay]
    constructor
    · rintro ⟨-, ⟨⟨hfirst, hdown⟩, hsecond, -⟩, -⟩
      exact ⟨hfirst, hsecond, hdown⟩
    · rintro ⟨hfirst, hsecond, hspecies⟩
      have hstay : ∀ n < 2, (w.lattice.contains first ∧ n < w.species) ∧
          w.lattice.contains second ∧ n < w.species :=
        fun n hn => ⟨⟨hfirst, by omega⟩, hsecond, by omega⟩
      have hup := hstay 0 (by omega)
      have hdown := hstay 1 (by omega)
      exact ⟨hup, hdown, ⟨hup.1, hdown.2⟩, ⟨hdown.1, hup.2⟩, ⟨hfirst, hsecond, hup.1.2⟩,
        hsecond, hfirst, hdown.1.2⟩

/-- A lattice that was built has basis sites. -/
theorem Lattice.basisIndices_pos_of_build {lengths : List Nat} {basisIndices : Nat} {l : Lattice}
    (h : build lengths basisIndices = .ok l) : 0 < l.basisIndices := by
  obtain ⟨-, -, hbasis, rfl⟩ := build_eq_ok_iff.mp h
  exact Nat.pos_of_ne_zero hbasis

/-- A lattice **has a plaquette** if it has two dimensions of two cells at least. -/
def Lattice.HasPlaquette (l : Lattice) : Prop :=
  ∃ lengthX lengthY, l.lengths = [lengthX, lengthY] ∧ 2 ≤ lengthX ∧ 2 ≤ lengthY

/-- The cells of a lattice of two dimensions. -/
theorem Lattice.contains_ofCell_iff {l : Lattice} {lengthX lengthY : Nat} {x y : Int}
    (hlengths : l.lengths = [lengthX, lengthY]) (hbasis : 0 < l.basisIndices) :
    l.contains (Site.ofCell [x, y]) ↔ (0 ≤ x ∧ x < lengthX) ∧ 0 ≤ y ∧ y < lengthY := by
  have hdimension : [x, y].length = [lengthX, lengthY].length := rfl
  simp only [contains_iff, hlengths, Site.ofCell, inBlock, Bool.and_eq_true, decide_eq_true_eq,
    hdimension, hbasis, and_true, true_and]

/-- A lattice with basis sites has a plaquette if the **far corner** of the unit plaquette is one
of its sites. -/
theorem Lattice.contains_corner_iff {l : Lattice} (hbasis : 0 < l.basisIndices) :
    l.contains (Site.ofCell [1, 1]) ↔ l.HasPlaquette := by
  constructor
  · intro hcorner
    obtain ⟨lengthX, lengthY, hlengths⟩ :=
      List.length_eq_two.mp (contains_iff.mp hcorner).1.symm
    rw [contains_ofCell_iff hlengths hbasis] at hcorner
    exact ⟨lengthX, lengthY, hlengths, by omega, by omega⟩
  · rintro ⟨lengthX, lengthY, hlengths, hX, hY⟩
    rw [contains_ofCell_iff hlengths hbasis]
    omega

/-- The cells of the unit plaquette are on a lattice that has a plaquette. -/
theorem Lattice.HasPlaquette.contains {l : Lattice} (h : l.HasPlaquette)
    (hbasis : 0 < l.basisIndices) {x y : Int} (hx : 0 ≤ x ∧ x ≤ 1) (hy : 0 ≤ y ∧ y ≤ 1) :
    l.contains (Site.ofCell [x, y]) := by
  obtain ⟨lengthX, lengthY, hlengths, hX, hY⟩ := h
  rw [contains_ofCell_iff hlengths hbasis]
  omega

/-- The hops along a bond of the plaquette need the plaquette and two species. -/
theorem BondHops.admits_expansion {neighbour : Site}
    (horigin : w.lattice.contains (Site.ofCell [0, 0])) (hneighbour : w.lattice.contains neighbour)
    (hspecies : 2 ≤ w.species) : ∀ terms ∈ expansion neighbour, ∀ m ∈ terms, w.Admits m := by
  simp only [expansion, List.forall_mem_cons, List.not_mem_nil, false_implies, implies_true,
    and_true]
  have hup : 0 < w.species := by omega
  exact ⟨⟨horigin, hneighbour, hup⟩, horigin, hneighbour, hspecies⟩

/-- A singlet ring exchange needs **a plaquette and two species**. -/
theorem SingletRingExchange.admits_expansion_iff (hbasis : 0 < w.lattice.basisIndices) :
    (∀ terms ∈ expansion, ∀ m ∈ terms, w.Admits m) ↔ w.lattice.HasPlaquette ∧ 2 ≤ w.species := by
  simp only [expansion, List.forall_mem_cons, List.not_mem_nil, false_implies, implies_true,
    and_true]
  constructor
  · rintro ⟨⟨-, hcorner, -, hdown⟩, -⟩
    exact ⟨(Lattice.contains_corner_iff hbasis).mp hcorner, hdown⟩
  · rintro ⟨hplaquette, hspecies⟩
    have hcontains {x y : Int} (hx : 0 ≤ x ∧ x ≤ 1) (hy : 0 ≤ y ∧ y ≤ 1) :=
      hplaquette.contains hbasis hx hy
    have h00 := hcontains (x := 0) (y := 0) (by decide) (by decide)
    have h10 := hcontains (x := 1) (y := 0) (by decide) (by decide)
    have h11 := hcontains (x := 1) (y := 1) (by decide) (by decide)
    have h01 := hcontains (x := 0) (y := 1) (by decide) (by decide)
    have hup : 0 < w.species := by omega
    have hdown : 1 < w.species := by omega
    exact ⟨⟨⟨h00, h10, hup⟩, h11, h01, hdown⟩, ⟨⟨h00, h10, hdown⟩, h11, h01, hup⟩,
      ⟨⟨h00, h01, hup⟩, h11, h10, hdown⟩, ⟨h00, h01, hdown⟩, h11, h10, hup⟩

/-- A Hamiltonian needs **a plaquette and two species**. -/
theorem TJKHamiltonian.admits_expansion_iff (hbasis : 0 < w.lattice.basisIndices) :
    (∀ terms ∈ expansion, ∀ m ∈ terms, w.Admits m) ↔ w.lattice.HasPlaquette ∧ 2 ≤ w.species := by
  simp only [expansion, List.forall_mem_append]
  constructor
  · rintro ⟨-, hring⟩
    exact (SingletRingExchange.admits_expansion_iff hbasis).mp hring
  · rintro ⟨hplaquette, hspecies⟩
    have h00 := hplaquette.contains hbasis (x := 0) (y := 0) (by decide) (by decide)
    have h10 := hplaquette.contains hbasis (x := 1) (y := 0) (by decide) (by decide)
    have h01 := hplaquette.contains hbasis (x := 0) (y := 1) (by decide) (by decide)
    refine ⟨⟨⟨⟨?hopsX, ?hopsY⟩, ?spinSpinX⟩, ?spinSpinY⟩, ?ring⟩
    case hopsX => exact BondHops.admits_expansion h00 h10 hspecies
    case hopsY => exact BondHops.admits_expansion h00 h01 hspecies
    case spinSpinX => exact SpinSpin.admits_expansion_iff.mpr ⟨h00, h10, hspecies⟩
    case spinSpinY => exact SpinSpin.admits_expansion_iff.mpr ⟨h00, h01, hspecies⟩
    case ring =>
      exact (SingletRingExchange.admits_expansion_iff hbasis).mpr ⟨hplaquette, hspecies⟩

/-- A spin ring exchange needs **its sites and two species**. -/
theorem SpinRingExchange.admits_expansion_iff {ring : Corner → Site} :
    (∀ terms ∈ expansion ring, ∀ m ∈ terms, w.Admits m) ↔
      (∀ k, w.lattice.contains (ring k)) ∧ 2 ≤ w.species := by
  have hmoves : (∀ terms ∈ expansion ring, ∀ m ∈ terms, w.Admits m) ↔
      ∀ t ∈ table, ∀ m ∈ t, w.Admits (onRing ring m) := by
    simp only [expansion, List.forall_mem_map]
  rw [hmoves]
  constructor
  · intro h
    -- Among the terms is one in which every corner keeps its spin, for either spin.
    have hstay : ∀ k : Corner, ∀ n < 2, w.Admits (onRing ring (k, k, n)) := by
      intro k n hn
      have hterm : ∀ k : Corner, ∀ n < 2, ∃ t ∈ table, (k, k, n) ∈ t := by decide
      obtain ⟨t, ht, hm⟩ := hterm k n hn
      exact h t ht _ hm
    exact ⟨fun k => (hstay k 0 (by decide)).1, (hstay 0 1 (by decide)).2.2⟩
  · rintro ⟨hsites, hspecies⟩ t ht m hm
    have hspin : ∀ t ∈ table, ∀ m ∈ t, m.2.2 < 2 := by decide
    exact ⟨hsites _, hsites _, lt_of_lt_of_le (hspin t ht m hm) hspecies⟩

/-! ### Observables on a wavefunction -/

namespace Observable.Definition

/-- An observable **lives on a wavefunction** if the sites that it is defined on are on the lattice
and its species exist: for a basic operator those of its hops, for a density correlation as many
species as it is defined for, and for everything made of spins two species. What is defined on the
unit plaquette needs a lattice that has it. -/
def LivesOn (w : Wavefunction) : Definition → Prop
  | basic hops _ => ∀ h ∈ hops,
    w.lattice.contains h.source ∧ w.lattice.contains h.destination ∧ h.species < w.species
  | densityDensity first second species _ =>
    w.lattice.contains first ∧ w.lattice.contains second ∧ species ≤ w.species
  | spinSpin first second _ =>
    w.lattice.contains first ∧ w.lattice.contains second ∧ 2 ≤ w.species
  | singletRing _ => w.lattice.HasPlaquette ∧ 2 ≤ w.species
  | hamiltonian _ _ => w.lattice.HasPlaquette ∧ 2 ≤ w.species
  | spinRing ring _ => (∀ k, w.lattice.contains (ring k)) ∧ 2 ≤ w.species

/-- An observable lives on a wavefunction exactly if **every move of its expansion** is
admitted. -/
theorem livesOn_iff {d : Definition} {o : Observable} (h : d.build = .ok o)
    (hbasis : 0 < w.lattice.basisIndices) :
    d.LivesOn w ↔ ∀ terms ∈ d.expansion, ∀ m ∈ terms, w.Admits m := by
  cases d with
  | basic hops boundary =>
      simp only [expansion, List.forall_mem_singleton, List.forall_mem_map]
      rfl
  | densityDensity first second species boundary =>
      obtain ⟨o, ho, -⟩ := map_eq_ok.mp h
      exact (DensityDensity.admits_expansion_iff (DensityDensity.forall₂_of_build ho).1).symm
  | spinSpin first second boundary => exact SpinSpin.admits_expansion_iff.symm
  | singletRing boundary => exact (SingletRingExchange.admits_expansion_iff hbasis).symm
  | hamiltonian conditions lattice => exact (TJKHamiltonian.admits_expansion_iff hbasis).symm
  | spinRing ring boundary => exact SpinRingExchange.admits_expansion_iff.symm

/-- What is built has terms. -/
theorem expansion_ne_nil {d : Definition} {o : Observable} (h : d.build = .ok o) :
    d.expansion ≠ [] := by
  cases d with
  | densityDensity first second species boundary =>
      obtain ⟨o, ho, -⟩ := map_eq_ok.mp h
      have hpos := (DensityDensity.forall₂_of_build ho).1
      have hpair : (0, 0) ∈ (List.range species).flatMap fun i =>
          (List.range species).map fun j => (i, j) := by
        simpa using hpos
      exact List.ne_nil_of_mem (List.mem_map_of_mem hpair)
  | spinSpin first second boundary =>
      rw [expansion, SpinSpin.expansion]
      split <;> exact List.cons_ne_nil _ _
  | _ => exact List.cons_ne_nil _ _

end Observable.Definition

/-! ### Plans -/

namespace MeasurementPlan

variable {W : Type} [WalkPlan W] {walk : W} {o : Observable}

/-- A plan is accepted if **all terms are valid** for the wavefunction of the walk. -/
theorem build_eq_ok_iff {plan : MeasurementPlan W} :
    build walk o = .ok plan ↔
      (∀ b ∈ o.terms, b.isValidFor (WalkPlan.wavefunction walk)) ∧ plan = ⟨walk, o⟩ := by
  have hvalid :
      (o.basicOperators.find? fun b => !b.isValidFor (WalkPlan.wavefunction walk)) = none ↔
        ∀ b ∈ o.terms, b.isValidFor (WalkPlan.wavefunction walk) := by
    simp [List.find?_eq_none, Observable.basicOperators]
  rw [build, ← hvalid]
  split
  next invalid hinvalid => simp [hinvalid]
  next hnone => simp [hnone, eq_comm]

/-- A plan that is not accepted names the **first basic operator that is not valid**. -/
theorem build_eq_error {e : PlanError} (h : build walk o = .error e) :
    ∃ before after, o.basicOperators = before ++ e.operator :: after ∧
      (∀ b ∈ before, b.isValidFor (WalkPlan.wavefunction walk)) ∧
      ¬ e.operator.isValidFor (WalkPlan.wavefunction walk) := by
  rw [build] at h
  split at h
  next invalid hinvalid =>
    obtain rfl := Except.error.inj h
    obtain ⟨hnot, before, after, hsplit, hbefore⟩ := List.find?_eq_some_iff_append.mp hinvalid
    refine ⟨before, after, hsplit, ?_, by simpa using hnot⟩
    intro b hb
    simpa using hbefore b hb
  next => cases h

/-- **Plans accept exactly the operators that live on the walk.** Take a walk whose lattice was
built, and an observable that was built. Its plan is accepted if and only if its boundary
conditions, if there are any, have the dimension of the lattice, and it lives on the wavefunction.
Otherwise the plan is refused with the first of the basic operators that is not valid. Each basic
plan of an accepted plan would be accepted on its own, and if no length is past `2 ^ 63`, all sites
of its hops are their own images, without a phase under any boundary conditions. -/
theorem build_accepts_what_lives {lengths : List Nat} {basisIndices : Nat}
    (hlattice : Lattice.build lengths basisIndices = .ok (WalkPlan.wavefunction walk).lattice)
    {d : Observable.Definition} (ho : d.build = .ok o) :
    ((∃ plan, build walk o = .ok plan) ↔
      (∀ c, d.boundary = some c →
        c.dimension = (WalkPlan.wavefunction walk).lattice.dimension) ∧
      d.LivesOn (WalkPlan.wavefunction walk)) ∧
    (∀ e, build walk o = .error e →
      e.message = "invalid operator: " ++ e.operator.text ++
        " is not valid for the walk's wavefunction" ∧
      ∃ before after, o.basicOperators = before ++ e.operator :: after ∧
        (∀ b ∈ before, b.isValidFor (WalkPlan.wavefunction walk)) ∧
        ¬ e.operator.isValidFor (WalkPlan.wavefunction walk)) ∧
    (∀ plan, build walk o = .ok plan →
      ∀ p ∈ plan.basicPlans, p.walk = walk ∧ BasicPlan.build walk p.operator = .ok p ∧
        ((∀ length ∈ (WalkPlan.wavefunction walk).lattice.lengths, length ≤ 2 ^ 63) →
          ∀ h ∈ p.operator.hops, ∀ s, s = h.source ∨ s = h.destination →
            (WalkPlan.wavefunction walk).lattice.enforce s = .ok s ∧
            ∀ c : BoundaryConditions,
              c.dimension = (WalkPlan.wavefunction walk).lattice.dimension →
                (WalkPlan.wavefunction walk).lattice.enforceWithPhase c s = .ok (s, 0))) := by
  refine ⟨?accepted, fun e he => ⟨rfl, build_eq_error he⟩, ?sound⟩
  case accepted =>
    have hbasis := Lattice.basisIndices_pos_of_build hlattice
    rw [Observable.Definition.livesOn_iff ho hbasis, ← BasicOperator.forall_isValidFor_iff
      (Observable.Definition.forall₂_of_build ho) (Observable.Definition.expansion_ne_nil ho)]
    simp only [build_eq_ok_iff, exists_and_left, exists_eq, and_true]
  case sound =>
    intro plan hplan p hp
    obtain ⟨hvalid, rfl⟩ := build_eq_ok_iff.mp hplan
    obtain ⟨b, hb, rfl⟩ := List.mem_map.mp hp
    have hb := hvalid b (mem_firstSeen.mp hb)
    refine ⟨rfl, by rw [BasicPlan.build, if_pos hb], ?_⟩
    intro hlengths h hh s hs
    rw [BasicOperator.isValidFor, Bool.and_eq_true, List.all_eq_true] at hb
    obtain ⟨hsource, hdestination, -⟩ := Hop.isValidFor_iff.mp (hb.1 h hh)
    have hcontains : (WalkPlan.wavefunction walk).lattice.contains s := by
      rcases hs with rfl | rfl
      · exact hsource
      · exact hdestination
    exact ⟨Lattice.enforce_of_contains hlengths hcontains,
      fun c hc => Lattice.enforceWithPhase_of_contains hlengths hcontains hc⟩

/-- The Hamiltonian of a plane of two by two cells is accepted on that plane with two species, and
refused on a line. -/
theorem build_accepts_what_lives_plane :
    ∃ o plan e,
      (Observable.Definition.hamiltonian (.periodic 2) ⟨[2, 2], 1⟩).build = .ok o ∧
        build (⟨⟨[2, 2], 1⟩, 2⟩ : Wavefunction) o = .ok plan ∧ build (twoSites 2) o = .error e := by
  have hlengths : (⟨[2, 2], 1⟩ : Lattice).lengths = [2, 2] := rfl
  have hconditions : (BoundaryConditions.periodic 2).dimension = 2 := rfl
  obtain ⟨hamiltonian, hbuild, -, -⟩ := TJKHamiltonian.exists_build hlengths hconditions
  have ho : (Observable.Definition.hamiltonian (.periodic 2) ⟨[2, 2], 1⟩).build =
      .ok (.hamiltonian hamiltonian) := map_eq_ok.mpr ⟨hamiltonian, hbuild, rfl⟩
  have hplane : Lattice.build [2, 2] 1 =
      .ok (WalkPlan.wavefunction (⟨⟨[2, 2], 1⟩, 2⟩ : Wavefunction)).lattice := by decide
  have hline : Lattice.build [2] 1 = .ok (WalkPlan.wavefunction (twoSites 2)).lattice := by decide
  obtain ⟨plan, hplan⟩ := (build_accepts_what_lives hplane ho).1.mpr
    ⟨by rintro c ⟨⟩; rfl, ⟨2, 2, rfl, by decide, by decide⟩, by decide⟩
  obtain ⟨e, he⟩ := exists_error_of_ne_ok fun plan (hplan : build (twoSites 2) _ = .ok plan) => by
    obtain ⟨-, ⟨_, _, hlengths, -⟩, -⟩ := (build_accepts_what_lives hline ho).1.mp ⟨plan, hplan⟩
    cases hlengths
  exact ⟨_, plan, e, ho, hplan, he⟩

end MeasurementPlan

end LatticeObservables
