import LatticeObservables.Proofs.Operator.Composite
import LatticeObservables.Proofs.Record.RoundTrip

/-!
# Phases Other Than Zero

Boundary conditions are made from constants, from given fractions, from records and from conditions
that were made before. Each of these ways checks for the phase zero on its own, or leaves it to the
conditions that it is given. However they are combined, what comes out is stored as fractions in
lowest terms with a positive denominator and a numerator other than zero; and every list of such
fractions can be obtained (`BoundaryConditions.exists_obtainable_iff`).

What is done with boundary conditions afterwards need not look for the phase zero again. The checks
that do (`suitsDimension`, `twistedDivisor`) decide the same.

## Main statements

* `BoundaryConditions.obtainable_iff`: which boundary conditions can be obtained.
* `BoundaryConditions.ofPhases_eq_ok`, `BoundaryConditions.mapM_ofPhase_eq_ok`: conditions of given
  phases have those phases, made all at once or one by one.
* `BoundaryConditions.no_zero_phase`: no phase is zero, and what follows from it for the number of
  dimensions, for given phases and for the divisors of a Hamiltonian.
-/

namespace LatticeObservables

/-! ### Stored phases -/

/-- A numerator and a denominator **store a phase**: the phase is not zero, it is in lowest terms
with a positive denominator, and words of 64 bits hold both. -/
structure StoresPhase (parts : Int × Int) : Prop where
  ne_zero : parts.1 ≠ 0
  positive : 0 < parts.2
  lowest : parts.1.natAbs.Coprime parts.2.natAbs
  fits : Fits 64 parts.1 ∧ Fits 64 parts.2

/-- The numerator and the denominator that a condition stores. -/
def BoundaryCondition.parts (c : BoundaryCondition) : Int × Int :=
  (c.phase.num, c.phase.den)

/-- The numerators and denominators that boundary conditions store. -/
def BoundaryConditions.parts (b : BoundaryConditions) : List (Int × Int) :=
  b.conditions.map BoundaryCondition.parts

/-- Whether stored phases **suit a number of dimensions**: there is one for each of them, and none
is zero. -/
def suitsDimension (stored : List (Int × Int)) (n : Nat) : Bool :=
  stored.length == n && stored.all fun parts => parts.1 != 0

/-- How often a sum over shifts counts a bond, decided by the length of its dimension and **by the
phase along it**: a phase of zero would be no condition at all. -/
def twistedDivisor (length : Nat) (parts : Int × Int) : Nat :=
  if length = 2 ∧ parts.1 ≠ 0 then 2 else 1

/-- The numerator that a condition stores is not zero. -/
theorem BoundaryCondition.parts_ne_zero (c : BoundaryCondition) : c.parts.1 ≠ 0 :=
  Rat.num_ne_zero.mpr c.phase_ne_zero

/-- What stores a phase is what a condition in words stores. -/
theorem storesPhase_iff {parts : Int × Int} :
    StoresPhase parts ↔ ∃ c : BoundaryCondition, PhaseInWords c.phase ∧ c.parts = parts := by
  constructor
  · obtain ⟨n, d⟩ := parts
    rintro ⟨hzero, hpositive, hlowest, hfits⟩
    obtain ⟨d, rfl⟩ := Int.eq_ofNat_of_zero_le hpositive.le
    have hd : d ≠ 0 := by
      rintro rfl
      exact absurd hpositive (lt_irrefl _)
    have hphase : (⟨n, d, hd, hlowest⟩ : ℚ) ≠ 0 := Rat.num_ne_zero.mp hzero
    exact ⟨⟨_, hphase⟩, hfits, rfl⟩
  · rintro ⟨c, hfits, rfl⟩
    exact ⟨c.parts_ne_zero, Int.natCast_pos.mpr c.phase.den_pos, c.phase.reduced, hfits⟩

/-! ### What can be obtained -/

mutual

/-- The conditions along one dimension that **can be obtained**: the two constants, conditions of a
given fraction, those that are read, and those that stand in boundary conditions. A given fraction
is one that `Fraction.ofParts` makes of a numerator and a denominator, and so it is reduced. -/
inductive BoundaryCondition.Obtainable : BoundaryCondition → Prop
  | periodic : BoundaryCondition.Obtainable .periodic
  | antiperiodic : BoundaryCondition.Obtainable .antiperiodic
  | ofPhase {n d : Int} {phase : ℚ} {c : BoundaryCondition}
      (hphase : Fraction.ofParts n d = .ok phase) (hc : BoundaryCondition.ofPhase phase = .ok c) :
      BoundaryCondition.Obtainable c
  | ofJson {v : Json} {c : BoundaryCondition} (hc : BoundaryCondition.ofJson v = .ok c) :
      BoundaryCondition.Obtainable c
  | component {b : BoundaryConditions} {c : BoundaryCondition}
      (hb : BoundaryConditions.Obtainable b) (hc : c ∈ b.conditions) :
      BoundaryCondition.Obtainable c

/-- The boundary conditions that **can be obtained**: lists of conditions that can, conditions of
given fractions, which are reduced here too, periodic ones, and those that are read. -/
inductive BoundaryConditions.Obtainable : BoundaryConditions → Prop
  | ofList {conditions : List BoundaryCondition}
      (h : ∀ c ∈ conditions, BoundaryCondition.Obtainable c) :
      BoundaryConditions.Obtainable ⟨conditions⟩
  | ofPhases {fractions : List (Int × Int)} {phases : List ℚ} {b : BoundaryConditions}
      (hphases : List.Forall₂ (fun q phase => Fraction.ofParts q.1 q.2 = .ok phase)
        fractions phases)
      (hb : BoundaryConditions.ofPhases phases = .ok b) : BoundaryConditions.Obtainable b
  | periodic (n : Nat) : BoundaryConditions.Obtainable (.periodic n)
  | ofJson {v : Json} {b : BoundaryConditions} (hb : BoundaryConditions.ofJson v = .ok b) :
      BoundaryConditions.Obtainable b

end

/-! ### Given phases -/

/-- A condition of a given phase has **that phase**. -/
theorem BoundaryCondition.ofPhase_eq_ok {phase : ℚ} {c : BoundaryCondition} :
    ofPhase phase = .ok c ↔ phase ≠ 0 ∧ c.phase = phase := by
  rw [ofPhase]
  split
  next hzero => simp [hzero]
  next hzero =>
    rw [Except.ok.injEq]
    constructor
    · rintro rfl
      exact ⟨hzero, rfl⟩
    · rintro ⟨-, rfl⟩
      rfl

/-- Conditions are known by their phases. -/
theorem BoundaryCondition.phase_injective : Function.Injective phase := by
  rintro ⟨phase, _⟩ ⟨_, _⟩ rfl
  rfl

/-- The conditions of given phases have **those phases**, and there are such conditions unless one
of the phases is zero. -/
theorem BoundaryConditions.ofPhases_eq_ok {phases : List ℚ} {b : BoundaryConditions} :
    ofPhases phases = .ok b ↔
      (∀ p ∈ phases, p ≠ 0) ∧ b.conditions.map BoundaryCondition.phase = phases := by
  obtain ⟨conditions⟩ := b
  rw [ofPhases]
  split
  next hphases =>
    rw [Except.ok.injEq, BoundaryConditions.mk.injEq,
      ← (List.map_injective_iff.mpr BoundaryCondition.phase_injective).eq_iff]
    simp only [List.map_map, Function.comp_def, List.attach_map_subtype_val, eq_comm]
    exact (and_iff_right hphases).symm
  next hphases => simp [hphases]

/-- Conditions are made one by one of the phases that they have, if none is zero. -/
theorem BoundaryConditions.mapM_ofPhase_eq_ok {phases : List ℚ}
    {conditions : List BoundaryCondition} :
    phases.mapM BoundaryCondition.ofPhase = .ok conditions ↔
      (∀ p ∈ phases, p ≠ 0) ∧ conditions.map BoundaryCondition.phase = phases := by
  rw [mapM_eq_ok]
  simp only [BoundaryCondition.ofPhase_eq_ok]
  rw [List.forall₂_and_left, eq_comm, ← List.forall₂_eq_eq_eq, List.forall₂_map_right_iff]
  simp only [eq_comm]

/-- There is a condition of a given phase exactly if the phase **is not zero**. -/
theorem BoundaryCondition.exists_ofPhase_iff {phase : ℚ} :
    (∃ c, ofPhase phase = .ok c) ↔ phase ≠ 0 := by
  simp only [ofPhase_eq_ok]
  constructor
  · rintro ⟨-, hzero, -⟩
    exact hzero
  · intro hzero
    exact ⟨⟨phase, hzero⟩, hzero, rfl⟩

/-- There are conditions of given phases exactly if there is **one of each phase**. -/
theorem BoundaryConditions.exists_ofPhases_iff {phases : List ℚ} :
    (∃ b, ofPhases phases = .ok b) ↔ ∀ p ∈ phases, ∃ c, BoundaryCondition.ofPhase p = .ok c := by
  simp only [BoundaryCondition.exists_ofPhase_iff, ofPhases]
  split
  next hphases => simpa using hphases
  next hphases => simpa using hphases

/-! ### Only phases other than zero -/

mutual

/-- Words hold the phase of a condition, **however it was obtained**. -/
theorem BoundaryCondition.Obtainable.inWords {c : BoundaryCondition} :
    c.Obtainable → PhaseInWords c.phase
  | .periodic => ⟨by decide, by decide⟩
  | .antiperiodic => ⟨by decide, by decide⟩
  | .ofPhase hphase hc => by
      obtain ⟨-, -, hfits⟩ := Fraction.ofParts_eq_ok.mp hphase
      obtain ⟨-, rfl⟩ := BoundaryCondition.ofPhase_eq_ok.mp hc
      exact hfits
  | .ofJson hc => by
      obtain ⟨_, _, -, -, -, -, -, hfits⟩ :=
        phaseOfJson_eq_ok.mp (BoundaryCondition.ofJson_eq_ok.mp hc)
      exact hfits
  | .component hb hc => hb.inWords _ hc

/-- Words hold the phases of boundary conditions, **however they were obtained**. -/
theorem BoundaryConditions.Obtainable.inWords {b : BoundaryConditions} :
    b.Obtainable → ∀ c ∈ b.conditions, PhaseInWords c.phase
  | .ofList h => fun c hc => (h c hc).inWords
  | .ofPhases hphases hb => by
      obtain ⟨-, rfl⟩ := BoundaryConditions.ofPhases_eq_ok.mp hb
      intro c hc
      obtain ⟨_, -, hphase⟩ := exists_of_mem_right hphases (List.mem_map_of_mem hc)
      exact (Fraction.ofParts_eq_ok.mp hphase).2.2
  | .periodic n => by
      intro c hc
      obtain rfl := List.eq_of_mem_replicate hc
      exact ⟨by decide, by decide⟩
  | .ofJson hb => by
      obtain ⟨items, rfl, hitems⟩ := BoundaryConditions.ofJson_eq_ok.mp hb
      intro c hc
      obtain ⟨_, -, hitem⟩ := exists_of_mem_right hitems hc
      obtain ⟨_, _, -, -, -, -, -, hfits⟩ :=
        phaseOfJson_eq_ok.mp (BoundaryCondition.ofJson_eq_ok.mp hitem)
      exact hfits

end

/-- **Which boundary conditions can be obtained**: those with phases that words hold. -/
theorem BoundaryConditions.obtainable_iff {b : BoundaryConditions} :
    b.Obtainable ↔ ∀ c ∈ b.conditions, PhaseInWords c.phase := by
  refine ⟨Obtainable.inWords, fun hwords => .ofList fun c hc => ?_⟩
  have hden : (c.phase.den : Int) ≠ 0 := by exact_mod_cast c.phase.den_nz
  exact .ofPhase
    (Fraction.ofParts_eq_ok.mpr ⟨hden, (Rat.num_div_den c.phase).symm, hwords c hc⟩)
    (BoundaryCondition.ofPhase_eq_ok.mpr ⟨c.phase_ne_zero, rfl⟩)

/-- What can be stored are **exactly the lists of phases** in lowest terms that are not zero. -/
theorem BoundaryConditions.exists_obtainable_iff {stored : List (Int × Int)} :
    (∃ b : BoundaryConditions, b.Obtainable ∧ b.parts = stored) ↔
      ∀ parts ∈ stored, StoresPhase parts := by
  constructor
  · rintro ⟨b, hb, rfl⟩
    rw [BoundaryConditions.parts, List.forall_mem_map]
    exact fun c hc => storesPhase_iff.mpr ⟨c, hb.inWords c hc, rfl⟩
  · intro hstored
    obtain ⟨conditions, hconditions⟩ :=
      exists_forall₂ fun parts hparts => storesPhase_iff.mp (hstored parts hparts)
    refine ⟨⟨conditions⟩, obtainable_iff.mpr fun c hc => ?_, ?_⟩
    · obtain ⟨_, -, hfits, -⟩ := exists_of_mem_right hconditions hc
      exact hfits
    · have hparts := hconditions.imp fun _ _ h => h.2.symm
      rw [← List.forall₂_map_right_iff, List.forall₂_eq_eq_eq] at hparts
      exact hparts.symm

/-! ### What follows -/

/-- Stored phases suit **their own number of dimensions** and no other. -/
theorem BoundaryConditions.suitsDimension_parts {b : BoundaryConditions} {n : Nat} :
    suitsDimension b.parts n ↔ b.dimension = n := by
  have hzero : (b.parts.all fun parts => parts.1 != 0) = true := by
    rw [parts, List.all_map, List.all_eq_true]
    exact fun c _ => bne_iff_ne.mpr c.parts_ne_zero
  rw [suitsDimension, hzero, Bool.and_true, beq_iff_eq, parts, List.length_map, dimension]

/-- Looking for the phase zero, too, **decides the same** about the number of dimensions. -/
theorem BoundaryConditions.validate_eq (b : BoundaryConditions) (n : Nat) :
    b.validate n =
      if suitsDimension b.parts n then .ok ()
      else .error (.invalidBoundaryConditions b.text n) := by
  simp only [validate, suitsDimension_parts]

namespace TJKHamiltonian

/-- A divisor is two exactly if the length is. -/
theorem divisor_eq_two_iff {length : Nat} : divisor length = 2 ↔ length = 2 := by
  rw [divisor]
  split <;> simp_all

/-- Looking for the phase zero, too, **decides the same** about the divisor. -/
theorem twistedDivisor_parts (length : Nat) (c : BoundaryCondition) :
    twistedDivisor length c.parts = divisor length := by
  rw [twistedDivisor, divisor]
  simp only [c.parts_ne_zero, ne_eq, not_false_eq_true, and_true]

variable {b : BoundaryConditions} {l : Lattice} {h : TJKHamiltonian}

/-- A Hamiltonian is built **for two dimensions**, of the lattice and of the conditions. -/
theorem exists_build_iff : (∃ h, build b l = .ok h) ↔ l.dimension = 2 ∧ b.dimension = 2 := by
  constructor
  · rintro ⟨h, hbuild⟩
    obtain ⟨lengthX, lengthY, hlengths⟩ := exists_lengths_of_build hbuild
    refine ⟨?_, ((build_eq_ok_iff hlengths).mp hbuild).1⟩
    rw [Lattice.dimension, hlengths]
    rfl
  · rintro ⟨hl, hb⟩
    obtain ⟨lengthX, lengthY, hlengths⟩ := List.length_eq_two.mp hl
    obtain ⟨h, hbuild, -⟩ := exists_build hlengths hb
    exact ⟨h, hbuild⟩

/-- The divisors of a Hamiltonian, decided with a look **at the phases**. -/
theorem divisors_of_build (hbuild : build b l = .ok h) :
    ∃ lengthX lengthY partsX partsY,
      l.lengths = [lengthX, lengthY] ∧ b.parts = [partsX, partsY] ∧
      (h.divX = twistedDivisor lengthX partsX ∧ (h.divX = 2 ↔ lengthX = 2)) ∧
      h.divY = twistedDivisor lengthY partsY ∧ (h.divY = 2 ↔ lengthY = 2) := by
  obtain ⟨lengthX, lengthY, hlengths⟩ := exists_lengths_of_build hbuild
  obtain ⟨hb, -, -, -, -, -, hdivX, hdivY⟩ := (build_eq_ok_iff hlengths).mp hbuild
  obtain ⟨cX, cY, hconditions⟩ := List.length_eq_two.mp hb
  refine ⟨lengthX, lengthY, cX.parts, cY.parts, hlengths, ?_, ⟨?_, ?_⟩, ?_, ?_⟩
  · rw [BoundaryConditions.parts, hconditions]
    rfl
  · rw [hdivX, twistedDivisor_parts]
  · rw [hdivX, divisor_eq_two_iff]
  · rw [hdivY, twistedDivisor_parts]
  · rw [hdivY, divisor_eq_two_iff]

end TJKHamiltonian

/-- **No phase is zero.** However boundary conditions are made, they store fractions in lowest terms
with a positive denominator and a numerator other than zero, and all lists of such fractions can be
made. Therefore the check for a number of dimensions, which looks at the phases too, accepts their
own number and no other. There is a condition of every phase but zero; conditions of given phases
exist if there is one of each phase, and then they are these conditions in their order. A
Hamiltonian exists in two dimensions, and its divisors, which are decided by the phases too, are two
exactly along lengths of two. -/
theorem BoundaryConditions.no_zero_phase :
    (∀ stored : List (Int × Int),
      (∃ b : BoundaryConditions, b.Obtainable ∧ b.parts = stored) ↔
        ∀ parts ∈ stored, StoresPhase parts) ∧
    (∀ (b : BoundaryConditions) (n : Nat),
      b.validate n =
        (if suitsDimension b.parts n then .ok ()
          else .error (.invalidBoundaryConditions b.text n)) ∧
      (b.validate n = .ok () ↔ b.dimension = n)) ∧
    (∀ phase c, BoundaryCondition.ofPhase phase = .ok c ↔ phase ≠ 0 ∧ c.phase = phase) ∧
    (∀ phases : List ℚ,
      ((∃ b, ofPhases phases = .ok b) ↔
        ∀ p ∈ phases, ∃ c, BoundaryCondition.ofPhase p = .ok c) ∧
      ∀ b, ofPhases phases = .ok b ↔
        phases.mapM BoundaryCondition.ofPhase = .ok b.conditions) ∧
    ∀ (b : BoundaryConditions) (l : Lattice),
      ((∃ h, TJKHamiltonian.build b l = .ok h) ↔ l.dimension = 2 ∧ b.dimension = 2) ∧
      ∀ h, TJKHamiltonian.build b l = .ok h → ∃ lengthX lengthY partsX partsY,
        l.lengths = [lengthX, lengthY] ∧ b.parts = [partsX, partsY] ∧
        (h.divX = twistedDivisor lengthX partsX ∧ (h.divX = 2 ↔ lengthX = 2)) ∧
        h.divY = twistedDivisor lengthY partsY ∧ (h.divY = 2 ↔ lengthY = 2) := by
  refine ⟨fun _ => exists_obtainable_iff, fun b n => ⟨b.validate_eq n, validate_eq_ok⟩,
    fun _ _ => BoundaryCondition.ofPhase_eq_ok, fun phases => ⟨exists_ofPhases_iff, fun b => ?_⟩,
    fun b l => ⟨TJKHamiltonian.exists_build_iff, fun h => TJKHamiltonian.divisors_of_build⟩⟩
  rw [ofPhases_eq_ok, mapM_ofPhase_eq_ok]

/-- Phases at the ends of the words can be obtained. A phase of zero among others cannot, and
neither can one that is stored as two over four: a given fraction is reduced before it becomes a
phase. -/
theorem BoundaryConditions.no_zero_phase_extreme :
    (∃ b : BoundaryConditions, b.Obtainable ∧ b.parts = [(-2 ^ 63, 3), (1, 2 ^ 63 - 1)]) ∧
    (¬ ∃ b : BoundaryConditions, b.Obtainable ∧ b.parts = [(1, 1), (0, 1)]) ∧
    ¬ ∃ b : BoundaryConditions, b.Obtainable ∧ b.parts = [(2, 4)] := by
  obtain ⟨obtained, -⟩ := no_zero_phase
  refine ⟨(obtained _).mpr ?ends, fun h => ?zero, fun h => ?unreduced⟩
  case ends =>
    rw [List.forall_mem_cons, List.forall_mem_singleton]
    exact ⟨⟨by decide, by decide, by decide, by decide⟩,
      ⟨by decide, by decide, by decide, by decide⟩⟩
  case zero =>
    have hzero := (obtained _).mp h (0, 1) (by decide)
    exact hzero.ne_zero rfl
  case unreduced =>
    have hunreduced := (obtained _).mp h (2, 4) (by decide)
    exact absurd hunreduced.lowest (by decide)

end LatticeObservables
