import LatticeObservables.Proofs.Measurement.Acceptance

/-!
# Hamiltonians on Walks of Another Lattice

The divisors of a Hamiltonian are fixed when it is built, by the lengths of the lattice that it is
built for. The walk that it is measured on has a lattice of its own, and nothing compares the two:
a plan is accepted for its terms, and those are the same for all lattices of two dimensions
(`TJKHamiltonian.build_eq_map_build`).

## Main statements

* `MeasurementPlan.build_hamiltonian_divisors`: when the divisors of an accepted Hamiltonian are
  those of the lattice of its walk.
* `MeasurementPlan.build_accepts_other_divisors`: a Hamiltonian of two by three cells is accepted on
  four by four cells, where it has the wrong divisor.
-/

namespace LatticeObservables

namespace TJKHamiltonian

variable {b : BoundaryConditions} {l l' : Lattice} {h : TJKHamiltonian}
  {lengthX lengthY lengthX' lengthY' : Nat}

/-- Two lengths have the same divisor if both of them **are two**, or neither is. -/
theorem divisor_eq_divisor_iff {m n : Nat} : divisor m = divisor n ↔ (m = 2 ↔ n = 2) := by
  rw [divisor, divisor]
  split <;> split <;> simp_all

/-- Lattices of two dimensions have the same Hamiltonian **but for the divisors**. -/
theorem build_eq_map_build (hl : l.lengths = [lengthX, lengthY])
    (hl' : l'.lengths = [lengthX', lengthY']) :
    build b l' =
      (fun h => { h with divX := divisor lengthX', divY := divisor lengthY' }) <$> build b l := by
  simp only [build, hl, hl', map_bind, map_pure]

/-- A Hamiltonian is built for a lattice of two dimensions, with the divisors of its lengths. -/
theorem lengths_of_build (hbuild : build b l = .ok h) :
    ∃ lengthX lengthY, l.lengths = [lengthX, lengthY] ∧ b.dimension = 2 ∧
      h.divX = divisor lengthX ∧ h.divY = divisor lengthY := by
  obtain ⟨lengthX, lengthY, hlengths⟩ := exists_lengths_of_build hbuild
  obtain ⟨hdim, -, -, -, -, -, hdivX, hdivY⟩ := (build_eq_ok_iff hlengths).mp hbuild
  exact ⟨lengthX, lengthY, hlengths, hdim, hdivX, hdivY⟩

end TJKHamiltonian

namespace MeasurementPlan

variable {W : Type} [WalkPlan W] {walk : W} {b : BoundaryConditions} {l : Lattice}
  {h : TJKHamiltonian}

/-- A Hamiltonian is accepted on walks of two dimensions only. -/
theorem dimension_of_build_hamiltonian (hbuild : TJKHamiltonian.build b l = .ok h)
    {plan : MeasurementPlan W} (hplan : build walk (.hamiltonian h) = .ok plan) :
    (WalkPlan.wavefunction walk).lattice.dimension = 2 := by
  obtain ⟨-, -, -, hb, -⟩ := TJKHamiltonian.lengths_of_build hbuild
  have hterms := TJKHamiltonian.forall₂_of_build hbuild
  have hvalid := (BasicOperator.forall_isValidFor_iff hterms (List.cons_ne_nil _ _)).mp
    (build_eq_ok_iff.mp hplan).1
  rw [← hvalid.1 b rfl, hb]

/-- A Hamiltonian is accepted on every walk with **a plaquette and two species**, whatever lattice
it was built for. -/
theorem build_hamiltonian_eq_ok (hbuild : TJKHamiltonian.build b l = .ok h)
    (hbasis : 0 < (WalkPlan.wavefunction walk).lattice.basisIndices)
    (hplaquette : (WalkPlan.wavefunction walk).lattice.HasPlaquette)
    (hspecies : 2 ≤ (WalkPlan.wavefunction walk).species) :
    build walk (.hamiltonian h) = .ok ⟨walk, .hamiltonian h⟩ := by
  obtain ⟨-, -, -, hb, -⟩ := TJKHamiltonian.lengths_of_build hbuild
  have hdimension : (WalkPlan.wavefunction walk).lattice.dimension = 2 := by
    obtain ⟨ownX, ownY, hown, -, -⟩ := hplaquette
    rw [Lattice.dimension, hown]
    rfl
  have hterms := TJKHamiltonian.forall₂_of_build hbuild
  refine build_eq_ok_iff.mpr ⟨?_, rfl⟩
  refine (BasicOperator.forall_isValidFor_iff hterms (List.cons_ne_nil _ _)).mpr ⟨?_, ?_⟩
  · rintro c ⟨⟩
    rw [hb, hdimension]
  · exact (TJKHamiltonian.admits_expansion_iff hbasis).mpr ⟨hplaquette, hspecies⟩

/-- **The divisors of an accepted Hamiltonian are those of the lattice that it was built for.** The
lattice of its walk has a Hamiltonian with the same boundary conditions too, with the same terms,
and it is accepted as well. Along each dimension the divisors of both are equal exactly if both
lattices have length two there, or neither has. -/
theorem build_hamiltonian_divisors (hbuild : TJKHamiltonian.build b l = .ok h)
    {plan : MeasurementPlan W} (hplan : build walk (.hamiltonian h) = .ok plan) :
    plan.observable = .hamiltonian h ∧
    ∃ own lengthX lengthY ownX ownY,
      l.lengths = [lengthX, lengthY] ∧
      (WalkPlan.wavefunction walk).lattice.lengths = [ownX, ownY] ∧
      TJKHamiltonian.build b (WalkPlan.wavefunction walk).lattice = .ok own ∧
      own = { h with divX := own.divX, divY := own.divY } ∧
      build walk (.hamiltonian own) = .ok ⟨walk, .hamiltonian own⟩ ∧
      (h.divX = own.divX ↔ (lengthX = 2 ↔ ownX = 2)) ∧
      (h.divY = own.divY ↔ (lengthY = 2 ↔ ownY = 2)) := by
  obtain ⟨lengthX, lengthY, hl, -, hdivX, hdivY⟩ := TJKHamiltonian.lengths_of_build hbuild
  obtain ⟨ownX, ownY, hown⟩ :=
    List.length_eq_two.mp (dimension_of_build_hamiltonian hbuild hplan)
  obtain ⟨hvalid, rfl⟩ := build_eq_ok_iff.mp hplan
  have hownBuild := TJKHamiltonian.build_eq_map_build (b := b) hl hown
  rw [hbuild] at hownBuild
  refine ⟨rfl, _, lengthX, lengthY, ownX, ownY, hl, hown, hownBuild, rfl,
    build_eq_ok_iff.mpr ⟨hvalid, rfl⟩, ?_, ?_⟩
  · rw [hdivX, TJKHamiltonian.divisor_eq_divisor_iff]
  · rw [hdivY, TJKHamiltonian.divisor_eq_divisor_iff]

/-- The Hamiltonian of two by three cells is accepted on two by five cells, and it is the one of
that lattice. -/
theorem build_hamiltonian_divisors_ladder :
    ∃ h plan, TJKHamiltonian.build (.periodic 2) ⟨[2, 3], 1⟩ = .ok h ∧
      build (⟨⟨[2, 5], 1⟩, 2⟩ : Wavefunction) (.hamiltonian h) = .ok plan ∧
      TJKHamiltonian.build (.periodic 2) ⟨[2, 5], 1⟩ = .ok h := by
  obtain ⟨h, hbuild, -, -⟩ :
      ∃ h, TJKHamiltonian.build (.periodic 2) ⟨[2, 3], 1⟩ = .ok h ∧
        h.divX = TJKHamiltonian.divisor 2 ∧ h.divY = TJKHamiltonian.divisor 3 :=
    TJKHamiltonian.exists_build rfl rfl
  have hplan : build (⟨⟨[2, 5], 1⟩, 2⟩ : Wavefunction) (.hamiltonian h) = .ok ⟨_, _⟩ :=
    build_hamiltonian_eq_ok hbuild (by decide) ⟨2, 5, rfl, by decide, by decide⟩ (by decide)
  obtain ⟨-, own, _, _, _, _, ⟨⟩, ⟨⟩, hown, hsame, -, hdivX, hdivY⟩ :=
    build_hamiltonian_divisors hbuild hplan
  rw [← hdivX.mpr (by decide), ← hdivY.mpr (by decide)] at hsame
  obtain rfl : own = h := hsame
  exact ⟨own, _, hbuild, hplan, hown⟩

/-- The Hamiltonian of two by three cells is accepted on four by four cells, where it halves what
is counted once. -/
theorem build_accepts_other_divisors :
    ∃ h own plan, TJKHamiltonian.build (.periodic 2) ⟨[2, 3], 1⟩ = .ok h ∧
      TJKHamiltonian.build (.periodic 2) ⟨[4, 4], 1⟩ = .ok own ∧
      build (⟨⟨[4, 4], 1⟩, 2⟩ : Wavefunction) (.hamiltonian h) = .ok plan ∧
      h.divX = 2 ∧ own.divX = 1 := by
  obtain ⟨h, hbuild, hdivX, -⟩ :
      ∃ h, TJKHamiltonian.build (.periodic 2) ⟨[2, 3], 1⟩ = .ok h ∧
        h.divX = TJKHamiltonian.divisor 2 ∧ h.divY = TJKHamiltonian.divisor 3 :=
    TJKHamiltonian.exists_build rfl rfl
  obtain ⟨own, hown, hownX, -⟩ :
      ∃ h, TJKHamiltonian.build (.periodic 2) ⟨[4, 4], 1⟩ = .ok h ∧
        h.divX = TJKHamiltonian.divisor 4 ∧ h.divY = TJKHamiltonian.divisor 4 :=
    TJKHamiltonian.exists_build rfl rfl
  have hplan : build (⟨⟨[4, 4], 1⟩, 2⟩ : Wavefunction) (.hamiltonian h) = .ok ⟨_, _⟩ :=
    build_hamiltonian_eq_ok hbuild (by decide) ⟨4, 4, rfl, by decide, by decide⟩ (by decide)
  exact ⟨h, own, _, hbuild, hown, hplan, hdivX, hownX⟩

end MeasurementPlan

end LatticeObservables
