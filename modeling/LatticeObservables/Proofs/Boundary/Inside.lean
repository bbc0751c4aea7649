import LatticeObservables.Proofs.Boundary.Twist
import LatticeObservables.Proofs.Lattice.Numbering

/-!
# Sites Inside a Lattice

A site of a lattice is its own image. Nothing winds around the torus, so no phase is picked up,
whatever the boundary conditions are (`Lattice.enforceWithPhase_of_contains`). A length of
`2 ^ 63` is read as a negative number, but remainders of coordinates below it are still what they
were; with any longer one they need not be.
-/

namespace LatticeObservables

/-- A coordinate within a length is its own remainder. -/
theorem euclideanDivision_inside {x : Int} {length : Nat} (hx : 0 ≤ x ∧ x < length)
    (hlength : length ≤ 2 ^ 63) : euclideanDivision x (signedReading length) = .ok (0, x) := by
  obtain ⟨hnonneg, hlt⟩ := hx
  have hzero : Fits 64 0 := by decide
  rcases Nat.lt_or_eq_of_le hlength with hless | hlongest
  · have hfits : Fits 64 x := by
      rw [fits_64]
      omega
    rw [signedReading_of_lt hless, euclideanDivision_of_pos hfits (by omega),
      Int.ediv_eq_zero_of_lt hnonneg hlt, Int.emod_eq_of_lt hnonneg hlt]
  · have hread : signedReading length = -(2 ^ 63) := by
      rw [hlongest]
      decide
    have hlt : x < 2 ^ 63 := by omega
    have hquotient : x / -(2 ^ 63) = 0 := by
      rw [Int.ediv_neg, Int.ediv_eq_zero_of_lt hnonneg hlt, Int.neg_zero]
    have hremainder : x % -(2 ^ 63) = x := by
      rw [Int.emod_neg, Int.emod_eq_of_lt hnonneg hlt]
    rw [hread, euclideanDivision, if_neg (by decide), hquotient, hremainder,
      bounded_of_fits hzero]
    rfl

namespace Lattice

/-- Coordinates inside a block do not wind. -/
theorem windingNumbers_inside {xs : List Int} {lengths : List Nat}
    (hlengths : ∀ length ∈ lengths, length ≤ 2 ^ 63) (hblock : inBlock xs lengths)
    (hdim : xs.length = lengths.length) :
    windingNumbers xs lengths = .ok (xs.map fun x => (x, 0)) := by
  induction xs generalizing lengths with
  | nil => rfl
  | cons x xs ih =>
      obtain ⟨length, rest, rfl⟩ := List.exists_cons_of_length_eq_add_one hdim.symm
      obtain ⟨hlength, hrest⟩ := List.forall_mem_cons.mp hlengths
      simp only [inBlock, Bool.and_eq_true, decide_eq_true_eq] at hblock
      obtain ⟨hx, hblock⟩ := hblock
      rw [windingNumbers, euclideanDivision_inside hx hlength]
      exact bind_eq_ok.mpr ⟨_, rfl, bind_eq_ok.mpr ⟨_, ih hrest hblock (Nat.succ.inj hdim), rfl⟩⟩

variable {l : Lattice} {s : Site}

/-- A site of the lattice is **its own image**, and nothing winds. -/
theorem wrap_of_contains (hl : ∀ length ∈ l.lengths, length ≤ 2 ^ 63) (hs : l.contains s) :
    l.wrap s = .ok (s, s.coordinates.map fun _ => 0) := by
  obtain ⟨hdim, hblock, hbasis⟩ := contains_iff.mp hs
  have himages : (s.coordinates.map fun x => (x, (0 : Int))).map Prod.fst = s.coordinates := by
    simp [Function.comp_def]
  have hwindings : (s.coordinates.map fun x => (x, (0 : Int))).map Prod.snd =
      s.coordinates.map fun _ => 0 := by
    rw [List.map_map]
    rfl
  have outcome := wrap_of_windingNumbers hdim (windingNumbers_inside hl hblock hdim)
    (by rw [List.length_map]; exact hdim) (by rw [himages]; exact hblock)
  rw [himages, hwindings, if_pos hbasis] at outcome
  exact outcome

/-- The periodic image of a site of the lattice is **that site**. -/
theorem enforce_of_contains (hl : ∀ length ∈ l.lengths, length ≤ 2 ^ 63) (hs : l.contains s) :
    l.enforce s = .ok s := by
  rw [enforce, wrap_of_contains hl hs]
  rfl

/-- Without windings there is no phase. -/
theorem totalPhase_of_no_windings (xs : List Int) (conditions : List BoundaryCondition) :
    totalPhase 0 (xs.map fun _ => 0) conditions = .ok 0 := by
  have hadd : addPhase 0 0 = .ok 0 := by decide
  induction xs generalizing conditions with
  | nil => rfl
  | cons x xs ih =>
      cases conditions with
      | nil => rfl
      | cons c rest =>
          have hwinding : windingPhase 0 c = .ok 0 := by
            have hproduct : (0 : Int) % c.phase.den * (c.phase.num % c.phase.den) = 0 := by simp
            rw [windingPhase, hproduct, bounded_of_fits (by decide)]
            simp [bind, Except.bind, pure, Except.pure]
          rw [List.map_cons, totalPhase, hwinding]
          exact bind_eq_ok.mpr ⟨0, hadd, ih rest⟩

/-- A site of the lattice is its own image **without a phase**, under any boundary conditions. -/
theorem enforceWithPhase_of_contains (hl : ∀ length ∈ l.lengths, length ≤ 2 ^ 63)
    (hs : l.contains s) {b : BoundaryConditions} (hb : b.dimension = l.dimension) :
    l.enforceWithPhase b s = .ok (s, 0) := by
  rw [enforceWithPhase, BoundaryConditions.validate, if_pos hb, wrap_of_contains hl hs]
  simp only [bind, Except.bind, totalPhase_of_no_windings, Except.mapError]
  rfl

end Lattice

end LatticeObservables
