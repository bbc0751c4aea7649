import LatticeObservables.Proofs.Boundary.Twist

/-!
# Phases Too Fine for Words

The phase of a site has to fit words of 64 bits in the end, and is refused if it does not. The sums
on the way to it are made in words of 128 bits, and there is no such check on them: a sum that does
not fit stops the computation (`addPhase_eq_error`). In one or two dimensions every sum fits, and so
it does in any number of dimensions while the phases have a common denominator below `2 ^ 126`.
From three dimensions on they need not have one.

## Main statements

* `totalPhase_eq_error`: the running sum stops if one of its sums does not fit.
* `Lattice.enforceWithPhase_exact_unless_overflow`: the outcome for every site, the overflow
  included.
* `Lattice.enforceWithPhase_overflows`: a site in three dimensions whose phase overflows.
-/

namespace LatticeObservables

open Int (fract)

/-- Two phases whose sum does not fit are **not added**. -/
theorem combine_add_eq_error {a b : ℚ} (ha0 : 0 ≤ a) (ha1 : a < 1) (hb0 : 0 ≤ b) (hb1 : b < 1)
    (hden : a.den < 2 ^ 127) (h : ¬ SumFits a b) :
    Fraction.combine 128 (· + ·) a b = .error .overflow := by
  have hlcm : 0 < a.den.lcm b.den := Nat.lcm_pos a.den_pos b.den_pos
  obtain ⟨left0, left1⟩ := Fraction.scaled_mem (m := 1) (Nat.dvd_lcm_left a.den b.den) hlcm ha0
    (by exact_mod_cast ha1)
  obtain ⟨right0, right1⟩ := Fraction.scaled_mem (m := 1) (Nat.dvd_lcm_right a.den b.den) hlcm hb0
    (by exact_mod_cast hb1)
  refine Fraction.combine_eq_error (fits_128.mpr (by omega)) ?scaled ?sum
  case scaled =>
    rw [fits_128, fits_128, fits_128]
    omega
  case sum =>
    rintro ⟨hcommon, hnumerator⟩
    refine h ⟨by exact_mod_cast (fits_128.mp hcommon).2, ?_⟩
    rw [← cast_scaled_add]
    exact_mod_cast (fits_128.mp hnumerator).2

/-- The sum of two phases **overflows** if it does not fit. -/
theorem addPhase_eq_error {a b : ℚ} (ha0 : 0 ≤ a) (ha1 : a < 1) (hb0 : 0 ≤ b) (hb1 : b < 1)
    (hden : a.den < 2 ^ 127) (h : ¬ SumFits a b) : addPhase a b = .error .overflow :=
  bind_eq_error.mpr (.inl (combine_add_eq_error ha0 ha1 hb0 hb1 hden h))

/-- **The running sum overflows** if one of the sums on the way does not fit. What it holds is a
phase with a denominator that fits all the time. -/
theorem totalPhase_eq_error {start : ℚ} (h0 : 0 ≤ start) (h1 : start < 1)
    (hden : start.den < 2 ^ 127) {windings : List Int} {conditions : List BoundaryCondition}
    (hc : ∀ c ∈ conditions, c.phase.den < 2 ^ 63) (h : ¬ SumsFit start windings conditions) :
    totalPhase start windings conditions = .error .overflow := by
  induction windings generalizing start conditions with
  | nil => exact absurd trivial h
  | cons n ns ih =>
      cases conditions with
      | nil => exact absurd trivial h
      | cons p ps =>
          obtain ⟨hword, hps⟩ := List.forall_mem_cons.mp hc
          have hnonneg := Int.fract_nonneg ((n : ℚ) * p.phase)
          have hlt := Int.fract_lt_one ((n : ℚ) * p.phase)
          rw [totalPhase, windingPhase_eq_ok n hword]
          by_cases hfirst : SumFits start (fract (n * p.phase))
          · have hrest : ¬ SumsFit (fract (start + n * p.phase)) ns ps := fun hrest =>
              h ⟨hfirst, hrest⟩
            have hsum : (fract (start + n * p.phase)).den < 2 ^ 127 := by
              rw [← fract_add_fract, Rat.den_intFract]
              exact (hfirst.num_den (add_nonneg h0 hnonneg)).2
            have step : addPhase start (fract (n * p.phase)) =
                .ok (fract (start + n * p.phase)) := by
              rw [addPhase_eq_ok h0 h1 hnonneg hlt hfirst, fract_add_fract]
            exact bind_eq_error.mpr (.inr ⟨_, rfl, bind_eq_error.mpr (.inr ⟨_, step,
              ih (Int.fract_nonneg _) (Int.fract_lt_one _) hsum hps hrest⟩)⟩)
          · exact bind_eq_error.mpr (.inr ⟨_, rfl, bind_eq_error.mpr
              (.inl (addPhase_eq_error h0 h1 hnonneg hlt hden hfirst))⟩)

namespace Lattice

/-- **The phase of a site is exact or refused unless a sum overflows.** A site of the lattice's
dimension with a basis index that exists has its image and the fractional part of the exact twist,
or is refused if that does not fit words of 64 bits, as long as all sums on the way fit words of 128
bits. If one of them does not, the computation stops with an overflow. All of them fit if the common
denominator of the boundary phases is below `2 ^ 126`, and in up to two dimensions. -/
theorem enforceWithPhase_exact_unless_overflow {l : Lattice} {b : BoundaryConditions} {s : Site}
    (hl : ∀ length ∈ l.lengths, 0 < length ∧ length < 2 ^ 63)
    (hb : ∀ c ∈ b.conditions, c.phase.den < 2 ^ 63) (hs : ∀ x ∈ s.coordinates, Fits 64 x)
    (hbdim : b.dimension = l.dimension) (hdim : s.dimension = l.dimension)
    (hbasis : s.basisIndex < l.basisIndices) :
    (SumsFit 0 (l.windings s) b.conditions →
      l.enforceWithPhase b s =
        if (fract (b.twist (l.windings s))).den < 2 ^ 63 then
          .ok (l.image s, fract (b.twist (l.windings s)))
        else .error (.invalidBoundaryConditions b.text l.dimension)) ∧
    (¬ SumsFit 0 (l.windings s) b.conditions →
      l.enforceWithPhase b s = .error (.arithmetic .overflow)) ∧
    (b.commonDenominator < 2 ^ 126 ∨ l.dimension ≤ 2 →
      SumsFit 0 (l.windings s) b.conditions) := by
  refine ⟨enforceWithPhase_of_sumsFit hl hs hb hbdim hdim hbasis, ?overflow, ?fits⟩
  case overflow =>
    intro hfit
    have hone : (0 : ℚ).den < 2 ^ 127 := by decide
    have total := totalPhase_eq_error le_rfl one_pos hone hb hfit
    rw [enforceWithPhase, BoundaryConditions.validate, if_pos hbdim, wrap_eq hl hs hdim,
      if_pos hbasis]
    simp only [total, Except.mapError, bind, Except.bind]
  case fits =>
    rintro (hcommon | htwo)
    · exact sumsFit_zero_of_common hcommon _
    · exact sumsFit_zero_of_common
        (BoundaryConditions.commonDenominator_lt (hbdim.trans_le htwo) hb) _

/-- Three phases with coprime denominators, which multiply to `2 ^ 128 - 1`. -/
def coprimePhases : BoundaryConditions :=
  ⟨[⟨1 / 1177581248041215, by norm_num⟩, ⟨1 / 4294967297, by norm_num⟩,
    ⟨1 / 67280421310721, by norm_num⟩]⟩

/-- While only one dimension is wound around, the phase is exact, although the three phases have no
common denominator that fits words of 128 bits. -/
theorem enforceWithPhase_exact_unless_overflow_oneWinding :
    coprimePhases.commonDenominator = 2 ^ 128 - 1 ∧
      enforceWithPhase ⟨[1, 1, 1], 1⟩ coprimePhases (Site.ofCell [0, 0, -1]) =
        .ok (Site.ofCell [0, 0, 0], 67280421310720 / 67280421310721) := by
  have exact := (enforceWithPhase_exact_unless_overflow (l := ⟨[1, 1, 1], 1⟩) (b := coprimePhases)
    (s := Site.ofCell [0, 0, -1]) (by decide) (by decide +kernel) (by decide) rfl rfl
    (by decide)).1 (by decide +kernel)
  have phase : fract (coprimePhases.twist (windings ⟨[1, 1, 1], 1⟩ (Site.ofCell [0, 0, -1]))) =
      67280421310720 / 67280421310721 := by
    decide +kernel
  rw [phase, if_pos (by decide +kernel)] at exact
  exact ⟨by decide +kernel, exact⟩

/-- Winding around each of three dimensions once brings a phase that is not refused: the last sum
**overflows** before there is a phase to refuse. -/
theorem enforceWithPhase_overflows :
    (∀ c ∈ coprimePhases.conditions, c.phase.den < 2 ^ 63) ∧
    enforceWithPhase ⟨[1, 1, 1], 1⟩ coprimePhases (Site.ofCell [1, 1, 1]) =
      .error (.arithmetic .overflow) := by
  decide +kernel

end Lattice

end LatticeObservables
