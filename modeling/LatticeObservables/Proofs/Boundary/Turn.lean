import LatticeObservables.Boundary.Turn
import LatticeObservables.Proofs.Arithmetic.Bounded

/-!
# Phases up to Whole Turns

The factor of a phase is that of its fractional part. Words of 64 bits are wide enough to compute it
unless the phase is negative and its numerator less its denominator does not fit
(`Fraction.fractionalPart_eq_ok`, `Fraction.fractionalPart_eq_error`). The fractional part is exact,
so phases that differ by whole turns have the same factor to the last bit, and every quarter of a
turn is recognised, however far the phase is from zero (`phaseFactor_upToTurns`).
-/

namespace LatticeObservables

open Int (fract)

namespace Fraction

/-! ### Whole and fractional parts -/

/-- The numerator of a fractional part over the denominator that it keeps. -/
theorem num_fract (a : ℚ) : (fract a).num = a.num % a.den := by
  have hfract : fract a = ((a.num % a.den : Int) : ℚ) / a.den := by
    conv_lhs => rw [← Rat.num_div_den a]
    exact Int.fract_div_intCast_eq_div_intCast_mod
  have hscaled : ((fract a).num : ℚ) = ((a.num % a.den : Int) : ℚ) := by
    rw [← Rat.mul_den_eq_num, Rat.den_intFract, hfract]
    exact div_mul_cancel₀ _ (by exact_mod_cast a.den_nz)
  exact_mod_cast hscaled

/-- The whole part over the denominator of the fraction. -/
theorem floor_mul_den (a : ℚ) : ⌊a⌋ * a.den = a.num - a.num % a.den := by
  rw [Rat.floor_def', mul_comm]
  exact eq_sub_of_add_eq (Int.mul_ediv_add_emod a.num a.den)

/-- The quotient that rounds **down below zero**: of the numerator lowered by one less than the
denominator, cut off towards zero. -/
theorem tdiv_lowered {n d : Int} (hn : n < 0) (hd : 0 < d) : (n - d + 1).tdiv d = n / d := by
  have hsplit := Int.mul_ediv_add_emod n d
  have hrest := Int.emod_nonneg n hd.ne'
  have hlt := Int.emod_lt_of_pos n hd
  have hraised : (d - 1 - n) / d = -(n / d) := by
    rw [Int.ediv_eq_iff_of_pos hd, neg_mul, mul_comm]
    omega
  have hneg : n - d + 1 = -(d - 1 - n) := by omega
  rw [hneg, Int.neg_tdiv, Int.tdiv_eq_ediv_of_nonneg (by omega), hraised, neg_neg]

/-- A fraction whose **floor fits** words of `bits` bits: both of its parts do, and below zero also
the numerator less the denominator. -/
def FloorFits (bits : Nat) (a : ℚ) : Prop :=
  Fits bits a.num ∧ Fits bits a.den ∧ (a.num < 0 → Fits bits (a.num - a.den))

instance (bits : Nat) (a : ℚ) : Decidable (FloorFits bits a) :=
  inferInstanceAs (Decidable (_ ∧ _ ∧ _))

section Words

variable {bits : Nat} {a : ℚ}

/-- The whole part is **the floor**. -/
theorem wholePart_eq_ok (h : FloorFits bits a) : wholePart bits a = .ok ⌊a⌋ := by
  have hden : (0 : Int) < a.den := by exact_mod_cast a.den_pos
  rw [wholePart, Rat.floor_def']
  split
  next hneg =>
    have hnum : a.num < 0 := Rat.num_neg.mpr hneg
    obtain ⟨hlow, hhigh⟩ := h.2.2 hnum
    have hraised : Fits bits (a.num - a.den + 1) := ⟨by omega, by omega⟩
    refine bind_eq_ok.mpr ⟨_, bounded_of_fits ⟨hlow, hhigh⟩, bind_eq_ok.mpr
      ⟨_, bounded_of_fits hraised, ?_⟩⟩
    exact congrArg Except.ok (tdiv_lowered hnum hden)
  next hneg =>
    have hnum : 0 ≤ a.num := Rat.num_nonneg.mpr (not_lt.mp hneg)
    exact congrArg Except.ok (Int.tdiv_eq_ediv_of_nonneg hnum)

/-- What is left above the floor is **the fractional part**, and no word overflows. -/
theorem fractionalPart_eq_ok (h : FloorFits bits a) : fractionalPart bits a = .ok (fract a) := by
  obtain ⟨hnum, hden, hlowered⟩ := h
  have hpos : (0 : Int) < a.den := by exact_mod_cast a.den_pos
  have hself : (a.den : Int) / a.den = 1 := Int.ediv_self hpos.ne'
  have hrest := Int.emod_nonneg a.num hpos.ne'
  have hlt := Int.emod_lt_of_pos a.num hpos
  have hscaled : Fits bits (a.num - a.num % a.den) := by
    obtain ⟨hlow, hhigh⟩ := hnum
    by_cases hneg : a.num < 0
    · obtain ⟨hlow', -⟩ := hlowered hneg
      exact ⟨by omega, by omega⟩
    · have hquotient := Int.mul_nonneg hpos.le (Int.ediv_nonneg (not_lt.mp hneg) hpos.le)
      have hsplit := Int.mul_ediv_add_emod a.num a.den
      exact ⟨by omega, by omega⟩
  refine bind_eq_ok.mpr ⟨_, wholePart_eq_ok ⟨hnum, hden, hlowered⟩, ?_⟩
  refine combine_eq_ok ?_ ?_ ?_ ?_ ?_
  all_goals simp only [Rat.den_intCast, Rat.num_intCast, Nat.lcm_one_right, hself, Nat.cast_one,
    Int.ediv_one, mul_one, floor_mul_den, sub_sub_cancel]
  · exact hden
  · exact hnum
  · exact hscaled
  · obtain ⟨_, hhigh⟩ := hden
    exact ⟨by omega, by omega⟩
  · rw [← num_fract, ← Rat.mul_den_eq_num, Rat.den_intFract]

/-- A negative fraction whose floor does not fit **overflows** on the way to it. -/
theorem fractionalPart_eq_error (hneg : a.num < 0) (h : ¬ Fits bits (a.num - a.den)) :
    fractionalPart bits a = .error .overflow := by
  rw [fractionalPart, wholePart, if_pos (Rat.num_neg.mp hneg), bounded_of_not_fits h]
  rfl

end Words

end Fraction

/-! ### Turns -/

namespace Turn

open Fraction (FloorFits)

/-- The turn of a phase whose floor fits is that of its fractional part. -/
theorem ofPhase_eq_ok {p : ℚ} (h : FloorFits 64 p) : ofPhase p = .ok (ofFraction (fract p)) :=
  bind_eq_ok.mpr ⟨_, Fraction.fractionalPart_eq_ok h, rfl⟩

/-- The fractional part of a number of **quarters**. -/
theorem fract_of_quarters {p : ℚ} {m : Int} (h : 4 * p = m) :
    fract p = ((m % 4 : Int) : ℚ) / 4 := by
  have hp : p = (m : ℚ) / (4 : Nat) := by
    rw [← h]
    push_cast
    ring
  rw [hp, Int.fract_div_intCast_eq_div_intCast_mod]
  rfl

/-- A number of quarters is **recognised** as what is left of it without whole turns. -/
theorem ofFraction_of_quarters {p : ℚ} {m : Int} (h : 4 * p = m) :
    (m % 4 = 0 → ofFraction (fract p) = zero) ∧ (m % 4 = 1 → ofFraction (fract p) = quarter) ∧
      (m % 4 = 2 → ofFraction (fract p) = half) ∧
      (m % 4 = 3 → ofFraction (fract p) = threeQuarters) := by
  rw [fract_of_quarters h]
  refine ⟨?_, ?_, ?_, ?_⟩ <;> intro hm <;> rw [hm] <;> decide +kernel

/-- Nothing but a number of quarters is taken for one. -/
theorem ofFraction_of_not_quarters {p : ℚ} (h : ∀ m : Int, 4 * p ≠ m) :
    ofFraction (fract p) = part (fract p) := by
  have hfract (j : Int) : fract p ≠ mkRat j 4 := by
    intro heq
    have hp := Int.floor_add_fract p
    rw [heq, Rat.mkRat_eq_div] at hp
    refine h (4 * ⌊p⌋ + j) ?_
    push_cast at hp ⊢
    linarith
  have hzero : (0 : ℚ) = mkRat 0 4 := by decide +kernel
  have hhalf : mkRat 1 2 = mkRat 2 4 := by decide +kernel
  rw [ofFraction, hzero, hhalf, if_neg (hfract 0), if_neg (hfract 2), if_neg (hfract 1),
    if_neg (hfract 3)]

end Turn

/-- **Phase factors depend on the phase up to whole turns, and are exact for quarters.** For a phase
whose floor fits words of 64 bits no word overflows on the way to its fractional part, which is
exact and lies between zero, which it may be, and one. Phases that differ by whole turns have the
same factor. A phase of `m` quarters has the factor `1`, `i`, `-1` or `-i`, according to what is
left of `m` modulo four. The factor of every other phase is made of the cosine and the sine of its
fractional part, from the doubles nearest to its numerator and its denominator, which have no common
divisor. -/
theorem phaseFactor_upToTurns {p : ℚ} (hp : Fraction.FloorFits 64 p) :
    Fraction.fractionalPart 64 p = .ok (fract p) ∧ 0 ≤ fract p ∧ fract p < 1 ∧
    (∀ k : Int, Fraction.FloorFits 64 (p + k) → phaseFactor (p + k) = phaseFactor p) ∧
    (∀ m : Int, 4 * p = m →
      (m % 4 = 0 → phaseFactor p = .ok ⟨1.0, 0.0⟩) ∧
      (m % 4 = 1 → phaseFactor p = .ok ⟨0.0, 1.0⟩) ∧
      (m % 4 = 2 → phaseFactor p = .ok ⟨-1.0, 0.0⟩) ∧
      (m % 4 = 3 → phaseFactor p = .ok ⟨0.0, -1.0⟩)) ∧
    ((∀ m : Int, 4 * p ≠ m) →
      fract p = mkRat (p.num % p.den) p.den ∧ Int.gcd (p.num % p.den) p.den = 1 ∧
      ∃ turns, turns = (Int64.ofInt (p.num % p.den)).toFloat / (Int64.ofInt p.den).toFloat ∧
        phaseFactor p = .ok
          ⟨(2.0 * Turn.circleRatio * turns).cos, (2.0 * Turn.circleRatio * turns).sin⟩) := by
  have hfactor {q : ℚ} (hq : Fraction.FloorFits 64 q) :
      phaseFactor q = .ok (Turn.ofFraction (fract q)).factor :=
    bind_eq_ok.mpr ⟨_, Turn.ofPhase_eq_ok hq, rfl⟩
  refine ⟨Fraction.fractionalPart_eq_ok hp, Int.fract_nonneg p, Int.fract_lt_one p, ?turns,
    ?quarters, ?others⟩
  case turns =>
    intro k hk
    rw [hfactor hk, hfactor hp, Int.fract_add_intCast]
  case quarters =>
    intro m hm
    obtain ⟨hzero, hquarter, hhalf, hthree⟩ := Turn.ofFraction_of_quarters hm
    rw [hfactor hp]
    exact ⟨fun h => by rw [hzero h]; rfl, fun h => by rw [hquarter h]; rfl,
      fun h => by rw [hhalf h]; rfl, fun h => by rw [hthree h]; rfl⟩
  case others =>
    intro hm
    rw [hfactor hp, Turn.ofFraction_of_not_quarters hm, ← Fraction.num_fract, ← Rat.den_intFract p]
    exact ⟨(Rat.mkRat_self _).symm, (fract p).reduced, _, rfl, rfl⟩

/-- The lowest and the highest phase with the factor `i` whose floors fit words of 64 bits, nearly
`2 ^ 62` whole turns apart. -/
theorem phaseFactor_upToTurns_farQuarters :
    Fraction.FloorFits 64 (-9223372036854775803 / 4) ∧
    Fraction.FloorFits 64 (-9223372036854775803 / 4 + (4611686018427387902 : Int)) ∧
    phaseFactor (-9223372036854775803 / 4) = .ok ⟨0.0, 1.0⟩ ∧
    phaseFactor (-9223372036854775803 / 4 + (4611686018427387902 : Int)) = .ok ⟨0.0, 1.0⟩ := by
  have hlow : Fraction.FloorFits 64 (-9223372036854775803 / 4) := by decide +kernel
  have hhigh : Fraction.FloorFits 64 (-9223372036854775803 / 4 + (4611686018427387902 : Int)) := by
    decide +kernel
  obtain ⟨-, -, -, turns, quarters, -⟩ := phaseFactor_upToTurns hlow
  have hquarter := (quarters (-9223372036854775803) (by decide +kernel)).2.1 (by decide)
  exact ⟨hlow, hhigh, hquarter, (turns _ hhigh).trans hquarter⟩

end LatticeObservables
