import LatticeObservables.Arithmetic.Bounded
import LatticeObservables.Proofs.Outcome
import Mathlib.Data.Rat.Floor
import Mathlib.Data.Rat.Lemmas

/-!
# When Words Are Wide Enough

Computations in bounded words give the exact result as soon as every integer that they pass
through fits (`bounded_of_fits`, `Fraction.combine_eq_ok`). The denominator of a result is
known without computing it: it divides a common denominator of the operands.
-/

namespace LatticeObservables

/-- The power of two, in the notation of powers. -/
theorem twoPower_eq (exponent : Nat) : twoPower exponent = 2 ^ exponent :=
  rfl

/-- The integers of a word of 64 bits. -/
theorem fits_64 {n : Int} : Fits 64 n ↔ -2 ^ 63 ≤ n ∧ n < 2 ^ 63 :=
  Iff.rfl

/-- The integers of a word of 128 bits. -/
theorem fits_128 {n : Int} : Fits 128 n ↔ -2 ^ 127 ≤ n ∧ n < 2 ^ 127 :=
  Iff.rfl

/-- An integer that fits passes. -/
theorem bounded_of_fits {bits : Nat} {n : Int} (h : Fits bits n) : bounded bits n = .ok n := by
  rw [bounded, if_pos h]

/-- An integer that does not fit is reported. -/
theorem bounded_of_not_fits {bits : Nat} {n : Int} (h : ¬ Fits bits n) :
    bounded bits n = .error .overflow := by
  rw [bounded, if_neg h]

/-- A pattern of the lower half stands for itself. -/
theorem signedReading_of_lt {pattern : Nat} (h : pattern < 2 ^ 63) :
    signedReading pattern = pattern := by
  rw [signedReading, twoPower_eq]
  exact Int.bmod_eq_of_le (by omega) (by omega)

/-- A pattern of the upper half stands for a negative integer. -/
theorem signedReading_of_ge {pattern : Nat} (hge : 2 ^ 63 ≤ pattern) (hlt : pattern < 2 ^ 64) :
    signedReading pattern = pattern - 2 ^ 64 := by
  have hpattern : (pattern : Int) = (pattern - 2 ^ 64) + (2 ^ 64 : Nat) := by omega
  rw [signedReading, twoPower_eq, hpattern, Int.add_bmod_right,
    Int.bmod_eq_of_le (by omega) (by omega)]
  omega

/-- A quotient by a positive number fits whenever the dividend does. -/
theorem euclideanDivision_of_pos {n d : Int} (hn : Fits 64 n) (hd : 0 < d) :
    euclideanDivision n d = .ok (n / d, n % d) := by
  have quotient : Fits 64 (n / d) := by
    rw [fits_64] at hn ⊢
    constructor
    · rw [Int.le_ediv_iff_mul_le hd]
      nlinarith
    · rw [Int.ediv_lt_iff_lt_mul hd]
      nlinarith
  rw [euclideanDivision, if_neg hd.ne', bounded_of_fits quotient]
  rfl

/-- A quotient by a negative number other than minus one fits whenever the dividend does. -/
theorem euclideanDivision_of_lt_neg_one {n d : Int} (hn : Fits 64 n) (hd : d < -1) :
    euclideanDivision n d = .ok (n / d, n % d) := by
  obtain ⟨m, rfl⟩ : ∃ m, d = -m := ⟨-d, (neg_neg d).symm⟩
  have hpos : 0 < m := by omega
  have quotient : Fits 64 (n / -m) := by
    rw [fits_64] at hn ⊢
    have hlow : -2 ^ 62 ≤ n / m := by
      rw [Int.le_ediv_iff_mul_le hpos]
      nlinarith
    have hhigh : n / m < 2 ^ 62 + 1 := by
      rw [Int.ediv_lt_iff_lt_mul hpos]
      nlinarith
    rw [Int.ediv_neg]
    omega
  rw [euclideanDivision, if_neg (by omega), bounded_of_fits quotient]
  rfl

namespace Fraction

/-! ### Common denominators -/

/-- The numerator of a fraction over a multiple of its denominator. -/
theorem cast_scaled {a : ℚ} {common : Nat} (h : a.den ∣ common) :
    ((a.num * ((common : Int) / a.den) : Int) : ℚ) = a * common := by
  obtain ⟨k, rfl⟩ := h
  have hden : (a.den : Int) ≠ 0 := by exact_mod_cast a.den_nz
  rw [Nat.cast_mul, Int.mul_ediv_cancel_left _ hden]
  push_cast
  rw [← mul_assoc, Rat.mul_den_eq_num]

/-- The numerator of a fraction below `m` is below `m` times the denominator. -/
theorem scaled_mem {a : ℚ} {common m : Nat} (h : a.den ∣ common) (hcommon : 0 < common)
    (h0 : 0 ≤ a) (hm : a < m) :
    0 ≤ a.num * ((common : Int) / a.den) ∧ a.num * ((common : Int) / a.den) < m * common := by
  have hpos : (0 : ℚ) < common := by exact_mod_cast hcommon
  have hcast := cast_scaled h
  constructor
  · have : (0 : ℚ) ≤ (a.num * ((common : Int) / a.den) : Int) := by
      rw [hcast]
      positivity
    exact_mod_cast this
  · have : ((a.num * ((common : Int) / a.den) : Int) : ℚ) < m * common := by
      rw [hcast]
      exact mul_lt_mul_of_pos_right hm hpos
    exact_mod_cast this

/-- An operation on numerators over a common denominator gives the exact result, once
everything that it passes through fits. -/
theorem combine_eq_ok {bits : Nat} {op : Int → Int → Int} {a b r : ℚ}
    (hcommon : Fits bits (a.den.lcm b.den))
    (hleft : Fits bits (a.num * ((a.den.lcm b.den : Nat) / a.den)))
    (hright : Fits bits (b.num * ((a.den.lcm b.den : Nat) / b.den)))
    (hop : Fits bits (op (a.num * ((a.den.lcm b.den : Nat) / a.den))
      (b.num * ((a.den.lcm b.den : Nat) / b.den))))
    (hr : (op (a.num * ((a.den.lcm b.den : Nat) / a.den))
      (b.num * ((a.den.lcm b.den : Nat) / b.den)) : ℚ) = r * (a.den.lcm b.den : Nat)) :
    combine bits op a b = .ok r := by
  have hpos : ((a.den.lcm b.den : Nat) : ℚ) ≠ 0 := by
    exact_mod_cast Nat.lcm_ne_zero a.den_nz b.den_nz
  have value : mkRat (op (a.num * ((a.den.lcm b.den : Nat) / a.den))
      (b.num * ((a.den.lcm b.den : Nat) / b.den))) (a.den.lcm b.den) = r := by
    rw [Rat.mkRat_eq_div, hr, mul_div_cancel_right₀ _ hpos]
  rw [combine]
  split
  next heq =>
    -- equal denominators are their own common one, and nothing is scaled
    have hden : (b.den : Int) ≠ 0 := by exact_mod_cast b.den_nz
    simp only [heq, Nat.lcm_self, Int.ediv_self hden, mul_one] at hop value
    rw [bounded_of_fits hop, heq]
    exact congrArg Except.ok value
  next =>
    refine bind_eq_ok.mpr ⟨_, bounded_of_fits hcommon, bind_eq_ok.mpr ⟨_, bounded_of_fits hleft,
      bind_eq_ok.mpr ⟨_, bounded_of_fits hright, bind_eq_ok.mpr ⟨_, bounded_of_fits hop, ?_⟩⟩⟩⟩
    exact congrArg Except.ok value

/-- An operation on numerators over a common denominator **overflows** as soon as that denominator
or the result over it does not fit. -/
theorem combine_eq_error {bits : Nat} {op : Int → Int → Int} {a b : ℚ} (hden : Fits bits a.den)
    (hscaled : Fits bits (a.den.lcm b.den) →
      Fits bits (a.num * ((a.den.lcm b.den : Nat) / a.den)) ∧
        Fits bits (b.num * ((a.den.lcm b.den : Nat) / b.den)))
    (h : ¬ (Fits bits (a.den.lcm b.den) ∧
      Fits bits (op (a.num * ((a.den.lcm b.den : Nat) / a.den))
        (b.num * ((a.den.lcm b.den : Nat) / b.den))))) :
    combine bits op a b = .error .overflow := by
  rw [combine]
  split
  next heq =>
    -- equal denominators are their own common one, which fits
    have hself : (b.den : Int) / b.den = 1 := Int.ediv_self (by exact_mod_cast b.den_nz)
    simp only [heq, Nat.lcm_self, hself, mul_one] at h hden
    have hop : ¬ Fits bits (op a.num b.num) := fun hop => h ⟨hden, hop⟩
    rw [bounded_of_not_fits hop]
    rfl
  next =>
    by_cases hcommon : Fits bits (a.den.lcm b.den)
    · obtain ⟨hleft, hright⟩ := hscaled hcommon
      have hop := bounded_of_not_fits fun hop => h ⟨hcommon, hop⟩
      exact bind_eq_error.mpr (.inr ⟨_, bounded_of_fits hcommon, bind_eq_error.mpr (.inr
        ⟨_, bounded_of_fits hleft, bind_eq_error.mpr (.inr ⟨_, bounded_of_fits hright,
          bind_eq_error.mpr (.inl hop)⟩)⟩)⟩)
    · exact bind_eq_error.mpr (.inl (bounded_of_not_fits hcommon))

end Fraction

end LatticeObservables
