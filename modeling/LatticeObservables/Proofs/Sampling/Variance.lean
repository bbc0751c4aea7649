import Mathlib.Algebra.BigOperators.Fin
import Mathlib.Tactic.FieldSimp
import Mathlib.Tactic.Linarith
import LatticeObservables.Proofs.Evaluation.Exact
import LatticeObservables.Sampling.Estimate

/-!
# The Variance over Bins

The statistics over bins are computed in two passes: first the mean, then the squared deviations
from it. Computed exactly, the squared deviations add up to the squared distances of all pairs of
bins, divided by the number of bins (`Complex.length_mul_sum_deviations`). Distances know nothing of
the mean, of the order of the bins or of where zero is, and so neither does the variance.

## Main statements

* `BinSummary.ofBins?_eq_some`: the statistics of any bins, through the distances of pairs.
* `BinSummary.ofBins?_exact`: the variance is the sample variance, with its laws.
-/

namespace LatticeObservables

/-! ### Sums over pairs -/

/-- The **sum over all pairs** of elements of a list, of which the earlier one comes first. -/
def pairSum {α : Type} (f : α → α → ℝ) : List α → ℝ
  | [] => 0
  | a :: rest => (rest.map (f a)).sum + pairSum f rest

section PairSum

variable {α β : Type}

/-- A sum over pairs is one over **positions**. -/
theorem pairSum_eq_sum (f : α → α → ℝ) (l : List α) :
    pairSum f l = ∑ i : Fin l.length, ∑ j ∈ Finset.Ioi i, f l[i] l[j] := by
  induction l with
  | nil => rfl
  | cons a rest ih =>
      rw [pairSum, ih, ← Fin.sum_univ_fun_getElem]
      simp only [List.length_cons, Fin.sum_univ_succ, Fin.sum_Ioi_zero, Fin.sum_Ioi_succ]
      rfl

/-- The pairs of images are the images of the pairs. -/
theorem pairSum_map (f : β → β → ℝ) (g : α → β) (l : List α) :
    pairSum f (l.map g) = pairSum (fun a b => f (g a) (g b)) l := by
  induction l with
  | nil => rfl
  | cons a rest ih => rw [List.map_cons, pairSum, pairSum, ih, List.map_map]; rfl

/-- A common factor of all pairs is one of their sum. -/
theorem pairSum_mul_left (r : ℝ) (f : α → α → ℝ) (l : List α) :
    pairSum (fun a b => r * f a b) l = r * pairSum f l := by
  induction l with
  | nil => exact (mul_zero r).symm
  | cons a rest ih => rw [pairSum, pairSum, ih, List.sum_map_mul_left, mul_add]

variable {f : α → α → ℝ} (hf : ∀ a b, 0 ≤ f a b)

include hf

/-- The sum over the pairs with one element is not negative. -/
theorem sum_map_nonneg (a : α) (l : List α) : 0 ≤ (l.map (f a)).sum :=
  List.sum_nonneg (by simpa using fun b _ => hf a b)

/-- A sum over pairs is not negative if nothing in it is. -/
theorem pairSum_nonneg (l : List α) : 0 ≤ pairSum f l := by
  induction l with
  | nil => exact le_rfl
  | cons a rest ih => exact add_nonneg (sum_map_nonneg hf a rest) ih

/-- A sum over pairs without negative terms is zero exactly if **all its terms are**. -/
theorem pairSum_eq_zero_iff (l : List α) :
    pairSum f l = 0 ↔ l.Pairwise fun a b => f a b = 0 := by
  induction l with
  | nil => simp [pairSum]
  | cons a rest ih =>
      have hfirst : (rest.map (f a)).sum = 0 ↔ ∀ b ∈ rest, f a b = 0 := by
        constructor
        · intro hsum b hb
          exact List.all_zero_of_le_zero_le_of_sum_eq_zero (by simpa using fun c _ => hf a c) hsum
            (List.mem_map_of_mem hb)
        · intro hzero
          exact List.sum_eq_zero (by simpa using hzero)
      rw [pairSum, add_eq_zero_iff_of_nonneg (sum_map_nonneg hf a rest) (pairSum_nonneg hf rest),
        hfirst, ih, List.pairwise_cons]

end PairSum

/-! ### Squared distances -/

namespace Complex

/-- The **product** of two values. -/
noncomputable def times (c z : Complex ℝ) : Complex ℝ :=
  ⟨c.re * z.re - c.im * z.im, c.re * z.im + c.im * z.re⟩

/-- The **squared distance** of two values. -/
noncomputable def distance (z w : Complex ℝ) : ℝ :=
  (z - w).normSq

theorem normSq_eq (z : Complex ℝ) : z.normSq = z.re ^ 2 + z.im ^ 2 := by
  rw [normSq]
  ring

theorem distance_eq (z w : Complex ℝ) : z.distance w = (z.re - w.re) ^ 2 + (z.im - w.im) ^ 2 := by
  rw [distance, normSq_eq, re_sub, im_sub]

theorem distance_nonneg (z w : Complex ℝ) : 0 ≤ z.distance w := by
  rw [distance_eq]
  positivity

/-- Only equal values have no distance. -/
theorem distance_eq_zero_iff {z w : Complex ℝ} : z.distance w = 0 ↔ z = w := by
  rw [distance_eq, add_eq_zero_iff_of_nonneg (sq_nonneg _) (sq_nonneg _), sq_eq_zero_iff,
    sq_eq_zero_iff, sub_eq_zero, sub_eq_zero]
  exact ⟨fun h => Complex.ext h.1 h.2, fun h => h ▸ ⟨rfl, rfl⟩⟩

/-- Shifted values have the distance that they had. -/
theorem distance_add (z w c : Complex ℝ) : (z + c).distance (w + c) = z.distance w := by
  simp only [distance_eq, re_add, im_add]
  ring

/-- A factor scales distances by **its square**. -/
theorem distance_times (c z w : Complex ℝ) :
    (c.times z).distance (c.times w) = c.normSq * z.distance w := by
  simp only [distance_eq, normSq_eq, times]
  ring

theorem re_sum_cons (z : Complex ℝ) (zs : List (Complex ℝ)) :
    (sum (z :: zs)).re = z.re + (sum zs).re := by
  rw [part_sum re_zero re_add, part_sum re_zero re_add, List.map_cons, List.sum_cons]

theorem im_sum_cons (z : Complex ℝ) (zs : List (Complex ℝ)) :
    (sum (z :: zs)).im = z.im + (sum zs).im := by
  rw [part_sum im_zero im_add, part_sum im_zero im_add, List.map_cons, List.sum_cons]

/-- The distances of a list from one value. -/
theorem sum_distance (c : Complex ℝ) (zs : List (Complex ℝ)) :
    (zs.map c.distance).sum = zs.length * c.normSq -
      2 * (c.re * (sum zs).re + c.im * (sum zs).im) + (zs.map normSq).sum := by
  induction zs with
  | nil => simp [sum]
  | cons z rest ih =>
      simp only [List.map_cons, List.sum_cons, ih, re_sum_cons, im_sum_cons, List.length_cons,
        Nat.cast_succ, distance_eq, normSq_eq c, normSq_eq z]
      ring

/-- The distances of **all pairs** of a list. -/
theorem pairSum_distance (zs : List (Complex ℝ)) :
    pairSum distance zs = zs.length * (zs.map normSq).sum - (sum zs).normSq := by
  induction zs with
  | nil => simp [pairSum, sum, normSq_eq]
  | cons z rest ih =>
      rw [pairSum, ih, sum_distance]
      simp only [List.map_cons, List.sum_cons, List.length_cons, Nat.cast_succ, normSq_eq (sum _),
        normSq_eq z, re_sum_cons, im_sum_cons]
      ring

/-- The squared deviations from the mean, as often as there are values, are the **distances of all
pairs**. -/
theorem length_mul_sum_deviations {zs : List (Complex ℝ)} (h : zs ≠ []) :
    zs.length * (zs.map fun z => (z - sum zs / (zs.length : ℝ)).normSq).sum =
      pairSum distance zs := by
  have hlength : (zs.length : ℝ) ≠ 0 := by simpa using h
  have hdistance : (fun z : Complex ℝ => (z - sum zs / (zs.length : ℝ)).normSq) =
      (sum zs / (zs.length : ℝ)).distance := by
    funext z
    rw [distance_eq, normSq_eq, re_sub, im_sub]
    ring
  rw [hdistance, sum_distance, pairSum_distance, normSq_eq, normSq_eq, re_div, im_div]
  field_simp
  ring

/-! ### The sample variance -/

/-- The **sample variance**: the squared distances of all pairs of `n` values, divided by
`n * (n - 1)`. -/
noncomputable def sampleVariance (zs : List (Complex ℝ)) : ℝ :=
  pairSum distance zs / (zs.length * (zs.length - 1))

/-- A single value does not vary. -/
theorem sampleVariance_of_length_eq_one {zs : List (Complex ℝ)} (h : zs.length = 1) :
    sampleVariance zs = 0 := by
  obtain ⟨z, rfl⟩ := List.length_eq_one_iff.mp h
  simp [sampleVariance, pairSum]

theorem sampleVariance_nonneg (zs : List (Complex ℝ)) : 0 ≤ sampleVariance zs := by
  have hpairs : (0 : ℝ) ≤ zs.length * (zs.length - 1) := by
    cases zs with
    | nil => simp
    | cons z rest =>
        rw [List.length_cons, Nat.cast_succ, add_sub_cancel_right]
        positivity
  exact div_nonneg (pairSum_nonneg distance_nonneg zs) hpairs

/-- There is no variance exactly if **all values are equal**. -/
theorem sampleVariance_eq_zero_iff (zs : List (Complex ℝ)) :
    sampleVariance zs = 0 ↔ ∀ z ∈ zs, ∀ w ∈ zs, z = w := by
  have hequal : pairSum distance zs = 0 ↔ ∀ z ∈ zs, ∀ w ∈ zs, z = w := by
    simp only [pairSum_eq_zero_iff distance_nonneg, distance_eq_zero_iff]
    exact ⟨fun h z hz w hw => h.forall_of_forall (fun _ _ => rfl) hz hw,
      List.pairwise_of_forall_mem_list⟩
  rw [← hequal]
  constructor
  · intro h
    by_cases hone : zs.length ≤ 1
    · match zs, hone with
      | [], _ => rfl
      | [z], _ => simp [pairSum]
    · have hpairs : (zs.length * (zs.length - 1) : ℝ) ≠ 0 := by
        have htwo : (2 : ℝ) ≤ zs.length := by exact_mod_cast Nat.lt_of_not_le hone
        exact mul_ne_zero (by linarith) (by linarith)
      exact (div_eq_zero_iff.mp h).resolve_right hpairs
  · intro h
    rw [sampleVariance, h, zero_div]

/-- The variance **does not depend on the order**. -/
theorem sampleVariance_perm {zs ws : List (Complex ℝ)} (h : zs.Perm ws) :
    sampleVariance zs = sampleVariance ws := by
  rw [sampleVariance, sampleVariance, pairSum_distance, pairSum_distance, h.length_eq,
    (h.map normSq).sum_eq, sum_perm h]

/-- Shifted values **vary as before**. -/
theorem sampleVariance_map_add (zs : List (Complex ℝ)) (c : Complex ℝ) :
    sampleVariance (zs.map (· + c)) = sampleVariance zs := by
  simp only [sampleVariance, pairSum_map, distance_add, List.length_map]

/-- A factor scales the variance by **its square**. -/
theorem sampleVariance_map_times (zs : List (Complex ℝ)) (c : Complex ℝ) :
    sampleVariance (zs.map c.times) = c.normSq * sampleVariance zs := by
  simp only [sampleVariance, pairSum_map, distance_times, pairSum_mul_left, List.length_map]
  ring

/-- Values that are shifted all alike shift their sum by as many times as much. -/
theorem sum_map_add (zs : List (Complex ℝ)) (c : Complex ℝ) :
    sum (zs.map (· + c)) = sum zs + (zs.length : ℝ) * c := by
  induction zs with
  | nil => ext <;> simp [sum]
  | cons z rest ih =>
      ext
      · simp only [List.map_cons, re_sum_cons, ih, re_add, re_mul, List.length_cons, Nat.cast_succ]
        ring
      · simp only [List.map_cons, im_sum_cons, ih, im_add, im_mul, List.length_cons, Nat.cast_succ]
        ring

/-- Values that are shifted all alike shift **their mean** by as much. -/
theorem mean_map_add {zs : List (Complex ℝ)} (h : zs ≠ []) (c : Complex ℝ) :
    sum (zs.map (· + c)) / (zs.length : ℝ) = sum zs / (zs.length : ℝ) + c := by
  have hlength : (zs.length : ℝ) ≠ 0 := by simpa using h
  rw [sum_map_add]
  ext
  · rw [re_div, re_add, re_mul, re_add, re_div, add_div, mul_div_cancel_left₀ _ hlength]
  · rw [im_div, im_add, im_mul, im_add, im_div, add_div, mul_div_cancel_left₀ _ hlength]

/-- A factor of all values is one of their sum. -/
theorem sum_map_times (zs : List (Complex ℝ)) (c : Complex ℝ) :
    sum (zs.map c.times) = c.times (sum zs) := by
  induction zs with
  | nil => ext <;> simp [sum, times]
  | cons z rest ih =>
      ext
      · simp only [List.map_cons, re_sum_cons, im_sum_cons, ih, times]
        ring
      · simp only [List.map_cons, re_sum_cons, im_sum_cons, ih, times]
        ring

/-- A factor of all values is one of **their mean**. -/
theorem mean_map_times (zs : List (Complex ℝ)) (c : Complex ℝ) :
    sum (zs.map c.times) / (zs.length : ℝ) = c.times (sum zs / (zs.length : ℝ)) := by
  rw [sum_map_times]
  ext
  · simp only [times, re_div, im_div]
    ring
  · simp only [times, re_div, im_div]
    ring

end Complex

/-! ### Statistics -/

namespace BinSummary

/-- Terms added one by one to zero are their sum. -/
theorem foldl_add_eq_sum {α : Type} (g : α → ℝ) (l : List α) :
    l.foldl (fun total a => total + g a) 0.0 = (l.map g).sum := by
  have hzero : (0.0 : ℝ) = 0 := by norm_num
  rw [hzero, List.sum_eq_foldl, List.foldl_map]

/-- The **statistics of bins**, if there are any. -/
theorem ofBins?_eq_some {bins : List (Complex ℝ)} (h : bins ≠ []) :
    ofBins? bins = some {
      mean := Complex.sum bins / (bins.length : ℝ)
      variance := Complex.sampleVariance bins
      error := √(Complex.sampleVariance bins / bins.length)
      bins := bins.length } := by
  have hpos : bins.length ≠ 0 := by simpa using h
  by_cases hone : bins.length = 1
  · have hzero : (0.0 : ℝ) = 0 := by norm_num
    rw [ofBins?, if_neg hpos, if_pos hone, Complex.sampleVariance_of_length_eq_one hone, hzero,
      zero_div, Real.sqrt_zero]
    rfl
  · have hvariance : bins.foldl (fun total x => total +
          (x - Complex.sum bins / (bins.length : ℝ)).normSq) 0.0 / ((bins.length - 1 : Nat) : ℝ) =
        Complex.sampleVariance bins := by
      have hlength : (bins.length : ℝ) ≠ 0 := by exact_mod_cast hpos
      rw [foldl_add_eq_sum, Complex.sampleVariance, ← Complex.length_mul_sum_deviations h,
        Nat.cast_pred (by omega), mul_div_mul_left _ _ hlength]
    rw [ofBins?, if_neg hpos, if_neg hone, ← hvariance]
    rfl

/-- **The variance over bins is the sample variance.** Without bins there are no statistics. With
`n` bins the mean is their sum divided by `n`, and a single bin has neither variance nor error. From
two bins on the variance is the sum of the squared distances of all pairs of bins, divided by
`n * (n - 1)`. It is `n` times the square of the error and never negative, and zero exactly if all
bins are equal. The order of the bins makes no difference. A constant added to all bins is added to
the mean and changes nothing else, and a factor of all bins is one of the mean and scales the
variance by its square. -/
theorem ofBins?_exact (bins : List (Complex ℝ)) :
    (bins = [] → ofBins? bins = none) ∧
    (bins ≠ [] → ∃ s, ofBins? bins = some s ∧
      s.bins = bins.length ∧
      (bins.length : ℝ) * s.mean = Complex.sum bins ∧
      (bins.length = 1 → s.variance = 0 ∧ s.error = 0) ∧
      (2 ≤ bins.length → s.variance = 1 / (bins.length * (bins.length - 1)) *
        ∑ i : Fin bins.length, ∑ j ∈ Finset.Ioi i, (bins[i] - bins[j]).normSq) ∧
      0 ≤ s.error ∧ s.error ^ 2 * bins.length = s.variance ∧
      0 ≤ s.variance ∧ (s.variance = 0 ↔ ∀ x ∈ bins, ∀ y ∈ bins, x = y) ∧
      (∀ others, bins.Perm others → ofBins? others = some s) ∧
      (∀ c, ofBins? (bins.map (· + c)) = some { s with mean := s.mean + c }) ∧
      ∀ c, ∃ t, ofBins? (bins.map (Complex.times c)) = some t ∧
        t.mean = c.times s.mean ∧ t.variance = c.normSq * s.variance) := by
  constructor
  · rintro rfl
    rfl
  intro h
  have hlength : (bins.length : ℝ) ≠ 0 := by simpa using h
  have hmapped {f : Complex ℝ → Complex ℝ} : bins.map f ≠ [] := by simpa using h
  refine ⟨_, ofBins?_eq_some h, rfl, ?mean, ?single, ?pairs, Real.sqrt_nonneg _, ?error,
    Complex.sampleVariance_nonneg bins, Complex.sampleVariance_eq_zero_iff bins, ?perm, ?shift,
    ?scale⟩
  case mean =>
    ext
    · exact mul_div_cancel₀ _ hlength
    · exact mul_div_cancel₀ _ hlength
  case single =>
    intro hone
    simp only [Complex.sampleVariance_of_length_eq_one hone, zero_div, Real.sqrt_zero, and_self]
  case pairs =>
    intro _
    rw [Complex.sampleVariance, pairSum_eq_sum, one_div_mul_eq_div]
    rfl
  case error =>
    have hnonneg := div_nonneg (Complex.sampleVariance_nonneg bins) (Nat.cast_nonneg bins.length)
    rw [Real.sq_sqrt hnonneg, div_mul_cancel₀ _ hlength]
  case perm =>
    intro others hperm
    have hothers : others ≠ [] := by
      rintro rfl
      exact h hperm.eq_nil
    rw [ofBins?_eq_some hothers, Complex.sampleVariance_perm hperm, Complex.sum_perm hperm,
      hperm.length_eq]
  case shift =>
    intro c
    rw [ofBins?_eq_some hmapped, Complex.sampleVariance_map_add, List.length_map,
      Complex.mean_map_add h]
  case scale =>
    intro c
    refine ⟨_, ofBins?_eq_some hmapped, ?_, Complex.sampleVariance_map_times bins c⟩
    rw [List.length_map, Complex.mean_map_times]

end BinSummary

end LatticeObservables
