import Mathlib.Algebra.BigOperators.Group.Finset.Basic
import Mathlib.Analysis.Real.Sqrt
import Mathlib.Tactic.NormNum.OfScientific
import Mathlib.Tactic.Ring
import LatticeObservables.Collection.FirstSeen
import LatticeObservables.Evaluation.Complex

/-!
# Exact Values

Evaluation is written over a type of scalars. Over doubles its results are rounded. Over the real
numbers (`instScalarReal`) the same text computes exactly, and values obey the laws of arithmetic:
sums do not depend on the order of their terms (`Complex.sum_perm`).
-/

namespace LatticeObservables

/-- **Real numbers as scalars.** -/
noncomputable instance instScalarReal : Scalar ℝ where
  ofCount n := n
  sqrt := Real.sqrt
  magnitude := abs
  larger := max
  atMost a b := decide (a ≤ b)

/-- The decimal two is the number two. -/
theorem decimal_two : (2.0 : ℝ) = 2 := by
  norm_num

namespace Complex

/-! ### The parts of exact values -/

/-- Values with the same parts are equal. -/
@[ext] theorem ext {z w : Complex ℝ} (hre : z.re = w.re) (him : z.im = w.im) : z = w := by
  cases z
  cases w
  exact congrArg₂ Complex.mk hre him

variable (z w : Complex ℝ) (a : ℝ)

@[simp] theorem re_add : (z + w).re = z.re + w.re := rfl

@[simp] theorem im_add : (z + w).im = z.im + w.im := rfl

@[simp] theorem re_sub : (z - w).re = z.re - w.re := rfl

@[simp] theorem im_sub : (z - w).im = z.im - w.im := rfl

@[simp] theorem re_mul : (a * z).re = a * z.re := rfl

@[simp] theorem im_mul : (a * z).im = a * z.im := rfl

@[simp] theorem re_div : (z / a).re = z.re / a := rfl

@[simp] theorem im_div : (z / a).im = z.im / a := rfl

@[simp] theorem re_conj : z.conj.re = z.re := rfl

@[simp] theorem im_conj : z.conj.im = -z.im := rfl

/-- The value plus its conjugate is twice the real part. -/
@[simp] theorem re_addConj : z.addConj.re = 2 * z.re := by
  simp only [addConj, re_add, re_conj]
  ring

@[simp] theorem im_addConj : z.addConj.im = 0 := by
  simp only [addConj, im_add, im_conj]
  ring

@[simp] theorem re_zero : (zero : Complex ℝ).re = 0 := by
  simp only [zero]
  norm_num

@[simp] theorem im_zero : (zero : Complex ℝ).im = 0 := by
  simp only [zero]
  norm_num

/-- A value without an imaginary part is real. -/
theorem isReal_of_im_eq_zero {z : Complex ℝ} (h : z.im = 0) : z.isReal := by
  have htolerance : |z.im - 0.0| ≤ 1e-8 * max |z.re| 1.0 := by
    rw [h]
    norm_num
  exact decide_eq_true htolerance

/-! ### Sums -/

/-- An additive part of a sum is **the sum of that part**. -/
theorem part_sum {part : Complex ℝ → ℝ} (hzero : part zero = 0)
    (hadd : ∀ z w, part (z + w) = part z + part w) (zs : List (Complex ℝ)) :
    part (sum zs) = (zs.map part).sum := by
  have running (total : Complex ℝ) :
      part (zs.foldl (· + ·) total) = part total + (zs.map part).sum := by
    induction zs generalizing total with
    | nil => simp
    | cons z rest ih => rw [List.foldl_cons, ih, hadd, List.map_cons, List.sum_cons, add_assoc]
  rw [sum, running, hzero, zero_add]

/-- Sums **do not depend on the order** of their terms. -/
theorem sum_perm {zs ws : List (Complex ℝ)} (h : zs.Perm ws) : sum zs = sum ws := by
  ext
  · rw [part_sum re_zero re_add, part_sum re_zero re_add, (h.map re).sum_eq]
  · rw [part_sum im_zero im_add, part_sum im_zero im_add, (h.map im).sum_eq]

/-- A sum over a list is one over the different elements, each **as often as it stands there**. -/
theorem sum_map_eq_sum_firstSeen {α : Type} [DecidableEq α] (value : α → Complex ℝ) (l : List α) :
    sum (l.map value) = sum ((firstSeen l).map fun a => (l.count a : ℝ) * value a) := by
  have real (f : α → ℝ) :
      (l.map f).sum = ((firstSeen l).map fun a => (l.count a : ℝ) * f a).sum := by
    have hmembers : (firstSeen l).toFinset = l.toFinset := by
      ext a
      rw [List.mem_toFinset, List.mem_toFinset, mem_firstSeen]
    rw [← List.sum_toFinset _ (nodup_firstSeen l), hmembers, Finset.sum_list_map_count]
    simp only [nsmul_eq_mul]
  ext
  · rw [part_sum re_zero re_add, part_sum re_zero re_add, List.map_map, List.map_map]
    exact real fun a => (value a).re
  · rw [part_sum im_zero im_add, part_sum im_zero im_add, List.map_map, List.map_map]
    exact real fun a => (value a).im

end Complex

end LatticeObservables
