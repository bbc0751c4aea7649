import LatticeObservables.Boundary.Winding
import LatticeObservables.Proofs.Arithmetic.Bounded

/-!
# The Phase of a Twist

Winding around the torus brings the phase `S - ⌊S⌋`, where `S` is the sum of the boundary
phases, each as often as its dimension is wound around (`BoundaryConditions.twist`). The
running sum never holds `S`: the windings and the numerators are reduced first and a full
turn is taken off as soon as there is one, so what it holds is a fraction from zero up to one
over a divisor of the common denominator of the phases. Words of 128 bits are wide enough for a
step if the sum fits over its own denominators (`SumFits`), as every sum does as long as the common
denominator is below `2 ^ 126` (`sumsFit_of_common`).

## Main statements

* `Lattice.wrap_eq`: image and windings of a site, dimension by dimension.
* `totalPhase_eq_ok`: the running sum ends with the fractional part of the exact one.
* `Lattice.enforceWithPhase_exact`: the outcome for every site, with the phase.
-/

namespace LatticeObservables

open Int (fract)

/-! ### Images and windings -/

namespace Lattice

/-- The **image** of a site: every coordinate modulo the length of its dimension. -/
def image (l : Lattice) (s : Site) : Site :=
  ⟨s.coordinates.zipWith (fun (x : Int) (length : Nat) => x % length) l.lengths, s.basisIndex⟩

/-- The **windings** of a site: how many lengths of its dimension each coordinate is past
the beginning of the lattice, rounded down. -/
def windings (l : Lattice) (s : Site) : List Int :=
  s.coordinates.zipWith (fun (x : Int) (length : Nat) => ⌊(x : ℚ) / length⌋) l.lengths

/-- Lengths that a signed word of 64 bits holds, none of them zero. -/
def SignedLengths (l : Lattice) : Prop :=
  ∀ length ∈ l.lengths, 0 < length ∧ length < 2 ^ 63

/-- Images and windings, **if every division has a result**: what is divided is a coordinate by the
signed reading of the length of its dimension. -/
theorem windingNumbers_eq_zipWith {image winding : Int → Nat → Int} {xs : List Int}
    {lengths : List Nat} (h : ∀ x length, (x, length) ∈ xs.zip lengths →
      euclideanDivision x (signedReading length) = .ok (winding x length, image x length)) :
    windingNumbers xs lengths =
      .ok (xs.zipWith (fun x length => (image x length, winding x length)) lengths) := by
  induction xs generalizing lengths with
  | nil => rfl
  | cons x xs ih =>
      cases lengths with
      | nil => rfl
      | cons length rest =>
          have division := h x length List.mem_cons_self
          have others := ih fun y n hmem => h y n (List.mem_cons_of_mem _ hmem)
          exact bind_eq_ok.mpr ⟨_, division, bind_eq_ok.mpr ⟨_, others, rfl⟩⟩

/-- Every coordinate is divided with remainder. -/
theorem windingNumbers_eq_ok {xs : List Int} {lengths : List Nat} (hx : ∀ x ∈ xs, Fits 64 x)
    (hl : ∀ length ∈ lengths, 0 < length ∧ length < 2 ^ 63) :
    windingNumbers xs lengths =
      .ok (xs.zipWith
        (fun (x : Int) (length : Nat) => (x % (length : Int), ⌊(x : ℚ) / length⌋)) lengths) := by
  refine windingNumbers_eq_zipWith fun x length hmem => ?_
  obtain ⟨hcoordinate, hlength⟩ := List.of_mem_zip hmem
  obtain ⟨hpos, hlt⟩ := hl length hlength
  rw [signedReading_of_lt hlt, euclideanDivision_of_pos (hx x hcoordinate) (by exact_mod_cast hpos),
    Rat.floor_intCast_div_natCast]

/-- What is made of each length lies within the lengths, if it lies **within that length**. -/
theorem inBlock_zipWith {α : Type} {f : α → Nat → Int} (xs : List α) {lengths : List Nat}
    (h : ∀ length ∈ lengths, ∀ x, 0 ≤ f x length ∧ f x length < length) :
    inBlock (xs.zipWith f lengths) lengths := by
  induction xs generalizing lengths with
  | nil => rfl
  | cons x xs ih =>
      cases lengths with
      | nil => rfl
      | cons length rest =>
          obtain ⟨hfirst, hrest⟩ := List.forall_mem_cons.mp h
          obtain ⟨hnonneg, hlt⟩ := hfirst x
          simp [inBlock, hnonneg, hlt, ih hrest]

/-- The coordinates of an image lie within the lengths. -/
theorem inBlock_image {l : Lattice} (hl : l.SignedLengths) (s : Site) :
    inBlock (l.image s).coordinates l.lengths :=
  inBlock_zipWith s.coordinates fun length hmem x => by
    have hpos : (0 : Int) < length := by exact_mod_cast (hl length hmem).1
    exact ⟨Int.emod_nonneg x hpos.ne', Int.emod_lt_of_pos x hpos⟩

/-- The image of a site lies in the lattice unless its basis index does not exist. -/
theorem contains_image {l : Lattice} {s : Site} (hl : l.SignedLengths)
    (hdim : s.dimension = l.dimension) :
    l.contains (l.image s) = decide (s.basisIndex < l.basisIndices) := by
  have hlength : (l.image s).dimension = l.dimension := by
    simp only [Site.dimension, Lattice.dimension] at hdim ⊢
    simp [image, hdim]
  have hblock := inBlock_image hl s
  have hbasis : (l.image s).basisIndex = s.basisIndex := rfl
  simp [contains, hlength, hblock, hbasis]

/-- What becomes of a site whose coordinates **leave remainders inside the block**: it is refused if
its basis index does not exist. -/
theorem wrap_of_windingNumbers {l : Lattice} {s : Site} {pairs : List (Int × Int)}
    (hdim : s.dimension = l.dimension)
    (hpairs : windingNumbers s.coordinates l.lengths = .ok pairs)
    (hlength : pairs.length = l.dimension) (hblock : inBlock (pairs.map Prod.fst) l.lengths) :
    l.wrap s =
      if s.basisIndex < l.basisIndices then
        .ok (⟨pairs.map Prod.fst, s.basisIndex⟩, pairs.map Prod.snd)
      else .error (.siteOutsideLattice ⟨pairs.map Prod.fst, s.basisIndex⟩) := by
  have hcontains : l.contains ⟨pairs.map Prod.fst, s.basisIndex⟩ =
      decide (s.basisIndex < l.basisIndices) := by
    have hsame : (Site.mk (pairs.map Prod.fst) s.basisIndex).dimension = l.dimension := by
      rw [← hlength, Site.dimension, List.length_map]
    rw [contains, hsame, beq_self_eq_true, hblock, Bool.and_true, Bool.true_and]
  rw [wrap, if_neg (not_not.mpr hdim), hpairs]
  simp only [Except.mapError, bind, Except.bind, hcontains]
  by_cases hbasis : s.basisIndex < l.basisIndices
  · simp only [hbasis, decide_true, Bool.not_true, Bool.false_eq_true, if_false, if_true]
    rfl
  · simp only [hbasis, decide_false, Bool.not_false, if_true, if_false]
    rfl

/-- The outcome of wrapping a site of the right dimension. -/
theorem wrap_eq {l : Lattice} {s : Site} (hl : l.SignedLengths)
    (hs : ∀ x ∈ s.coordinates, Fits 64 x) (hdim : s.dimension = l.dimension) :
    l.wrap s =
      if s.basisIndex < l.basisIndices then .ok (l.image s, l.windings s)
      else .error (.siteOutsideLattice (l.image s)) := by
  have himages : (s.coordinates.zipWith (fun (x : Int) (length : Nat) => (x % (length : Int),
      ⌊(x : ℚ) / length⌋)) l.lengths).map Prod.fst = (l.image s).coordinates := by
    simp [image, List.map_zipWith]
  have hwindings : (s.coordinates.zipWith (fun (x : Int) (length : Nat) => (x % (length : Int),
      ⌊(x : ℚ) / length⌋)) l.lengths).map Prod.snd = l.windings s := by
    simp [windings, List.map_zipWith]
  have hlength : (s.coordinates.zipWith (fun (x : Int) (length : Nat) => (x % (length : Int),
      ⌊(x : ℚ) / length⌋)) l.lengths).length = l.dimension := by
    rw [List.length_zipWith, ← Site.dimension, hdim, ← dimension, Nat.min_self]
  have outcome := wrap_of_windingNumbers hdim (windingNumbers_eq_ok hs hl) hlength
    (by rw [himages]; exact inBlock_image hl s)
  rw [himages, hwindings] at outcome
  exact outcome

/-- A site with a basis index that exists is taken to its image. -/
theorem enforce_eq_image {l : Lattice} {s : Site} (hl : l.SignedLengths)
    (hs : ∀ x ∈ s.coordinates, Fits 64 x) (hdim : s.dimension = l.dimension)
    (hbasis : s.basisIndex < l.basisIndices) : l.enforce s = .ok (l.image s) := by
  rw [enforce, wrap_eq hl hs hdim, if_pos hbasis]
  rfl

end Lattice

/-! ### Adding phases -/

namespace BoundaryConditions

/-- The exact **twist** that windings bring: the sum of the boundary phases, each as often as
its dimension is wound around. -/
def twist (b : BoundaryConditions) (windings : List Int) : ℚ :=
  (windings.zipWith (fun (n : Int) (c : BoundaryCondition) => n * c.phase) b.conditions).sum

/-- The least **common denominator** of the phases. -/
def commonDenominator (b : BoundaryConditions) : Nat :=
  (b.conditions.map fun c => c.phase.den).foldr Nat.lcm 1

end BoundaryConditions

/-- A fraction from zero up to one, over a divisor of `common`. -/
structure IsPhaseOver (common : Nat) (a : ℚ) : Prop where
  nonneg : 0 ≤ a
  lt_one : a < 1
  den_dvd : a.den ∣ common

/-- The fractional part of a fraction over a divisor of `common`. -/
theorem isPhaseOver_fract {common : Nat} {a : ℚ} (h : a.den ∣ common) :
    IsPhaseOver common (fract a) where
  nonneg := Int.fract_nonneg a
  lt_one := Int.fract_lt_one a
  den_dvd := by rwa [Rat.den_intFract]

/-- What one dimension contributes is the fractional part of its multiple of the phase. -/
theorem windingPhase_eq_ok (n : Int) {p : BoundaryCondition} (hp : p.phase.den < 2 ^ 63) :
    windingPhase n p = .ok (fract (n * p.phase)) := by
  have hpos : (0 : Int) < p.phase.den := by exact_mod_cast p.phase.den_pos
  have hn := Int.emod_lt_of_pos n hpos
  have ha := Int.emod_lt_of_pos p.phase.num hpos
  have hn0 := Int.emod_nonneg n hpos.ne'
  have ha0 := Int.emod_nonneg p.phase.num hpos.ne'
  have product : Fits 128 (n % p.phase.den * (p.phase.num % p.phase.den)) := by
    rw [fits_128]
    constructor
    · nlinarith
    · nlinarith
  refine bind_eq_ok.mpr ⟨_, bounded_of_fits product, ?_⟩
  refine congrArg Except.ok ?_
  calc mkRat (n % p.phase.den * (p.phase.num % p.phase.den) % p.phase.den) p.phase.den
      = ((n * p.phase.num % p.phase.den : Int) : ℚ) / p.phase.den := by
        rw [← Int.mul_emod, Rat.mkRat_eq_div]
    _ = fract (((n * p.phase.num : Int) : ℚ) / p.phase.den) :=
        Int.fract_div_intCast_eq_div_intCast_mod.symm
    _ = fract (n * p.phase) := by
        rw [Int.cast_mul, mul_div_assoc, Rat.num_div_den]

/-- The **sum of two phases fits** words of 128 bits: their least common denominator does, and so
does the numerator of the sum over it. -/
def SumFits (a b : ℚ) : Prop :=
  a.den.lcm b.den < 2 ^ 127 ∧ (a + b) * (a.den.lcm b.den : Nat) < 2 ^ 127

instance (a b : ℚ) : Decidable (SumFits a b) :=
  inferInstanceAs (Decidable (_ ∧ _))

/-- A sum fits if a common denominator of both phases is below `2 ^ 126`. -/
theorem sumFits_of_common {common : Nat} (hcommon : common < 2 ^ 126) (hpos : 0 < common) {a b : ℚ}
    (ha : IsPhaseOver common a) (hb : IsPhaseOver common b) : SumFits a b := by
  have hle : a.den.lcm b.den ≤ common := Nat.le_of_dvd hpos (Nat.lcm_dvd ha.den_dvd hb.den_dvd)
  have hlcm : (0 : ℚ) < (a.den.lcm b.den : Nat) := by
    exact_mod_cast Nat.lcm_pos a.den_pos b.den_pos
  have hlt : ((a.den.lcm b.den : Nat) : ℚ) < 2 ^ 126 := by
    exact_mod_cast hle.trans_lt hcommon
  refine ⟨by omega, ?_⟩
  calc (a + b) * (a.den.lcm b.den : Nat)
      < 2 * (a.den.lcm b.den : Nat) :=
        mul_lt_mul_of_pos_right (by linarith [ha.lt_one, hb.lt_one]) hlcm
    _ < 2 ^ 127 := by linarith

/-- The numerator of a sum over the least common denominator. -/
theorem cast_scaled_add (a b : ℚ) :
    ((a.num * ((a.den.lcm b.den : Nat) / a.den : Int) +
      b.num * ((a.den.lcm b.den : Nat) / b.den : Int) : Int) : ℚ) =
      (a + b) * (a.den.lcm b.den : Nat) := by
  rw [Int.cast_add, Fraction.cast_scaled (Nat.dvd_lcm_left a.den b.den),
    Fraction.cast_scaled (Nat.dvd_lcm_right a.den b.den), add_mul]

/-- Two phases whose sum fits are added. -/
theorem combine_add_eq_ok {a b : ℚ} (ha0 : 0 ≤ a) (ha1 : a < 1) (hb0 : 0 ≤ b) (hb1 : b < 1)
    (h : SumFits a b) : Fraction.combine 128 (· + ·) a b = .ok (a + b) := by
  obtain ⟨hcommon, hnumerator⟩ := h
  have hlcm : 0 < a.den.lcm b.den := Nat.lcm_pos a.den_pos b.den_pos
  obtain ⟨left0, left1⟩ := Fraction.scaled_mem (m := 1) (Nat.dvd_lcm_left a.den b.den) hlcm ha0
    (by exact_mod_cast ha1)
  obtain ⟨right0, right1⟩ := Fraction.scaled_mem (m := 1) (Nat.dvd_lcm_right a.den b.den) hlcm hb0
    (by exact_mod_cast hb1)
  rw [← cast_scaled_add] at hnumerator
  refine Fraction.combine_eq_ok (fits_128.mpr ?_) (fits_128.mpr ?_) (fits_128.mpr ?_)
    (fits_128.mpr ⟨?_, by exact_mod_cast hnumerator⟩) (cast_scaled_add a b)
  · omega
  · omega
  · omega
  · omega

/-- A full turn is taken off a fraction that fits. -/
theorem combine_sub_one_eq_ok {a : ℚ} (h1 : 1 ≤ a) (hnum : a.num < 2 ^ 127)
    (hden : a.den < 2 ^ 127) : Fraction.combine 128 (· - ·) a 1 = .ok (a - 1) := by
  have hself : (a.den : Int) / a.den = 1 := Int.ediv_self (by exact_mod_cast a.den_nz)
  have hlt : (a.den : Int) ≤ a.num := by
    have hcast : ((a.den : Int) : ℚ) ≤ a.num := by
      rw [← Rat.mul_den_eq_num, Int.cast_natCast]
      exact le_mul_of_one_le_left (Nat.cast_nonneg _) h1
    exact_mod_cast hcast
  have hdiff : ((a.num : ℚ) - a.den) = (a - 1) * a.den := by
    rw [sub_mul, one_mul, Rat.mul_den_eq_num]
  refine Fraction.combine_eq_ok (fits_128.mpr ?_) (fits_128.mpr ?_) (fits_128.mpr ?_)
    (fits_128.mpr ?_) ?_
  all_goals simp only [Rat.den_one, Rat.num_one, Nat.lcm_one_right, hself, Nat.cast_one,
    Int.ediv_one, one_mul, mul_one]
  · omega
  · omega
  · omega
  · omega
  · exact_mod_cast hdiff

/-- A sum that fits is a fraction that fits. -/
theorem SumFits.num_den {a b : ℚ} (h : SumFits a b) (h0 : 0 ≤ a + b) :
    (a + b).num < 2 ^ 127 ∧ (a + b).den < 2 ^ 127 := by
  obtain ⟨hcommon, hnumerator⟩ := h
  have hle : (a + b).den ≤ a.den.lcm b.den :=
    Nat.le_of_dvd (Nat.lcm_pos a.den_pos b.den_pos) (Rat.add_den_dvd_lcm a b)
  refine ⟨?_, by omega⟩
  have hcast : ((a + b).num : ℚ) < 2 ^ 127 := by
    calc ((a + b).num : ℚ) = (a + b) * (a + b).den := (Rat.mul_den_eq_num _).symm
      _ ≤ (a + b) * (a.den.lcm b.den : Nat) :=
        mul_le_mul_of_nonneg_left (by exact_mod_cast hle) h0
      _ < 2 ^ 127 := hnumerator
  exact_mod_cast hcast

/-- The sum of two phases is the fractional part of the exact sum, and **no word overflows** if it
fits. -/
theorem addPhase_eq_ok {a b : ℚ} (ha0 : 0 ≤ a) (ha1 : a < 1) (hb0 : 0 ≤ b) (hb1 : b < 1)
    (h : SumFits a b) : addPhase a b = .ok (fract (a + b)) := by
  have h0 : 0 ≤ a + b := add_nonneg ha0 hb0
  obtain ⟨hnum, hden⟩ := h.num_den h0
  refine bind_eq_ok.mpr ⟨_, combine_add_eq_ok ha0 ha1 hb0 hb1 h, ?_⟩
  split
  next h1 =>
    have turn : fract (a + b) = a + b - 1 := by
      rw [← Int.fract_sub_one]
      exact Int.fract_eq_self.mpr ⟨by linarith, by linarith⟩
    rw [turn]
    exact combine_sub_one_eq_ok h1 hnum hden
  next h1 =>
    rw [Int.fract_eq_self.mpr ⟨h0, not_le.mp h1⟩]
    rfl

/-- Whole turns in a summand do not change the phase of a sum. -/
theorem fract_add_fract (a x : ℚ) : fract (a + fract x) = fract (a + x) := by
  rw [Int.fract_eq_fract]
  exact ⟨-⌊x⌋, by rw [← Int.self_sub_floor x]; push_cast; ring⟩

/-- Whole turns in the sum so far do not change the phase. -/
theorem fract_fract_add (a x : ℚ) : fract (fract a + x) = fract (a + x) := by
  rw [add_comm, fract_add_fract, add_comm]

/-- **All sums fit** on the way of a running sum: from `start` on, every phase that is added has a
sum that fits with the fractional part of the exact sum so far. -/
def SumsFit (start : ℚ) : List Int → List BoundaryCondition → Prop
  | n :: ns, p :: ps =>
    SumFits start (fract (n * p.phase)) ∧ SumsFit (fract (start + n * p.phase)) ns ps
  | _, _ => True

instance decidableSumsFit : (start : ℚ) → (windings : List Int) →
    (conditions : List BoundaryCondition) → Decidable (SumsFit start windings conditions)
  | start, n :: ns, p :: ps =>
    have : Decidable (SumsFit (fract (start + n * p.phase)) ns ps) := decidableSumsFit _ ns ps
    inferInstanceAs (Decidable (_ ∧ _))
  | _, [], _ => isTrue trivial
  | _, _ :: _, [] => isTrue trivial

/-- All sums fit if a common denominator of the phases is below `2 ^ 126`: what the running sum
holds is a phase over it all the time. -/
theorem sumsFit_of_common {common : Nat} (hcommon : common < 2 ^ 126) (hpos : 0 < common)
    {start : ℚ} (hstart : IsPhaseOver common start) (windings : List Int)
    {conditions : List BoundaryCondition} (hc : ∀ c ∈ conditions, c.phase.den ∣ common) :
    SumsFit start windings conditions := by
  induction windings generalizing start conditions with
  | nil => trivial
  | cons n ns ih =>
      cases conditions with
      | nil => trivial
      | cons p ps =>
          obtain ⟨hdvd, hps⟩ := List.forall_mem_cons.mp hc
          have hden : ((n : ℚ) * p.phase).den ∣ common := by
            refine (Rat.mul_den_dvd _ _).trans ?_
            simpa using hdvd
          have hsum : (start + n * p.phase).den ∣ common :=
            (Rat.add_den_dvd_lcm _ _).trans (Nat.lcm_dvd hstart.den_dvd hden)
          exact ⟨sumFits_of_common hcommon hpos hstart (isPhaseOver_fract hden),
            ih (isPhaseOver_fract hsum) hps⟩

/-- **The running sum ends with the fractional part of the exact one**, if all sums fit. -/
theorem totalPhase_eq_ok {start : ℚ} (h0 : 0 ≤ start) (h1 : start < 1) {windings : List Int}
    {conditions : List BoundaryCondition} (hc : ∀ c ∈ conditions, c.phase.den < 2 ^ 63)
    (h : SumsFit start windings conditions) :
    totalPhase start windings conditions =
      .ok (fract (start + BoundaryConditions.twist ⟨conditions⟩ windings)) := by
  have done : fract (start + 0) = start := by
    rw [add_zero, Int.fract_eq_self.mpr ⟨h0, h1⟩]
  induction windings generalizing start conditions with
  | nil => exact congrArg Except.ok done.symm
  | cons n ns ih =>
      cases conditions with
      | nil => exact congrArg Except.ok done.symm
      | cons p ps =>
          obtain ⟨hword, hps⟩ := List.forall_mem_cons.mp hc
          obtain ⟨hfirst, hrest⟩ := h
          have step : addPhase start (fract (n * p.phase)) = .ok (fract (start + n * p.phase)) := by
            rw [addPhase_eq_ok h0 h1 (Int.fract_nonneg _) (Int.fract_lt_one _) hfirst,
              fract_add_fract]
          refine bind_eq_ok.mpr ⟨_, windingPhase_eq_ok n hword, bind_eq_ok.mpr ⟨_, step, ?_⟩⟩
          rw [ih (Int.fract_nonneg _) (Int.fract_lt_one _) hps hrest
            (by rw [add_zero, Int.fract_fract]), fract_fract_add, add_assoc]
          rfl

/-! ### Common denominators -/

namespace BoundaryConditions

/-- Every phase is one over the common denominator. -/
theorem den_dvd_commonDenominator {b : BoundaryConditions} {c : BoundaryCondition}
    (hc : c ∈ b.conditions) : c.phase.den ∣ b.commonDenominator := by
  obtain ⟨conditions⟩ := b
  change c ∈ conditions at hc
  change c.phase.den ∣ (conditions.map fun c => c.phase.den).foldr Nat.lcm 1
  induction conditions with
  | nil => simp at hc
  | cons first rest ih =>
      rcases List.mem_cons.mp hc with rfl | hc
      · exact Nat.dvd_lcm_left _ _
      · exact (ih hc).trans (Nat.dvd_lcm_right _ _)

/-- The common denominator is positive. -/
theorem commonDenominator_pos (b : BoundaryConditions) : 0 < b.commonDenominator := by
  obtain ⟨conditions⟩ := b
  change 0 < (conditions.map fun c => c.phase.den).foldr Nat.lcm 1
  induction conditions with
  | nil => exact Nat.one_pos
  | cons first rest ih => exact Nat.lcm_pos first.phase.den_pos ih

/-- Two dimensions never bring a common denominator that is too large. -/
theorem commonDenominator_lt {b : BoundaryConditions} (hdim : b.dimension ≤ 2)
    (hb : ∀ c ∈ b.conditions, c.phase.den < 2 ^ 63) : b.commonDenominator < 2 ^ 126 := by
  obtain ⟨conditions⟩ := b
  match conditions, hdim with
  | [], _ => exact Nat.one_lt_two_pow (by decide)
  | [c], _ =>
      have hc := hb c (by simp)
      simp only [commonDenominator, List.map_cons, List.map_nil, List.foldr_cons,
        List.foldr_nil, Nat.lcm_one_right]
      omega
  | [c, c'], _ =>
      have hc := hb c (by simp)
      have hc' := hb c' (by simp)
      simp only [commonDenominator, List.map_cons, List.map_nil, List.foldr_cons,
        List.foldr_nil, Nat.lcm_one_right]
      calc c.phase.den.lcm c'.phase.den
          ≤ c.phase.den * c'.phase.den :=
            Nat.le_of_dvd (Nat.mul_pos c.phase.den_pos c'.phase.den_pos) (Nat.lcm_dvd_mul _ _)
        _ < 2 ^ 63 * 2 ^ 63 := Nat.mul_lt_mul'' hc hc'

end BoundaryConditions

/-! ### Moving by whole periods -/

/-- The site some distance further along a dimension. -/
def Site.move (s : Site) (d : Nat) (distance : Int) : Site :=
  ⟨s.coordinates.modify d (· + distance), s.basisIndex⟩

namespace Lattice

/-- Whole periods do not change the image. -/
theorem image_move {l : Lattice} {d length : Nat} (h : l.lengths[d]? = some length) (s : Site)
    (k : Int) : l.image (s.move d (k * length)) = l.image s := by
  obtain ⟨lengths, basisIndices⟩ := l
  obtain ⟨xs, basisIndex⟩ := s
  simp only [image, Site.move, Site.mk.injEq, and_true]
  induction xs generalizing lengths d with
  | nil => simp
  | cons x xs ih =>
      cases lengths with
      | nil => simp at h
      | cons first rest =>
          cases d with
          | zero =>
              obtain rfl : first = length := by simpa using h
              simp [Int.add_mul_emod_self_right]
          | succ d => simp [ih rest (by simpa using h)]

/-- Every whole period adds the phase of its dimension. -/
theorem twist_windings_move {l : Lattice} {b : BoundaryConditions} {d length : Nat}
    {c : BoundaryCondition} (hl : l.SignedLengths) (hlength : l.lengths[d]? = some length)
    (hc : b.conditions[d]? = some c) {s : Site} (hdim : s.dimension = l.dimension) (k : Int) :
    b.twist (l.windings (s.move d (k * length))) = b.twist (l.windings s) + k * c.phase := by
  obtain ⟨lengths, basisIndices⟩ := l
  obtain ⟨conditions⟩ := b
  obtain ⟨xs, basisIndex⟩ := s
  simp only [SignedLengths, Site.dimension, Lattice.dimension] at hl hlength hc hdim
  simp only [windings, BoundaryConditions.twist, Site.move]
  induction xs generalizing lengths conditions d with
  | nil =>
      obtain rfl : lengths = [] := List.length_eq_zero_iff.mp hdim.symm
      simp at hlength
  | cons x xs ih =>
      obtain ⟨first, rest, rfl⟩ : ∃ first rest, lengths = first :: rest :=
        List.exists_cons_of_length_eq_add_one hdim.symm
      obtain ⟨p, ps, rfl⟩ : ∃ p ps, conditions = p :: ps := by
        refine List.exists_cons_of_ne_nil ?_
        rintro rfl
        simp at hc
      obtain ⟨⟨hpos, -⟩, hrest⟩ := List.forall_mem_cons.mp hl
      cases d with
      | zero =>
          obtain rfl : first = length := by simpa using hlength
          obtain rfl : p = c := by simpa using hc
          have hfirst : (first : ℚ) ≠ 0 := by exact_mod_cast hpos.ne'
          have winding : ⌊((x + k * first : Int) : ℚ) / first⌋ = ⌊(x : ℚ) / first⌋ + k := by
            rw [← Int.floor_add_intCast]
            congr 1
            push_cast
            field_simp
          simp only [List.modify_zero_cons, List.zipWith_cons_cons, List.sum_cons, winding]
          push_cast
          ring
      | succ d =>
          have ih := ih rest hrest (by simpa using hlength) ps (by simpa using hc)
            (by simpa using hdim)
          simp only [List.modify_succ_cons, List.zipWith_cons_cons, List.sum_cons, ih]
          ring

/-! ### The outcome -/

/-- A phase fits words of 64 bits exactly when its denominator does. -/
theorem fits_fract_iff {a : ℚ} :
    Fits 64 (fract a).num ∧ Fits 64 (fract a).den ↔ (fract a).den < 2 ^ 63 := by
  have hnum : 0 ≤ (fract a).num := Rat.num_nonneg.mpr (Int.fract_nonneg a)
  have hlt : (fract a).num < (fract a).den := Rat.num_lt_denom_iff.mpr (Int.fract_lt_one a)
  rw [fits_64, fits_64]
  omega

/-- All sums fit from the beginning on if the common denominator of the boundary phases is below
`2 ^ 126`. -/
theorem sumsFit_zero_of_common {b : BoundaryConditions} (hcommon : b.commonDenominator < 2 ^ 126)
    (windings : List Int) : SumsFit 0 windings b.conditions :=
  sumsFit_of_common hcommon b.commonDenominator_pos ⟨le_rfl, one_pos, one_dvd _⟩ windings
    fun _ hc => BoundaryConditions.den_dvd_commonDenominator hc

/-- The running sum over all dimensions, from the beginning. -/
theorem totalPhase_zero_eq_ok {b : BoundaryConditions}
    (hb : ∀ c ∈ b.conditions, c.phase.den < 2 ^ 63) (hcommon : b.commonDenominator < 2 ^ 126)
    (windings : List Int) :
    totalPhase 0 windings b.conditions = .ok (fract (b.twist windings)) := by
  rw [totalPhase_eq_ok le_rfl one_pos hb (sumsFit_zero_of_common hcommon windings), zero_add]

/-- The outcome for a site of the lattice's dimension with a basis index that exists, if all sums
of phases fit. -/
theorem enforceWithPhase_of_sumsFit {l : Lattice} {b : BoundaryConditions} {s : Site}
    (hl : l.SignedLengths) (hs : ∀ x ∈ s.coordinates, Fits 64 x)
    (hb : ∀ c ∈ b.conditions, c.phase.den < 2 ^ 63) (hbdim : b.dimension = l.dimension)
    (hdim : s.dimension = l.dimension) (hbasis : s.basisIndex < l.basisIndices)
    (hfit : SumsFit 0 (l.windings s) b.conditions) :
    l.enforceWithPhase b s =
      if (fract (b.twist (l.windings s))).den < 2 ^ 63 then
        .ok (l.image s, fract (b.twist (l.windings s)))
      else .error (.invalidBoundaryConditions b.text l.dimension) := by
  have total := totalPhase_eq_ok le_rfl one_pos hb hfit
  rw [zero_add] at total
  simp only [enforceWithPhase, BoundaryConditions.validate, if_pos hbdim, wrap_eq hl hs hdim,
    if_pos hbasis, total, Except.mapError, bind, Except.bind, fits_fract_iff]
  rfl

/-- The outcome for a site of the lattice's dimension with a basis index that exists, if the phases
have a common denominator that is not too large. -/
theorem enforceWithPhase_eq {l : Lattice} {b : BoundaryConditions} {s : Site}
    (hl : l.SignedLengths) (hs : ∀ x ∈ s.coordinates, Fits 64 x)
    (hb : ∀ c ∈ b.conditions, c.phase.den < 2 ^ 63) (hbdim : b.dimension = l.dimension)
    (hdim : s.dimension = l.dimension) (hbasis : s.basisIndex < l.basisIndices)
    (hcommon : b.commonDenominator < 2 ^ 126) :
    l.enforceWithPhase b s =
      if (fract (b.twist (l.windings s))).den < 2 ^ 63 then
        .ok (l.image s, fract (b.twist (l.windings s)))
      else .error (.invalidBoundaryConditions b.text l.dimension) :=
  enforceWithPhase_of_sumsFit hl hs hb hbdim hdim hbasis (sumsFit_zero_of_common hcommon _)

/-- **The phase of a site is exact.** Boundary conditions of another dimension than the
lattice are refused first, a site of another dimension second, and a basis index that does
not exist third. Any other site has its image, and the fractional part of the exact twist for
a phase: no word of 128 bits overflows on the way to it as long as the common denominator of
the boundary phases is below `2 ^ 126`, as it is in up to two dimensions, and it is refused
only if its denominator does not fit 64 bits. Moving the site by `k` lengths along a dimension
leaves the image as it is and adds `k` times the phase of that dimension. -/
theorem enforceWithPhase_exact {l : Lattice} {b : BoundaryConditions} {s : Site}
    (hl : ∀ length ∈ l.lengths, 0 < length ∧ length < 2 ^ 63)
    (hb : ∀ c ∈ b.conditions, c.phase.den < 2 ^ 63)
    (hs : ∀ x ∈ s.coordinates, Fits 64 x) :
    (b.dimension ≠ l.dimension →
      l.enforceWithPhase b s = .error (.invalidBoundaryConditions b.text l.dimension)) ∧
    (b.dimension = l.dimension → s.dimension ≠ l.dimension →
      l.enforceWithPhase b s = .error (.dimensionMismatch l.dimension s.dimension)) ∧
    (b.dimension = l.dimension → s.dimension = l.dimension →
      l.basisIndices ≤ s.basisIndex →
      l.enforceWithPhase b s = .error (.siteOutsideLattice (l.image s))) ∧
    (b.dimension = l.dimension → s.dimension = l.dimension →
      s.basisIndex < l.basisIndices → b.commonDenominator < 2 ^ 126 →
      totalPhase 0 (l.windings s) b.conditions = .ok (fract (b.twist (l.windings s))) ∧
      l.contains (l.image s) ∧
      ((fract (b.twist (l.windings s))).den < 2 ^ 63 →
        l.enforceWithPhase b s = .ok (l.image s, fract (b.twist (l.windings s)))) ∧
      (¬ (fract (b.twist (l.windings s))).den < 2 ^ 63 →
        l.enforceWithPhase b s = .error (.invalidBoundaryConditions b.text l.dimension)) ∧
      ∀ (d length : Nat) (c : BoundaryCondition) (k : Int) (w : Site) (phase : ℚ),
        l.lengths[d]? = some length → b.conditions[d]? = some c →
        (∀ x ∈ (s.move d (k * length)).coordinates, Fits 64 x) →
        l.enforceWithPhase b s = .ok (w, phase) →
        l.enforceWithPhase b (s.move d (k * length)) =
          if (fract (phase + k * c.phase)).den < 2 ^ 63 then
            .ok (w, fract (phase + k * c.phase))
          else .error (.invalidBoundaryConditions b.text l.dimension)) ∧
    (b.dimension ≤ 2 → b.commonDenominator < 2 ^ 126) := by
  refine ⟨?conditions, ?dimension, ?basis, ?phase, ?common⟩
  case conditions =>
    intro hbdim
    rw [enforceWithPhase, BoundaryConditions.validate, if_neg hbdim]
    rfl
  case dimension =>
    intro hbdim hdim
    rw [enforceWithPhase, BoundaryConditions.validate, if_pos hbdim, wrap, if_pos hdim]
    rfl
  case basis =>
    intro hbdim hdim hbasis
    rw [enforceWithPhase, BoundaryConditions.validate, if_pos hbdim, wrap_eq hl hs hdim,
      if_neg (Nat.not_lt.mpr hbasis)]
    rfl
  case phase =>
    intro hbdim hdim hbasis hcommon
    have outcome := enforceWithPhase_eq hl hs hb hbdim hdim hbasis hcommon
    refine ⟨totalPhase_zero_eq_ok hb hcommon _, ?_, ?_, ?_, ?_⟩
    · rw [contains_image hl hdim, decide_eq_true hbasis]
    · intro hden
      rw [outcome, if_pos hden]
    · intro hden
      rw [outcome, if_neg hden]
    intro d length c k w phase hlength hc hmoved hok
    rw [outcome] at hok
    split at hok
    · obtain ⟨rfl, rfl⟩ := Prod.mk.inj (Except.ok.inj hok)
      have hmdim : (s.move d (k * length)).dimension = l.dimension := by
        rw [← hdim]
        simp [Site.dimension, Site.move]
      rw [enforceWithPhase_eq hl hmoved hb hbdim hmdim hbasis hcommon, image_move hlength,
        twist_windings_move hl hlength hc hdim, fract_fract_add]
    · cases hok
  case common => exact fun hdim => BoundaryConditions.commonDenominator_lt hdim hb

/-- Coordinates at both ends of a word, wound around a lattice of one cell under phases with
coprime denominators. -/
theorem enforceWithPhase_exact_extreme :
    enforceWithPhase ⟨[1, 1], 1⟩
        ⟨[⟨1 / 1000003, by norm_num⟩, ⟨-5 / 999983, by norm_num⟩]⟩
        (Site.ofCell [2 ^ 63 - 1, -2 ^ 63]) =
      .ok (Site.ofCell [0, 0], 686197551747 / 999985999949) := by
  have exact := enforceWithPhase_exact (l := ⟨[1, 1], 1⟩)
    (b := ⟨[⟨1 / 1000003, by norm_num⟩, ⟨-5 / 999983, by norm_num⟩]⟩)
    (s := Site.ofCell [2 ^ 63 - 1, -2 ^ 63]) (by decide) (by decide +kernel) (by decide)
  have phase : fract (BoundaryConditions.twist
      ⟨[⟨1 / 1000003, by norm_num⟩, ⟨-5 / 999983, by norm_num⟩]⟩
      (windings ⟨[1, 1], 1⟩ (Site.ofCell [2 ^ 63 - 1, -2 ^ 63]))) =
        686197551747 / 999985999949 := by
    simp only [BoundaryConditions.twist, windings, Site.ofCell, List.zipWith_cons_cons,
      List.zipWith_nil_left, List.sum_cons, List.sum_nil]
    norm_num
  have outcome := (exact.2.2.2.1 rfl rfl (by decide) (by decide +kernel)).2.2.1
  rw [phase] at outcome
  exact outcome (by decide +kernel)

end Lattice

end LatticeObservables
