import LatticeObservables.Proofs.Lattice.Numbering
import LatticeObservables.Proofs.Lattice.SiteOrder

/-!
# The Order of Enumeration

The sites of a lattice are enumerated in colexicographic order: the basis index decides first, then
the last coordinate, and so on down to the first one, which runs fastest. It is not the order in
which sites are compared, where the first coordinate decides first.

That the numbers follow this order is a matter of digits: what is above a digit decides before it
does, because the digit is below the length that what is above counts in
(`Lattice.compare_add_mul`).

## Main statements

* `Lattice.compare_mixedRadixValue`: how numbers in a mixed radix system compare.
* `Lattice.numbering_colexicographic`: the numbers of sites and the list of all sites follow the
  colexicographic order.
-/

namespace LatticeObservables

/-- A site comes **before another in colexicographic order** if its basis index is smaller, or if
that is the same and its coordinates, read from the last one to the first, come first in a
dictionary. -/
def Site.ColexBefore (a b : Site) : Prop :=
  a.basisIndex < b.basisIndex ∨
    a.basisIndex = b.basisIndex ∧ a.coordinates.reverse < b.coordinates.reverse

/-- Behind lists of one length a coordinate decides only if **nothing before it** does. -/
theorem compare_append_singleton {xs ys : List Int} (h : xs.length = ys.length) (x y : Int) :
    compare (xs ++ [x]) (ys ++ [y]) = (compare xs ys).then (compare x y) := by
  induction xs generalizing ys with
  | nil =>
      obtain rfl := List.length_eq_zero_iff.mp h.symm
      simp [List.compare_cons_cons]
  | cons a xs ih =>
      obtain ⟨b, ys, rfl⟩ := List.exists_cons_of_length_eq_add_one h.symm
      rw [List.cons_append, List.cons_append, List.compare_cons_cons, List.compare_cons_cons,
        ih (Nat.succ.inj h), Ordering.then_assoc]

namespace Lattice

/-! ### Digits -/

/-- A digit decides between two numbers only if **what is above it** does not. -/
theorem compare_add_mul {length x y v w : Nat} (hx : x < length) (hy : y < length) :
    compare (x + length * v) (y + length * w) = (compare v w).then (compare x y) := by
  rcases Nat.lt_trichotomy v w with hlt | rfl | hgt
  · have h : x + length * v < y + length * w := Nat.lt_add_left y (add_mul_lt hx hlt)
    rw [Nat.compare_eq_lt.mpr h, Nat.compare_eq_lt.mpr hlt]
    rfl
  · rw [Std.ReflOrd.compare_self, Ordering.eq_then]
    simp [Nat.compare_eq_ite_lt]
  · have h : y + length * w < x + length * v := Nat.lt_add_left x (add_mul_lt hy hgt)
    rw [Nat.compare_eq_gt.mpr h, Nat.compare_eq_gt.mpr hgt]
    rfl

/-- Coordinates that lie within lengths are a digit of the first length and **coordinates that lie
within the rest**. -/
theorem exists_digit_of_inBlock {length : Nat} {rest : List Nat} {xs : List Int}
    (hlength : xs.length = (length :: rest).length) (hblock : inBlock xs (length :: rest)) :
    ∃ (digit : Nat) (others : List Int), xs = (digit : Int) :: others ∧ digit < length ∧
      others.length = rest.length ∧ inBlock others rest := by
  obtain ⟨x, others, rfl⟩ := List.exists_cons_of_length_eq_add_one hlength
  simp only [inBlock, Bool.and_eq_true, decide_eq_true_eq] at hblock
  obtain ⟨⟨hnonneg, hlt⟩, hothers⟩ := hblock
  obtain ⟨digit, rfl⟩ := Int.eq_ofNat_of_zero_le hnonneg
  exact ⟨digit, others, rfl, by omega, Nat.succ.inj hlength, hothers⟩

/-- Numbers in the mixed radix system of the lengths compare as **what is above all digits** does,
and then as the digits do from the last one to the first. -/
theorem compare_mixedRadixValue {lengths : List Nat} {xs ys : List Int} {q r : Nat}
    (hx : xs.length = lengths.length) (hxs : inBlock xs lengths)
    (hy : ys.length = lengths.length) (hys : inBlock ys lengths) :
    compare (mixedRadixValue lengths xs q) (mixedRadixValue lengths ys r) =
      (compare q r).then (compare xs.reverse ys.reverse) := by
  induction lengths generalizing xs ys with
  | nil =>
      obtain rfl := List.length_eq_zero_iff.mp hx
      obtain rfl := List.length_eq_zero_iff.mp hy
      simp [mixedRadixValue]
  | cons length rest ih =>
      obtain ⟨x, xs, rfl, hxlt, hx, hxs⟩ := exists_digit_of_inBlock hx hxs
      obtain ⟨y, ys, rfl, hylt, hy, hys⟩ := exists_digit_of_inBlock hy hys
      have hdigits : compare (x : Int) y = compare x y := by
        simp [Int.compare_eq_ite_lt, Nat.compare_eq_ite_lt]
      have hreverse : xs.reverse.length = ys.reverse.length := by
        rw [List.length_reverse, List.length_reverse, hx, hy]
      calc compare (x + length * mixedRadixValue rest xs q)
            (y + length * mixedRadixValue rest ys r)
          = ((compare q r).then (compare xs.reverse ys.reverse)).then (compare x y) := by
            rw [compare_add_mul hxlt hylt, ih hx hxs hy hys]
        _ = (compare q r).then
              (compare (xs.reverse ++ [(x : Int)]) (ys.reverse ++ [(y : Int)])) := by
            rw [Ordering.then_assoc, compare_append_singleton hreverse, hdigits]
        _ = (compare q r).then (compare ((x : Int) :: xs).reverse ((y : Int) :: ys).reverse) := by
            rw [List.reverse_cons, List.reverse_cons]

/-! ### Sites -/

variable {l : Lattice} {a b : Site} {m n : Nat}

/-- The number of a site is **below that of another** exactly if it comes before it. -/
theorem lt_iff_colexBefore (ha : l.indexOf? a = some m) (hb : l.indexOf? b = some n) :
    m < n ↔ a.ColexBefore b := by
  obtain ⟨hcontainsA, rfl⟩ := indexOf?_eq_some.mp ha
  obtain ⟨hcontainsB, rfl⟩ := indexOf?_eq_some.mp hb
  obtain ⟨hlengthA, hblockA, -⟩ := contains_iff.mp hcontainsA
  obtain ⟨hlengthB, hblockB, -⟩ := contains_iff.mp hcontainsB
  rw [← Nat.compare_eq_lt, compare_mixedRadixValue hlengthA hblockA hlengthB hblockB,
    Ordering.then_eq_lt, compare_coordinates_eq_lt, Nat.compare_eq_lt, Nat.compare_eq_eq,
    Site.ColexBefore]

/-- The list of all sites is **increasing** in colexicographic order. -/
theorem pairwise_sites (hl : ∀ length ∈ l.lengths, length ≤ 2 ^ 63) :
    l.sites.Pairwise Site.ColexBefore := by
  refine List.Pairwise.filterMap _ ?_ List.pairwise_lt_range
  intro m n hmn a ha b hb
  exact (lt_iff_colexBefore (indexOf?_of_siteAt? hl ha) (indexOf?_of_siteAt? hl hb)).mp hmn

/-! ### Enumeration -/

/-- **Sites are numbered in colexicographic order**, for any number of dimensions, as long as no
length is past `2 ^ 63` and the products of the first lengths and the count fit words of 64 bits.
Sites that lie in the lattice have numbers, which compare as the sites do by their basis index,
then by their last coordinate, and so on down to the first one. The list of all sites, which goes
through the numbers below the count, holds exactly those that lie in the lattice and is increasing
in this order. -/
theorem numbering_colexicographic (hwords : l.FitsWords)
    (hl : ∀ length ∈ l.lengths, length ≤ 2 ^ 63) :
    (∀ a b, l.contains a → l.contains b → ∃ m n,
      (l.indexOf? a = some m ∧ addUp a.basisIndex l.lengths a.coordinates 0 1 = .ok m) ∧
      (l.indexOf? b = some n ∧ addUp b.basisIndex l.lengths b.coordinates 0 1 = .ok n) ∧
      (m < n ↔ a.ColexBefore b)) ∧
    multiplyUp l.basisIndices l.lengths 1 = .ok l.totalSites ∧
    l.sites.Pairwise Site.ColexBefore ∧ ∀ s, s ∈ l.sites ↔ l.contains s := by
  refine ⟨?numbers, hwords.multiplyUp_eq, pairwise_sites hl, (sites_exact hl).2⟩
  case numbers =>
    intro a b ha hb
    obtain ⟨m, hm⟩ : ∃ m, l.indexOf? a = some m := ⟨_, indexOf?_eq_some.mpr ⟨ha, rfl⟩⟩
    obtain ⟨n, hn⟩ : ∃ n, l.indexOf? b = some n := ⟨_, indexOf?_eq_some.mpr ⟨hb, rfl⟩⟩
    exact ⟨m, n, ⟨hm, hwords.addUp_eq hm⟩, ⟨hn, hwords.addUp_eq hn⟩, lt_iff_colexBefore hm hn⟩

/-- On a ladder of `2 ^ 63` sites, the end of the first row comes before the start of the second
one, and the end of both rows before the start of the other basis site. -/
theorem numbering_colexicographic_ladder :
    let ladder : Lattice := ⟨[2 ^ 61, 2], 2⟩
    (∃ m n, ladder.indexOf? ⟨[2 ^ 61 - 1, 0], 0⟩ = some m ∧
      ladder.indexOf? ⟨[0, 1], 0⟩ = some n ∧ m < n) ∧
    (∃ m n, ladder.indexOf? ⟨[2 ^ 61 - 1, 1], 0⟩ = some m ∧
      ladder.indexOf? ⟨[0, 0], 1⟩ = some n ∧ m < n) ∧
    ladder.sites.Pairwise Site.ColexBefore := by
  intro ladder
  obtain ⟨numbers, -, increasing, -⟩ :=
    numbering_colexicographic (l := ladder) ⟨by decide, by decide⟩ (by decide)
  refine ⟨?rows, ?basis, increasing⟩
  case rows =>
    obtain ⟨m, n, ⟨hm, -⟩, ⟨hn, -⟩, horder⟩ :=
      numbers ⟨[2 ^ 61 - 1, 0], 0⟩ ⟨[0, 1], 0⟩ (by decide) (by decide)
    exact ⟨m, n, hm, hn, horder.mpr (.inr ⟨rfl, by decide⟩)⟩
  case basis =>
    obtain ⟨m, n, ⟨hm, -⟩, ⟨hn, -⟩, horder⟩ :=
      numbers ⟨[2 ^ 61 - 1, 1], 0⟩ ⟨[0, 0], 1⟩ (by decide) (by decide)
    exact ⟨m, n, hm, hn, horder.mpr (.inl (by decide))⟩

/-- The order in which sites are compared is another one: their first coordinate decides first. -/
example : compare (Site.ofCell [0, 1]) (Site.ofCell [1, 0]) = .lt ∧
    indexOf? ⟨[2, 2], 1⟩ (Site.ofCell [0, 1]) = some 2 ∧
    indexOf? ⟨[2, 2], 1⟩ (Site.ofCell [1, 0]) = some 1 := by decide

end Lattice

end LatticeObservables
