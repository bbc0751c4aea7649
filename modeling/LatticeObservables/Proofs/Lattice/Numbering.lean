import Mathlib.Data.List.Nodup
import LatticeObservables.Lattice.Cell
import LatticeObservables.Proofs.Arithmetic.Bounded

/-!
# The Numbering of Sites

The sites of a lattice are numbered without gaps: reading a number in the mixed radix system of
the lengths and adding the digits up again are inverse to each other. A digit is a 64-bit pattern
that is read as a signed coordinate, which makes the limit: digits of a length up to `2 ^ 63` are
coordinates that lie in the lattice, and a longer one has a digit that stands for a negative
coordinate (`Lattice.exists_not_inBlock_digits`). A lattice without sites has no numbers.

## Main statements

* `Lattice.mixedRadixValue_digits`, `Lattice.mixedRadixDigits_value`: reading and adding up.
* `Lattice.addUp_eq_ok`: adding up in words of 64 bits, from the fastest digit on.
* `Lattice.numbering_bijective`: sites and numbers.
-/

namespace LatticeObservables

namespace Lattice

/-! ### Digits -/

/-- A digit carries nothing over: with what is below its offset it stays below the next offset. -/
theorem add_mul_lt {sum offset digit length : Nat} (hsum : sum < offset) (hdigit : digit < length) :
    sum + offset * digit < offset * length := by
  calc sum + offset * digit < offset + offset * digit := Nat.add_lt_add_right hsum _
    _ = offset * (digit + 1) := by rw [Nat.mul_succ, Nat.add_comm]
    _ ≤ offset * length := Nat.mul_le_mul_left _ hdigit

/-- There is a digit for each length. -/
theorem length_mixedRadixDigits (lengths : List Nat) (n : Nat) :
    (mixedRadixDigits lengths n).1.length = lengths.length := by
  induction lengths generalizing n with
  | nil => rfl
  | cons length rest ih => simp [mixedRadixDigits, ih]

/-- A digit of a length up to `2 ^ 63` is read as it stands. -/
theorem signedReading_digit {length : Nat} (hpos : 0 < length) (hle : length ≤ 2 ^ 63) (n : Nat) :
    signedReading (n % length) = (n % length : Nat) := by
  have hdigit : n % length < length := Nat.mod_lt n hpos
  exact signedReading_of_lt (by omega)

/-- The quotient above the digits of a number below the count is below the count of the
quotients. -/
theorem quotient_lt {lengths : List Nat} {n b : Nat} (h : n < cellCount lengths * b) :
    (mixedRadixDigits lengths n).2 < b := by
  induction lengths generalizing n with
  | nil => simpa [cellCount, mixedRadixDigits] using h
  | cons length rest ih =>
      rw [cellCount, Nat.mul_assoc] at h
      exact ih (Nat.div_lt_of_lt_mul h)

/-- The digits of lengths up to `2 ^ 63` **lie within them**. -/
theorem inBlock_digits {lengths : List Nat} (h : ∀ length ∈ lengths, 0 < length ∧ length ≤ 2 ^ 63)
    (n : Nat) : inBlock (mixedRadixDigits lengths n).1 lengths := by
  induction lengths generalizing n with
  | nil => rfl
  | cons length rest ih =>
      obtain ⟨⟨hpos, hle⟩, hrest⟩ := List.forall_mem_cons.mp h
      simp only [mixedRadixDigits, inBlock, signedReading_digit hpos hle, ih hrest, Bool.and_true,
        Bool.and_eq_true, decide_eq_true_eq]
      exact ⟨Int.natCast_nonneg _, by exact_mod_cast Nat.mod_lt n hpos⟩

/-- Adding up the digits of a number **gives the number**. -/
theorem mixedRadixValue_digits {lengths : List Nat}
    (h : ∀ length ∈ lengths, 0 < length ∧ length ≤ 2 ^ 63) (n : Nat) :
    mixedRadixValue lengths (mixedRadixDigits lengths n).1 (mixedRadixDigits lengths n).2 = n := by
  induction lengths generalizing n with
  | nil => rfl
  | cons length rest ih =>
      obtain ⟨⟨hpos, hle⟩, hrest⟩ := List.forall_mem_cons.mp h
      simp only [mixedRadixDigits, mixedRadixValue, signedReading_digit hpos hle,
        Int.toNat_natCast, ih hrest]
      exact Nat.mod_add_div n length

/-- Reading a number that was added up gives **the digits** and the quotient. -/
theorem mixedRadixDigits_value {lengths : List Nat} {xs : List Int}
    (hlength : xs.length = lengths.length) (hblock : inBlock xs lengths)
    (hfits : ∀ x ∈ xs, Fits 64 x) (quotient : Nat) :
    mixedRadixDigits lengths (mixedRadixValue lengths xs quotient) = (xs, quotient) := by
  induction lengths generalizing xs with
  | nil =>
      obtain rfl := List.length_eq_zero_iff.mp hlength
      rfl
  | cons length rest ih =>
      obtain ⟨x, xs, rfl⟩ := List.exists_cons_of_length_eq_add_one hlength
      obtain ⟨hx, hxs⟩ := List.forall_mem_cons.mp hfits
      simp only [inBlock, Bool.and_eq_true, decide_eq_true_eq] at hblock
      obtain ⟨⟨hnonneg, hlt⟩, hrest⟩ := hblock
      rw [fits_64] at hx
      have hdigit : x.toNat < length := by omega
      have hsigned : signedReading x.toNat = x := by
        rw [signedReading_of_lt (by omega)]
        omega
      have hmod : (x.toNat + length * mixedRadixValue rest xs quotient) % length = x.toNat := by
        rw [Nat.add_mul_mod_self_left, Nat.mod_eq_of_lt hdigit]
      have hdiv : (x.toNat + length * mixedRadixValue rest xs quotient) / length =
          mixedRadixValue rest xs quotient := by
        rw [Nat.add_mul_div_left _ _ (by omega), Nat.div_eq_of_lt hdigit, Nat.zero_add]
      simp only [mixedRadixValue, mixedRadixDigits, hmod, hdiv, hsigned,
        ih (Nat.succ.inj hlength) hrest hxs]

/-- Digits that lie within the lengths add up to **less than the count**. -/
theorem mixedRadixValue_lt {lengths : List Nat} {xs : List Int} {quotient b : Nat}
    (hlength : xs.length = lengths.length) (hblock : inBlock xs lengths)
    (hquotient : quotient < b) :
    mixedRadixValue lengths xs quotient < cellCount lengths * b := by
  induction lengths generalizing xs with
  | nil => simpa [mixedRadixValue, cellCount] using hquotient
  | cons length rest ih =>
      obtain ⟨x, xs, rfl⟩ := List.exists_cons_of_length_eq_add_one hlength
      simp only [inBlock, Bool.and_eq_true, decide_eq_true_eq] at hblock
      obtain ⟨⟨hnonneg, hlt⟩, hrest⟩ := hblock
      have hdigit : x.toNat < length := by omega
      rw [cellCount, Nat.mul_assoc]
      exact add_mul_lt hdigit (ih (Nat.succ.inj hlength) hrest)

/-- A length past `2 ^ 63` has a digit that is read as a **negative coordinate**. -/
theorem exists_not_inBlock_digits {lengths : List Nat} {b length : Nat}
    (hpos : 0 < cellCount lengths * b) (hmem : length ∈ lengths) (hlong : 2 ^ 63 < length) :
    ∃ n < cellCount lengths * b, inBlock (mixedRadixDigits lengths n).1 lengths = false := by
  induction lengths with
  | nil => exact absurd hmem List.not_mem_nil
  | cons first rest ih =>
      rw [cellCount, Nat.mul_assoc] at hpos ⊢
      have hfirst : 0 < first := Nat.pos_of_mul_pos_right hpos
      have hrest : 0 < cellCount rest * b := Nat.pos_of_mul_pos_left hpos
      rcases List.mem_cons.mp hmem with rfl | hmem
      · refine ⟨2 ^ 63, ?_, ?_⟩
        · calc 2 ^ 63 < length := hlong
            _ ≤ length * (cellCount rest * b) := Nat.le_mul_of_pos_right _ hrest
        · have hnegative : ¬ 0 ≤ signedReading (2 ^ 63 % length) := by
            rw [Nat.mod_eq_of_lt hlong]
            decide
          simp only [mixedRadixDigits, inBlock, decide_eq_false hnegative, Bool.false_and]
      · -- The digit of a later length is that of the number with no digits before it.
        obtain ⟨n, hn, hnot⟩ := ih hrest hmem
        refine ⟨first * n, Nat.mul_lt_mul_of_pos_left hn hfirst, ?_⟩
        simp [mixedRadixDigits, inBlock, Nat.mul_div_cancel_left n hfirst, hnot]

/-! ### Words of 64 bits -/

/-- A number that has to fit an unsigned word of 64 bits. -/
def inWord (n : Nat) : Except Fault Nat :=
  if n < twoPower 64 then .ok n else .error .overflow

/-- A number that fits passes. -/
theorem inWord_of_lt {n : Nat} (h : n < 2 ^ 64) : inWord n = .ok n :=
  if_pos h

/-- The number of sites **multiplied up in words**, from the first length on, starting from
`product`. -/
def multiplyUp (basisIndices : Nat) : List Nat → (product : Nat) → Except Fault Nat
  | [], product => inWord (product * basisIndices)
  | length :: rest, product => do multiplyUp basisIndices rest (← inWord (product * length))

/-- The number of a site **added up in words**, from the fastest digit on: each digit counts as
often as `offset` says, which grows by the length of its dimension. -/
def addUp (basisIndex : Nat) : List Nat → List Int → (sum offset : Nat) → Except Fault Nat
  | length :: rest, x :: xs, sum, offset => do
    let sum ← inWord (sum + (← inWord (offset * x.toNat)))
    addUp basisIndex rest xs sum (← inWord (offset * length))
  | _, _, sum, offset => do inWord (sum + (← inWord (offset * basisIndex)))

/-- The number of sites of a lattice **fits a word** of 64 bits, and so does the product of any
number of its first lengths. -/
structure FitsWords (l : Lattice) : Prop where
  products : ∀ k ≤ l.dimension, cellCount (l.lengths.take k) < 2 ^ 64
  total : l.totalSites < 2 ^ 64

/-- Products that fit from the first length on fit from the second one on. -/
theorem products_of_cons {offset length : Nat} {rest : List Nat}
    (h : ∀ k ≤ (length :: rest).length, offset * cellCount ((length :: rest).take k) < 2 ^ 64) :
    offset * length < 2 ^ 64 ∧
      ∀ k ≤ rest.length, offset * length * cellCount (rest.take k) < 2 ^ 64 := by
  have hrest : ∀ k ≤ rest.length, offset * length * cellCount (rest.take k) < 2 ^ 64 := by
    intro k hk
    have hproduct := h (k + 1) (Nat.succ_le_succ hk)
    rwa [List.take_succ_cons, cellCount, ← Nat.mul_assoc] at hproduct
  exact ⟨by simpa [cellCount] using hrest 0 (Nat.zero_le _), hrest⟩

/-- No word overflows when the lengths are multiplied. -/
theorem multiplyUp_eq_ok {basisIndices product : Nat} {lengths : List Nat}
    (hproducts : ∀ k ≤ lengths.length, product * cellCount (lengths.take k) < 2 ^ 64)
    (htotal : product * (cellCount lengths * basisIndices) < 2 ^ 64) :
    multiplyUp basisIndices lengths product =
      .ok (product * (cellCount lengths * basisIndices)) := by
  induction lengths generalizing product with
  | nil =>
      rw [cellCount, Nat.one_mul] at htotal ⊢
      exact inWord_of_lt htotal
  | cons length rest ih =>
      obtain ⟨hnext, hrest⟩ := products_of_cons hproducts
      rw [cellCount, Nat.mul_assoc, ← Nat.mul_assoc product] at htotal ⊢
      exact bind_eq_ok.mpr ⟨_, inWord_of_lt hnext, ih hrest htotal⟩

/-- **No word overflows when the digits of a site are added up**: what is added up so far stays
below the offset, which is a product of lengths. -/
theorem addUp_eq_ok {basisIndices basisIndex sum offset : Nat} {lengths : List Nat} {xs : List Int}
    (hlength : xs.length = lengths.length) (hblock : inBlock xs lengths)
    (hbasis : basisIndex < basisIndices) (hsum : sum < offset)
    (hproducts : ∀ k ≤ lengths.length, offset * cellCount (lengths.take k) < 2 ^ 64)
    (htotal : offset * (cellCount lengths * basisIndices) < 2 ^ 64) :
    addUp basisIndex lengths xs sum offset =
      .ok (sum + offset * mixedRadixValue lengths xs basisIndex) := by
  induction lengths generalizing xs sum offset with
  | nil =>
      obtain rfl := List.length_eq_zero_iff.mp hlength
      rw [cellCount, Nat.one_mul] at htotal
      have hlast : sum + offset * basisIndex < 2 ^ 64 := (add_mul_lt hsum hbasis).trans htotal
      change (inWord (offset * basisIndex) >>= fun last => inWord (sum + last)) =
        .ok (sum + offset * basisIndex)
      exact bind_eq_ok.mpr ⟨_, inWord_of_lt (by omega), inWord_of_lt hlast⟩
  | cons length rest ih =>
      obtain ⟨x, xs, rfl⟩ := List.exists_cons_of_length_eq_add_one hlength
      simp only [inBlock, Bool.and_eq_true, decide_eq_true_eq] at hblock
      obtain ⟨⟨hnonneg, hlt⟩, hblock⟩ := hblock
      obtain ⟨hnext, hrest⟩ := products_of_cons hproducts
      have hnextSum : sum + offset * x.toNat < offset * length := add_mul_lt hsum (by omega)
      rw [cellCount, Nat.mul_assoc, ← Nat.mul_assoc offset] at htotal
      have hvalue : sum + offset * x.toNat + offset * length * mixedRadixValue rest xs basisIndex =
          sum + offset * mixedRadixValue (length :: rest) (x :: xs) basisIndex := by
        rw [mixedRadixValue, Nat.mul_add, Nat.mul_assoc, Nat.add_assoc]
      rw [addUp, ← hvalue]
      refine bind_eq_ok.mpr ⟨_, inWord_of_lt (by omega), bind_eq_ok.mpr ⟨_, inWord_of_lt (by omega),
        bind_eq_ok.mpr ⟨_, inWord_of_lt hnext, ?_⟩⟩⟩
      exact ih (Nat.succ.inj hlength) hblock hnextSum hrest htotal

/-! ### Sites and their numbers -/

/-- A lattice is built **exactly if it has sites**: a dimension, no length zero and a basis site. -/
theorem build_eq_ok_iff {lengths : List Nat} {basisIndices : Nat} {l : Lattice} :
    build lengths basisIndices = .ok l ↔
      lengths ≠ [] ∧ 0 ∉ lengths ∧ basisIndices ≠ 0 ∧ l = ⟨lengths, basisIndices⟩ := by
  rw [build]
  by_cases hnone : lengths = []
  · simp [hnone]
  by_cases hzero : 0 ∈ lengths
  · simp [hnone, hzero]
  by_cases hbasis : basisIndices = 0
  · simp [hnone, hzero, hbasis]
  · simp [hnone, hzero, hbasis, eq_comm]

/-- A site lies in a lattice if it has a coordinate within each length and a basis index that
exists. -/
theorem contains_iff {l : Lattice} {s : Site} :
    l.contains s ↔ s.coordinates.length = l.lengths.length ∧ inBlock s.coordinates l.lengths ∧
      s.basisIndex < l.basisIndices := by
  simp [contains, Site.dimension, dimension, and_assoc]

/-- The number of a site is what its digits add up to. -/
theorem indexOf?_eq_some {l : Lattice} {s : Site} {n : Nat} :
    l.indexOf? s = some n ↔
      l.contains s ∧ mixedRadixValue l.lengths s.coordinates s.basisIndex = n := by
  rw [indexOf?]
  split
  next h => simp [h]
  next h => simp [h]

/-- The site with a number has its digits for coordinates. -/
theorem siteAt?_eq_some {l : Lattice} {s : Site} {n : Nat} :
    l.siteAt? n = some s ↔
      n < l.totalSites ∧ mixedRadixDigits l.lengths n = (s.coordinates, s.basisIndex) := by
  obtain ⟨coordinates, basisIndex⟩ := s
  rw [siteAt?]
  split
  next h => simp [h, Prod.ext_iff]
  next h => simp [h]

/-- A lattice with sites has no length zero. -/
theorem length_pos_of_totalSites_pos {l : Lattice} (h : 0 < l.totalSites) :
    ∀ length ∈ l.lengths, 0 < length := by
  have hcells : ∀ lengths, 0 < cellCount lengths → ∀ length ∈ lengths, 0 < length := by
    intro lengths
    induction lengths with
    | nil => simp
    | cons first rest ih =>
        intro hpos
        rw [cellCount] at hpos
        rw [List.forall_mem_cons]
        exact ⟨Nat.pos_of_mul_pos_right hpos, ih (Nat.pos_of_mul_pos_left hpos)⟩
  exact hcells l.lengths (Nat.pos_of_mul_pos_right h)

/-- The number of a site is **below the count of sites**. -/
theorem lt_of_indexOf? {l : Lattice} {s : Site} {n : Nat} (h : l.indexOf? s = some n) :
    n < l.totalSites := by
  obtain ⟨hcontains, rfl⟩ := indexOf?_eq_some.mp h
  obtain ⟨hlength, hblock, hbasis⟩ := contains_iff.mp hcontains
  exact mixedRadixValue_lt hlength hblock hbasis

/-- The site with the number of a site is **that site**. -/
theorem siteAt?_of_indexOf? {l : Lattice} {s : Site} {n : Nat}
    (hs : ∀ x ∈ s.coordinates, Fits 64 x) (h : l.indexOf? s = some n) : l.siteAt? n = some s := by
  refine siteAt?_eq_some.mpr ⟨lt_of_indexOf? h, ?_⟩
  obtain ⟨hcontains, rfl⟩ := indexOf?_eq_some.mp h
  obtain ⟨hlength, hblock, -⟩ := contains_iff.mp hcontains
  exact mixedRadixDigits_value hlength hblock hs s.basisIndex

/-- The number of the site with a number is **that number** if no length is past `2 ^ 63`. -/
theorem indexOf?_of_siteAt? {l : Lattice} {s : Site} {n : Nat}
    (hl : ∀ length ∈ l.lengths, length ≤ 2 ^ 63) (h : l.siteAt? n = some s) :
    l.indexOf? s = some n := by
  obtain ⟨hn, hdigits⟩ := siteAt?_eq_some.mp h
  have hlengths : ∀ length ∈ l.lengths, 0 < length ∧ length ≤ 2 ^ 63 := fun length hmem =>
    ⟨length_pos_of_totalSites_pos (by omega) length hmem, hl length hmem⟩
  have hlength := length_mixedRadixDigits l.lengths n
  have hblock := inBlock_digits hlengths n
  have hbasis := quotient_lt hn
  have hvalue := mixedRadixValue_digits hlengths n
  rw [hdigits] at hlength hblock hbasis hvalue
  exact indexOf?_eq_some.mpr ⟨contains_iff.mpr ⟨hlength, hblock, hbasis⟩, hvalue⟩

/-- Every number below the count is the number of its site exactly if **no length is past
`2 ^ 63`**. -/
theorem roundTrip_iff {l : Lattice} (hpos : 0 < l.totalSites) :
    (∀ n < l.totalSites, (l.siteAt? n).bind l.indexOf? = some n) ↔
      ∀ length ∈ l.lengths, length ≤ 2 ^ 63 := by
  constructor
  · intro hall length hmem
    by_contra hlong
    obtain ⟨n, hn, hnot⟩ := exists_not_inBlock_digits hpos hmem (Nat.lt_of_not_le hlong)
    obtain ⟨s, hs, hindex⟩ := Option.bind_eq_some_iff.mp (hall n hn)
    obtain ⟨-, hdigits⟩ := siteAt?_eq_some.mp hs
    obtain ⟨-, hblock, -⟩ := contains_iff.mp (indexOf?_eq_some.mp hindex).1
    rw [hdigits] at hnot
    rw [hnot] at hblock
    cases hblock
  · intro hl n hn
    obtain ⟨s, hs⟩ : ∃ s, l.siteAt? n = some s :=
      ⟨⟨_, _⟩, siteAt?_eq_some.mpr ⟨hn, rfl⟩⟩
    rw [hs, Option.bind_some]
    exact indexOf?_of_siteAt? hl hs

/-- A site that lies in a lattice without a length past `2 ^ 63` has coordinates that fit. -/
theorem fits_of_contains {l : Lattice} {s : Site} (hl : ∀ length ∈ l.lengths, length ≤ 2 ^ 63)
    (h : l.contains s) : ∀ x ∈ s.coordinates, Fits 64 x := by
  obtain ⟨hlength, hblock, -⟩ := contains_iff.mp h
  generalize s.coordinates = xs at hlength hblock
  generalize l.lengths = lengths at hl hlength hblock
  induction lengths generalizing xs with
  | nil =>
      obtain rfl := List.length_eq_zero_iff.mp hlength
      simp
  | cons length rest ih =>
      obtain ⟨x, xs, rfl⟩ := List.exists_cons_of_length_eq_add_one hlength
      simp only [inBlock, Bool.and_eq_true, decide_eq_true_eq] at hblock
      obtain ⟨⟨hnonneg, hlt⟩, hblock⟩ := hblock
      obtain ⟨hle, hrest⟩ := List.forall_mem_cons.mp hl
      rw [List.forall_mem_cons, fits_64]
      exact ⟨by omega, ih xs hrest (Nat.succ.inj hlength) hblock⟩

/-- The sites are listed **each of them once** if no length is past `2 ^ 63`. -/
theorem sites_exact {l : Lattice} (hl : ∀ length ∈ l.lengths, length ≤ 2 ^ 63) :
    l.sites.Nodup ∧ ∀ s, s ∈ l.sites ↔ l.contains s := by
  have hsite : ∀ n s, l.siteAt? n = some s → l.indexOf? s = some n :=
    fun n s hs => indexOf?_of_siteAt? hl hs
  constructor
  · refine List.Nodup.filterMap ?_ List.nodup_range
    intro n m s hn hm
    exact Option.some.inj ((hsite n s hn).symm.trans (hsite m s hm))
  · intro s
    simp only [sites, List.mem_filterMap, List.mem_range]
    constructor
    · rintro ⟨n, -, hn⟩
      exact (indexOf?_eq_some.mp (hsite n s hn)).1
    · intro hcontains
      have hindex := indexOf?_eq_some.mpr ⟨hcontains, rfl⟩
      exact ⟨_, lt_of_indexOf? hindex, siteAt?_of_indexOf? (fits_of_contains hl hcontains) hindex⟩

/-! ### Words of 64 bits -/

/-- Products that fit words do so when they are multiplied up from one. -/
theorem FitsWords.fromOne {l : Lattice} (h : l.FitsWords) :
    (∀ k ≤ l.lengths.length, 1 * cellCount (l.lengths.take k) < 2 ^ 64) ∧
      1 * (cellCount l.lengths * l.basisIndices) < 2 ^ 64 := by
  simp only [Nat.one_mul]
  exact ⟨h.products, h.total⟩

/-- The number of sites is computed in words that it fits. -/
theorem FitsWords.multiplyUp_eq {l : Lattice} (h : l.FitsWords) :
    multiplyUp l.basisIndices l.lengths 1 = .ok l.totalSites := by
  rw [multiplyUp_eq_ok h.fromOne.1 h.fromOne.2, Nat.one_mul, totalSites]

/-- The number of a site is computed in words that the number of sites fits. -/
theorem FitsWords.addUp_eq {l : Lattice} {s : Site} {n : Nat} (h : l.FitsWords)
    (hs : l.indexOf? s = some n) :
    addUp s.basisIndex l.lengths s.coordinates 0 1 = .ok n := by
  obtain ⟨hcontains, rfl⟩ := indexOf?_eq_some.mp hs
  obtain ⟨hlength, hblock, hbasis⟩ := contains_iff.mp hcontains
  rw [addUp_eq_ok hlength hblock hbasis Nat.zero_lt_one h.fromOne.1 h.fromOne.2, Nat.zero_add,
    Nat.one_mul]

/-! ### The numbering -/

/-- **The numbering of sites is a bijection**, for lattices that were checked and for those that
have a length zero, no basis site or no dimension. There is a site for each number below the
count, and a number below the count for each site that lies in the lattice, which leads back to
the site. If there are sites, all numbers lead back to themselves exactly if no length is past
`2 ^ 63`, and the sites of such a lattice are listed each of them once. As long as the products of
the first lengths and the count fit words of 64 bits, no word overflows when the count or the
number of a site is computed from the first length on. -/
theorem numbering_bijective {l : Lattice} (h : l.FitsWords) :
    multiplyUp l.basisIndices l.lengths 1 = .ok l.totalSites ∧
    (∀ n, (l.siteAt? n).isSome ↔ n < l.totalSites) ∧
    (∀ s, (l.indexOf? s).isSome ↔ l.contains s) ∧
    (∀ s n, l.indexOf? s = some n →
      n < l.totalSites ∧ addUp s.basisIndex l.lengths s.coordinates 0 1 = .ok n ∧
        ((∀ x ∈ s.coordinates, Fits 64 x) → l.siteAt? n = some s)) ∧
    (0 < l.totalSites →
      ((∀ n < l.totalSites, (l.siteAt? n).bind l.indexOf? = some n) ↔
        ∀ length ∈ l.lengths, length ≤ 2 ^ 63)) ∧
    ((∀ length ∈ l.lengths, length ≤ 2 ^ 63) →
      l.sites.Nodup ∧ ∀ s, s ∈ l.sites ↔ l.contains s) := by
  refine ⟨h.multiplyUp_eq, ?site, ?number, ?back, roundTrip_iff, sites_exact⟩
  case site =>
    intro n
    rw [siteAt?]
    split <;> simp_all
  case number =>
    intro s
    rw [indexOf?]
    split <;> simp_all
  case back =>
    intro s n hindex
    exact ⟨lt_of_indexOf? hindex, h.addUp_eq hindex, fun hs => siteAt?_of_indexOf? hs hindex⟩

/-- The last site of the longest circle whose numbers all lead back to themselves, and a circle of
one more cell, where one does not. -/
theorem numbering_bijective_limit :
    ((siteAt? ⟨[1, 2 ^ 63], 1⟩ (2 ^ 63 - 1)).bind (indexOf? ⟨[1, 2 ^ 63], 1⟩) =
      some (2 ^ 63 - 1)) ∧
    ¬ ∀ n < totalSites ⟨[2 ^ 63 + 1], 1⟩,
      (siteAt? ⟨[2 ^ 63 + 1], 1⟩ n).bind (indexOf? ⟨[2 ^ 63 + 1], 1⟩) = some n := by
  have longest := numbering_bijective (l := ⟨[1, 2 ^ 63], 1⟩) ⟨by decide, by decide⟩
  have longer := numbering_bijective (l := ⟨[2 ^ 63 + 1], 1⟩) ⟨by decide, by decide⟩
  obtain ⟨-, -, -, -, roundTrip, -⟩ := longest
  obtain ⟨-, -, -, -, roundTrip', -⟩ := longer
  refine ⟨(roundTrip (by decide)).mpr (by decide) _ (by decide), ?_⟩
  rw [roundTrip' (by decide)]
  decide

end Lattice

end LatticeObservables
