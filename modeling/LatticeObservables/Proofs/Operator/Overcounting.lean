import Mathlib.Data.Finset.Prod
import Mathlib.Data.Set.Card
import Mathlib.Data.Sym.Sym2
import LatticeObservables.Proofs.Boundary.Twist
import LatticeObservables.Proofs.Operator.Composite

/-!
# How Often a Sum over Shifts Counts a Bond

A sum over the shifts of a two-dimensional lattice goes through the bonds and plaquettes of all
cells, and the bonds of different cells can be the same one on the torus. Along a dimension of
length two the bonds of both cells are, and along any other none are, so that the divisors of a
Hamiltonian are how often each bond is counted, and their product how often each plaquette is.

## Main statements

* `CellCircle.sharesBond_iff`: which cells of a circle have the same bond.
* `Lattice.IsTorus.bond_right_eq_iff`, `Lattice.IsTorus.bond_above_eq_iff`,
  `Lattice.IsTorus.plaquette_eq_iff`: which cells of a torus have the same bond or plaquette.
* `TJKHamiltonian.build_divisors_count`: the divisors count the cells that share one.
-/

namespace LatticeObservables

/-! ### Circles of cells -/

namespace CellCircle

/-- The cell after a cell of a **circle** of cells. -/
def next (length : Nat) (x : Int) : Int :=
  (x + 1) % length

/-- The cells of a circle that **share the bond** between a cell and the next one. -/
def sharing (length : Nat) (x : Int) : Finset Int :=
  if length = 2 then {0, 1} else {x}

variable {length : Nat} {x x' : Int}

/-- The cell after the last one is the first. -/
theorem next_eq (hx : 0 ≤ x ∧ x < length) :
    next length x = if x + 1 = length then 0 else x + 1 := by
  rw [next]
  split
  next hlast => rw [hlast, Int.emod_self]
  next hlast => exact Int.emod_eq_of_lt (by omega) (by omega)

/-- Cells share a bond if they **have the same two ends**, in the same order or the other way
round. -/
theorem sharesBond_iff (hx : 0 ≤ x ∧ x < length) (hx' : 0 ≤ x' ∧ x' < length) :
    (x' = x ∧ next length x' = next length x ∨ x' = next length x ∧ next length x' = x) ↔
      x' ∈ sharing length x := by
  rw [next_eq hx, next_eq hx', sharing]
  by_cases htwo : length = 2
  · rw [if_pos htwo, Finset.mem_insert, Finset.mem_singleton]
    split <;> split <;> omega
  · -- Going round in two steps takes two cells, and with one cell both ends are that cell.
    rw [if_neg htwo, Finset.mem_singleton]
    split <;> split <;> omega

/-- The cells that share a bond are cells of the circle. -/
theorem mem_of_mem_sharing (hx : 0 ≤ x ∧ x < length) (h : x' ∈ sharing length x) :
    0 ≤ x' ∧ x' < length := by
  rw [sharing] at h
  split at h
  next htwo =>
    rw [Finset.mem_insert, Finset.mem_singleton] at h
    omega
  next htwo =>
    rw [Finset.mem_singleton] at h
    omega

/-- The **divisor** of a length is how many cells share a bond. -/
theorem card_sharing (length : Nat) (x : Int) :
    (sharing length x).card = TJKHamiltonian.divisor length := by
  rw [sharing, TJKHamiltonian.divisor]
  split <;> rfl

end CellCircle

/-! ### Cells of the plane -/

namespace Lattice

/-- A site is a **unit cell** of a lattice: it lies in it and has basis index zero. -/
def IsCell (l : Lattice) (r : Site) : Prop :=
  l.contains r ∧ r.basisIndex = 0

/-- The **bond** of a cell along a dimension: the pair of the cell and its neighbour on the
torus. -/
def bond (l : Lattice) (d : Nat) (r : Site) : Except ConstructionError (Sym2 Site) := do
  return s(← l.enforce r, ← l.enforce (r.move d 1))

/-- The **plaquette** of a cell: the cell, its neighbours along both dimensions and their common
neighbour, as a set of sites of the torus. -/
def plaquette (l : Lattice) (r : Site) : Except ConstructionError (Finset Site) := do
  let corners ← [r, r.move 0 1, (r.move 0 1).move 1 1, r.move 1 1].mapM l.enforce
  return corners.toFinset

/-- A lattice is a **torus** of cells: it has two dimensions, with lengths that a signed word of 64
bits holds, and there is a basis site. -/
structure IsTorus (l : Lattice) (lengthX lengthY : Nat) : Prop where
  lengths : l.lengths = [lengthX, lengthY]
  signed : l.SignedLengths
  basis : 0 < l.basisIndices

variable {l : Lattice} {lengthX lengthY : Nat} {x y x' y' : Int}

/-- The cells of a torus have coordinates within its lengths. -/
theorem IsTorus.isCell_iff (h : l.IsTorus lengthX lengthY) {r : Site} :
    l.IsCell r ↔ ∃ x y : Int, r = Site.ofCell [x, y] ∧
      (0 ≤ x ∧ x < lengthX) ∧ 0 ≤ y ∧ y < lengthY := by
  obtain ⟨coordinates, basisIndex⟩ := r
  constructor
  · rintro ⟨hcontains, rfl⟩
    simp only [contains, h.lengths, Site.dimension, dimension, Bool.and_eq_true, beq_iff_eq,
      decide_eq_true_eq, List.length_cons, List.length_nil] at hcontains
    obtain ⟨⟨hdim, hblock⟩, -⟩ := hcontains
    obtain ⟨x, y, rfl⟩ := List.length_eq_two.mp hdim
    simp only [inBlock, Bool.and_eq_true, decide_eq_true_eq, and_true] at hblock
    exact ⟨x, y, rfl, hblock⟩
  · rintro ⟨x, y, hr, hblock⟩
    obtain ⟨rfl, rfl⟩ := Site.mk.inj hr
    refine ⟨?_, rfl⟩
    simp [contains, h.lengths, Site.dimension, dimension, inBlock, hblock, h.basis]

/-- Cells are the same if their coordinates are. -/
theorem ofCell_inj : Site.ofCell [x', y'] = Site.ofCell [x, y] ↔ x' = x ∧ y' = y := by
  simp [Site.ofCell]

/-- Different coordinates are different cells. -/
theorem injective_ofCell : Function.Injective fun c : Int × Int => Site.ofCell [c.1, c.2] :=
  fun _ _ hc => Prod.ext_iff.mpr (ofCell_inj.mp hc)

/-- The lengths of a torus fit signed words, so that those of its cells have neighbours. -/
theorem IsTorus.fits (h : l.IsTorus lengthX lengthY) (hx : 0 ≤ x ∧ x < lengthX)
    (hy : 0 ≤ y ∧ y < lengthY) :
    (Fits 64 x ∧ Fits 64 (x + 1)) ∧ Fits 64 y ∧ Fits 64 (y + 1) := by
  have hsigned := h.signed
  simp only [SignedLengths, h.lengths, List.mem_cons, List.not_mem_nil, or_false,
    forall_eq_or_imp, forall_eq] at hsigned
  simp only [fits_64]
  omega

/-- The periodic image of a cell of the plane. -/
theorem IsTorus.enforce_ofCell (h : l.IsTorus lengthX lengthY) (hx : Fits 64 x) (hy : Fits 64 y) :
    l.enforce (Site.ofCell [x, y]) = .ok (Site.ofCell [x % lengthX, y % lengthY]) := by
  have himage : l.image (Site.ofCell [x, y]) = Site.ofCell [x % lengthX, y % lengthY] := by
    rw [image, h.lengths]
    rfl
  have hdim : (Site.ofCell [x, y]).dimension = l.dimension := by
    rw [dimension, h.lengths]
    rfl
  have hfits : ∀ z ∈ (Site.ofCell [x, y]).coordinates, Fits 64 z := by
    simpa [Site.ofCell] using ⟨hx, hy⟩
  rw [enforce_eq_image h.signed hfits hdim h.basis, himage]

open CellCircle (next sharing)

/-- A cell and its neighbours on the torus. -/
theorem IsTorus.enforce_neighbours (h : l.IsTorus lengthX lengthY) (hx : 0 ≤ x ∧ x < lengthX)
    (hy : 0 ≤ y ∧ y < lengthY) :
    l.enforce (Site.ofCell [x, y]) = .ok (Site.ofCell [x, y]) ∧
    l.enforce (Site.ofCell [x + 1, y]) = .ok (Site.ofCell [next lengthX x, y]) ∧
    l.enforce (Site.ofCell [x, y + 1]) = .ok (Site.ofCell [x, next lengthY y]) ∧
    l.enforce (Site.ofCell [x + 1, y + 1]) =
      .ok (Site.ofCell [next lengthX x, next lengthY y]) := by
  obtain ⟨⟨fitsX, fitsX'⟩, fitsY, fitsY'⟩ := h.fits hx hy
  have hxx : x % lengthX = x := Int.emod_eq_of_lt hx.1 hx.2
  have hyy : y % lengthY = y := Int.emod_eq_of_lt hy.1 hy.2
  rw [h.enforce_ofCell fitsX fitsY, h.enforce_ofCell fitsX' fitsY, h.enforce_ofCell fitsX fitsY',
    h.enforce_ofCell fitsX' fitsY', hxx, hyy]
  exact ⟨rfl, rfl, rfl, rfl⟩

/-- The bond of a cell along the first dimension. -/
theorem IsTorus.bond_right (h : l.IsTorus lengthX lengthY) (hx : 0 ≤ x ∧ x < lengthX)
    (hy : 0 ≤ y ∧ y < lengthY) :
    l.bond 0 (Site.ofCell [x, y]) =
      .ok s(Site.ofCell [x, y], Site.ofCell [next lengthX x, y]) := by
  obtain ⟨hcell, hright, -, -⟩ := h.enforce_neighbours hx hy
  exact bind_eq_ok.mpr ⟨_, hcell, bind_eq_ok.mpr ⟨_, hright, rfl⟩⟩

/-- The bond of a cell along the second dimension. -/
theorem IsTorus.bond_above (h : l.IsTorus lengthX lengthY) (hx : 0 ≤ x ∧ x < lengthX)
    (hy : 0 ≤ y ∧ y < lengthY) :
    l.bond 1 (Site.ofCell [x, y]) =
      .ok s(Site.ofCell [x, y], Site.ofCell [x, next lengthY y]) := by
  obtain ⟨hcell, -, habove, -⟩ := h.enforce_neighbours hx hy
  exact bind_eq_ok.mpr ⟨_, hcell, bind_eq_ok.mpr ⟨_, habove, rfl⟩⟩

/-- The plaquette of a cell: the corners are all combinations of two coordinates. -/
theorem IsTorus.plaquette_eq (h : l.IsTorus lengthX lengthY) (hx : 0 ≤ x ∧ x < lengthX)
    (hy : 0 ≤ y ∧ y < lengthY) :
    l.plaquette (Site.ofCell [x, y]) =
      .ok ((({x, next lengthX x} : Finset Int) ×ˢ ({y, next lengthY y} : Finset Int)).image
        fun c => Site.ofCell [c.1, c.2]) := by
  obtain ⟨hcell, hright, habove, hdiagonal⟩ := h.enforce_neighbours hx hy
  have hcorners := mapM_eq_ok.mpr
    (.cons hcell (.cons hright (.cons hdiagonal (.cons habove .nil))))
  refine bind_eq_ok.mpr ⟨_, hcorners, congrArg Except.ok ?_⟩
  ext site
  simp only [List.toFinset_cons, List.toFinset_nil, Finset.mem_insert, Finset.mem_image,
    Finset.mem_product, Finset.mem_singleton]
  constructor
  · rintro (rfl | rfl | rfl | rfl | hnone)
    · exact ⟨(x, y), ⟨.inl rfl, .inl rfl⟩, rfl⟩
    · exact ⟨(next lengthX x, y), ⟨.inr rfl, .inl rfl⟩, rfl⟩
    · exact ⟨(next lengthX x, next lengthY y), ⟨.inr rfl, .inr rfl⟩, rfl⟩
    · exact ⟨(x, next lengthY y), ⟨.inl rfl, .inr rfl⟩, rfl⟩
    · exact absurd hnone (Finset.notMem_empty _)
  · rintro ⟨⟨a, b⟩, ⟨rfl | rfl, rfl | rfl⟩, rfl⟩ <;> simp

/-- Cells have the same bond along the first dimension if they **share it in their row**. -/
theorem IsTorus.bond_right_eq_iff (h : l.IsTorus lengthX lengthY) (hx : 0 ≤ x ∧ x < lengthX)
    (hy : 0 ≤ y ∧ y < lengthY) (hx' : 0 ≤ x' ∧ x' < lengthX) (hy' : 0 ≤ y' ∧ y' < lengthY) :
    l.bond 0 (Site.ofCell [x', y']) = l.bond 0 (Site.ofCell [x, y]) ↔
      x' ∈ sharing lengthX x ∧ y' ∈ ({y} : Finset Int) := by
  rw [h.bond_right hx hy, h.bond_right hx' hy', Except.ok.injEq, Sym2.eq_iff,
    ← CellCircle.sharesBond_iff hx hx', Finset.mem_singleton]
  simp only [ofCell_inj]
  tauto

/-- Cells have the same bond along the second dimension if they **share it in their column**. -/
theorem IsTorus.bond_above_eq_iff (h : l.IsTorus lengthX lengthY) (hx : 0 ≤ x ∧ x < lengthX)
    (hy : 0 ≤ y ∧ y < lengthY) (hx' : 0 ≤ x' ∧ x' < lengthX) (hy' : 0 ≤ y' ∧ y' < lengthY) :
    l.bond 1 (Site.ofCell [x', y']) = l.bond 1 (Site.ofCell [x, y]) ↔
      x' ∈ ({x} : Finset Int) ∧ y' ∈ sharing lengthY y := by
  rw [h.bond_above hx hy, h.bond_above hx' hy', Except.ok.injEq, Sym2.eq_iff,
    ← CellCircle.sharesBond_iff hy hy', Finset.mem_singleton]
  simp only [ofCell_inj]
  tauto

/-- Cells have the same plaquette if they share the bonds of **their rows and of their
columns**. -/
theorem IsTorus.plaquette_eq_iff (h : l.IsTorus lengthX lengthY) (hx : 0 ≤ x ∧ x < lengthX)
    (hy : 0 ≤ y ∧ y < lengthY) (hx' : 0 ≤ x' ∧ x' < lengthX) (hy' : 0 ≤ y' ∧ y' < lengthY) :
    l.plaquette (Site.ofCell [x', y']) = l.plaquette (Site.ofCell [x, y]) ↔
      x' ∈ sharing lengthX x ∧ y' ∈ sharing lengthY y := by
  rw [h.plaquette_eq hx hy, h.plaquette_eq hx' hy', Except.ok.injEq,
    (Finset.image_injective injective_ofCell).eq_iff, ← Finset.coe_inj]
  -- A product of sets that are not empty is known by its factors.
  rw [Finset.coe_product, Finset.coe_product, Set.prod_eq_prod_iff_of_nonempty (by simp)]
  simp only [Finset.coe_pair, Set.pair_eq_pair_iff]
  rw [CellCircle.sharesBond_iff hx hx', CellCircle.sharesBond_iff hy hy']

/-- The number of cells with coordinates in two sets. -/
theorem IsTorus.ncard_cells (h : l.IsTorus lengthX lengthY) {p : Site → Prop} {xs ys : Finset Int}
    (hxs : ∀ x ∈ xs, 0 ≤ x ∧ x < lengthX) (hys : ∀ y ∈ ys, 0 ≤ y ∧ y < lengthY)
    (hp : ∀ x y : Int, 0 ≤ x ∧ x < lengthX → 0 ≤ y ∧ y < lengthY →
      (p (Site.ofCell [x, y]) ↔ x ∈ xs ∧ y ∈ ys)) :
    {r | l.IsCell r ∧ p r}.ncard = xs.card * ys.card := by
  have hcells : {r | l.IsCell r ∧ p r} =
      ((xs ×ˢ ys).image fun c => Site.ofCell [c.1, c.2] : Finset Site) := by
    ext r
    simp only [Set.mem_ofPred_eq, h.isCell_iff, Finset.coe_image, Set.mem_image,
      Finset.mem_coe, Finset.mem_product, Prod.exists]
    constructor
    · rintro ⟨⟨x, y, rfl, hx, hy⟩, hr⟩
      exact ⟨x, y, (hp x y hx hy).mp hr, rfl⟩
    · rintro ⟨x, y, ⟨hx, hy⟩, rfl⟩
      exact ⟨⟨x, y, rfl, hxs x hx, hys y hy⟩, (hp x y (hxs x hx) (hys y hy)).mpr ⟨hx, hy⟩⟩
  rw [hcells, Set.ncard_coe_finset, Finset.card_image_of_injective _ injective_ofCell,
    Finset.card_product]

end Lattice

/-! ### Divisors -/

open CellCircle (sharing)

/-- **The divisors of a Hamiltonian are how often the sum over shifts counts.** The Hamiltonian of
a two-dimensional lattice can be built, and on the torus every cell has a bond along each
dimension and a plaquette. The number of cells with the same bond is the divisor of its dimension,
and the number of cells with the same plaquette is the product of both divisors. -/
theorem TJKHamiltonian.build_divisors_count {l : Lattice} {b : BoundaryConditions}
    (hdim : l.dimension = 2) (hl : ∀ length ∈ l.lengths, 0 < length ∧ length < 2 ^ 63)
    (hb : b.dimension = 2) :
    ∃ h, TJKHamiltonian.build b l = .ok h ∧ ∀ r, l.IsCell r →
      (∃ bond, l.bond 0 r = .ok bond ∧
        {r' | l.IsCell r' ∧ l.bond 0 r' = .ok bond}.ncard = h.divX) ∧
      (∃ bond, l.bond 1 r = .ok bond ∧
        {r' | l.IsCell r' ∧ l.bond 1 r' = .ok bond}.ncard = h.divY) ∧
      ∃ plaquette, l.plaquette r = .ok plaquette ∧
        {r' | l.IsCell r' ∧ l.plaquette r' = .ok plaquette}.ncard = h.divX * h.divY := by
  obtain ⟨lengthX, lengthY, hlengths⟩ := List.length_eq_two.mp hdim
  obtain ⟨h, hbuild, hdivX, hdivY⟩ := exists_build hlengths hb
  refine ⟨h, hbuild, ?_⟩
  intro r hr
  have hbasis : 0 < l.basisIndices := by
    obtain ⟨hcontains, hzero⟩ := hr
    simp only [Lattice.contains, hzero, Bool.and_eq_true, decide_eq_true_eq] at hcontains
    exact hcontains.2
  have torus : l.IsTorus lengthX lengthY := ⟨hlengths, hl, hbasis⟩
  obtain ⟨x, y, rfl, hx, hy⟩ := torus.isCell_iff.mp hr
  have inRow : ∀ x' ∈ sharing lengthX x, 0 ≤ x' ∧ x' < lengthX :=
    fun _ => CellCircle.mem_of_mem_sharing hx
  have inColumn : ∀ y' ∈ sharing lengthY y, 0 ≤ y' ∧ y' < lengthY :=
    fun _ => CellCircle.mem_of_mem_sharing hy
  have alone : ∀ {z : Int} {length : Nat}, 0 ≤ z ∧ z < length →
      ∀ z' ∈ ({z} : Finset Int), 0 ≤ z' ∧ z' < length := by
    intro z length hz z' hz'
    rwa [Finset.mem_singleton.mp hz']
  refine ⟨⟨_, torus.bond_right hx hy, ?right⟩, ⟨_, torus.bond_above hx hy, ?above⟩,
    ⟨_, torus.plaquette_eq hx hy, ?plaquette⟩⟩
  case right =>
    rw [← torus.bond_right hx hy, torus.ncard_cells inRow (alone hy) fun x' y' hx' hy' =>
      torus.bond_right_eq_iff hx hy hx' hy', CellCircle.card_sharing, Finset.card_singleton,
      Nat.mul_one, hdivX]
  case above =>
    rw [← torus.bond_above hx hy, torus.ncard_cells (alone hx) inColumn fun x' y' hx' hy' =>
      torus.bond_above_eq_iff hx hy hx' hy', CellCircle.card_sharing, Finset.card_singleton,
      Nat.one_mul, hdivY]
  case plaquette =>
    rw [← torus.plaquette_eq hx hy, torus.ncard_cells inRow inColumn fun x' y' hx' hy' =>
      torus.plaquette_eq_iff hx hy hx' hy', CellCircle.card_sharing, CellCircle.card_sharing,
      hdivX, hdivY]

/-- A torus of two by three cells with two basis sites in each. -/
def Lattice.twoByThree : Lattice :=
  ⟨[2, 3], 2⟩

/-- On two by three cells, two share the bond along the short dimension, and two a plaquette. -/
theorem TJKHamiltonian.build_divisors_count_twoByThree :
    ∃ h bond plaquette, TJKHamiltonian.build (.periodic 2) Lattice.twoByThree = .ok h ∧
      Lattice.twoByThree.bond 0 (Site.ofCell [1, 2]) = .ok bond ∧
      {r | Lattice.twoByThree.IsCell r ∧ Lattice.twoByThree.bond 0 r = .ok bond}.ncard = 2 ∧
      Lattice.twoByThree.plaquette (Site.ofCell [1, 2]) = .ok plaquette ∧
      {r | Lattice.twoByThree.IsCell r ∧
        Lattice.twoByThree.plaquette r = .ok plaquette}.ncard = 2 := by
  obtain ⟨h, hbuild, hcount⟩ := build_divisors_count (l := Lattice.twoByThree)
    (b := .periodic 2) rfl (by decide) rfl
  obtain ⟨h', hbuild', hdivX, hdivY⟩ :
      ∃ h, TJKHamiltonian.build (.periodic 2) Lattice.twoByThree = .ok h ∧
        h.divX = divisor 2 ∧ h.divY = divisor 3 :=
    exists_build rfl rfl
  obtain rfl : h = h' := Except.ok.inj (hbuild.symm.trans hbuild')
  obtain ⟨⟨bond, hbond, hbonds⟩, -, plaquette, hplaquette, hplaquettes⟩ :=
    hcount (Site.ofCell [1, 2]) ⟨by decide, rfl⟩
  rw [hdivX] at hbonds
  rw [hdivX, hdivY] at hplaquettes
  exact ⟨h, bond, plaquette, hbuild, hbond, hbonds, hplaquette, hplaquettes⟩

end LatticeObservables
