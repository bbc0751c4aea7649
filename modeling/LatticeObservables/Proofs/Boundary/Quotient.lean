import LatticeObservables.Proofs.Boundary.Inside

/-!
# The Torus as a Quotient

Wrapping takes the sites of the plane, or of any number of dimensions, to the sites of the torus.
It leaves those of the lattice where they are, and it identifies two sites exactly if they are
periodic copies of each other (`Lattice.PeriodicCopies`). Their difference is an integer and not a
word, so that it is of no matter whether a word could hold it.

## Main statements

* `Lattice.image_eq_image_iff`: which sites have the same image.
* `Lattice.enforce_identifies_periodicCopies`: wrapping is the quotient map of the torus.
-/

namespace LatticeObservables

namespace Lattice

/-- Two sites are **periodic copies** of each other: they have the same basis index, and along
every dimension of the lattice their coordinates differ by a multiple of the length. -/
def PeriodicCopies (l : Lattice) (a b : Site) : Prop :=
  a.basisIndex = b.basisIndex ∧
    ∀ (d length : Nat) (x y : Int), l.lengths[d]? = some length →
      a.coordinates[d]? = some x → b.coordinates[d]? = some y → (length : Int) ∣ x - y

/-- Coordinates have the same remainders if they **differ by multiples** of the lengths. -/
theorem zipWith_emod_eq_iff {xs ys : List Int} {lengths : List Nat}
    (hx : xs.length = lengths.length) (hy : ys.length = lengths.length) :
    (xs.zipWith (fun (x : Int) (length : Nat) => x % length) lengths =
      ys.zipWith (fun (y : Int) (length : Nat) => y % length) lengths) ↔
    ∀ (d length : Nat) (x y : Int), lengths[d]? = some length →
      xs[d]? = some x → ys[d]? = some y → (length : Int) ∣ x - y := by
  induction lengths generalizing xs ys with
  | nil => simp
  | cons length rest ih =>
      obtain ⟨x, xs, rfl⟩ := List.exists_cons_of_length_eq_add_one hx
      obtain ⟨y, ys, rfl⟩ := List.exists_cons_of_length_eq_add_one hy
      rw [List.zipWith_cons_cons, List.zipWith_cons_cons, List.cons.injEq,
        ih (Nat.succ.inj hx) (Nat.succ.inj hy), Int.emod_eq_emod_iff_emod_sub_eq_zero,
        ← Int.dvd_iff_emod_eq_zero]
      constructor
      · rintro ⟨hfirst, hothers⟩ d
        cases d with
        | zero =>
            rintro _ _ _ ⟨⟩ ⟨⟩ ⟨⟩
            exact hfirst
        | succ d => exact hothers d
      · intro h
        exact ⟨h 0 length x y rfl rfl rfl, fun d => h (d + 1)⟩

variable {l : Lattice} {a b : Site}

/-- Sites have the same image if they are **periodic copies** of each other. -/
theorem image_eq_image_iff (ha : a.dimension = l.dimension) (hb : b.dimension = l.dimension) :
    l.image a = l.image b ↔ l.PeriodicCopies a b := by
  rw [image, image, Site.mk.injEq, zipWith_emod_eq_iff ha hb, PeriodicCopies, and_comm]

/-- **Wrapping is the quotient map of the torus.** A site of the lattice's dimension, with a basis
index that exists, is taken to a site of the lattice with the same basis index, which is taken to
itself. The sites that are taken to themselves are those of the lattice, and the sites that are
taken to the same one are the periodic copies of each other. -/
theorem enforce_identifies_periodicCopies
    (hl : ∀ length ∈ l.lengths, 0 < length ∧ length < 2 ^ 63)
    (ha : ∀ x ∈ a.coordinates, Fits 64 x) (hb : ∀ x ∈ b.coordinates, Fits 64 x)
    (hadim : a.dimension = l.dimension) (hbdim : b.dimension = l.dimension)
    (habasis : a.basisIndex < l.basisIndices) (hbbasis : b.basisIndex < l.basisIndices) :
    (∃ w, l.enforce a = .ok w ∧ l.contains w ∧ w.basisIndex = a.basisIndex ∧
      l.enforce w = .ok w) ∧
    (l.enforce a = .ok a ↔ l.contains a) ∧
    (l.enforce a = l.enforce b ↔ l.PeriodicCopies a b) := by
  have hlong : ∀ length ∈ l.lengths, length ≤ 2 ^ 63 := fun length h => (hl length h).2.le
  have hcontains : l.contains (l.image a) := by
    rw [contains_image hl hadim, decide_eq_true habasis]
  rw [enforce_eq_image hl ha hadim habasis, enforce_eq_image hl hb hbdim hbbasis]
  refine ⟨⟨_, rfl, hcontains, rfl, enforce_of_contains hlong hcontains⟩, ?fixed, ?copies⟩
  case fixed =>
    constructor
    · intro hfixed
      rwa [Except.ok.inj hfixed] at hcontains
    · intro ha'
      rw [← enforce_eq_image hl ha hadim habasis, enforce_of_contains hlong ha']
  case copies => rw [Except.ok.injEq, image_eq_image_iff hadim hbdim]

/-- The first and the last coordinate of a word are a multiple of three apart, which is too far for
a word to say, and have the same image on a circle of three cells. -/
theorem enforce_identifies_periodicCopies_extreme :
    enforce ⟨[3, 2], 2⟩ ⟨[-2 ^ 63, -1], 1⟩ = enforce ⟨[3, 2], 2⟩ ⟨[2 ^ 63 - 1, 1], 1⟩ ∧
      ¬ Fits 64 (2 ^ 63 - 1 - -2 ^ 63) := by
  obtain ⟨-, -, hcopies⟩ := enforce_identifies_periodicCopies (l := ⟨[3, 2], 2⟩)
    (a := ⟨[-2 ^ 63, -1], 1⟩) (b := ⟨[2 ^ 63 - 1, 1], 1⟩) (by decide) (by decide) (by decide)
    rfl rfl (by decide) (by decide)
  refine ⟨hcopies.mpr ⟨rfl, ?_⟩, by decide⟩
  intro d length x y hlength hx hy
  match d with
  | 0 =>
      obtain ⟨rfl, rfl, rfl⟩ : 3 = length ∧ -2 ^ 63 = x ∧ 2 ^ 63 - 1 = y :=
        ⟨Option.some.inj hlength, Option.some.inj hx, Option.some.inj hy⟩
      decide
  | 1 =>
      obtain ⟨rfl, rfl, rfl⟩ : 2 = length ∧ -1 = x ∧ 1 = y :=
        ⟨Option.some.inj hlength, Option.some.inj hx, Option.some.inj hy⟩
      decide
  | d + 2 => cases hlength

end Lattice

end LatticeObservables
