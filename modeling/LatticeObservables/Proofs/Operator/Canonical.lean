import Mathlib.Data.List.Sort
import LatticeObservables.Operator.Basic
import LatticeObservables.Proofs.Lattice.SiteOrder

/-!
# Canonical Form and Identity

Hops are compared by their species, then by their sources, then by their destinations. The order
is total and agrees with equality, for hops between sites of any dimensions, so that a hop has one
place among others and the arrangements of a list of hops have one ordered list among them.
Operators are therefore equal exactly when their hops are the same, each as often, and their
boundary conditions are.

## Main statements

* `Hop.compare_eq_lt`: the order of hops.
* `Hop.order_total`: the order is total, is transitive and tells different hops apart.
* `BasicOperator.canonical_eq_iff`: which lists of hops have the same canonical form.
* `BasicOperator.build_eq_ok_iff`: what is built, and when.
* `BasicOperator.build_decides_identity`: construction, identity and canonical form.
-/

namespace LatticeObservables

/-! ### The order of hops -/

namespace Hop

/-- A hop comes **before** another if its species is smaller, or if that is the same and its
source comes first, or if that is the same too and its destination comes first. -/
def Before (a b : Hop) : Prop :=
  a.species < b.species ∨
    a.species = b.species ∧
      (a.source.Before b.source ∨
        a.source = b.source ∧ a.destination.Before b.destination)

/-- The order of hops. -/
theorem compare_eq_lt {a b : Hop} : compare a b = .lt ↔ a.Before b := by
  have hcompare : compare a b = (compare a.species b.species).then
      ((compare a.source b.source).then (compare a.destination b.destination)) := rfl
  rw [hcompare, Ordering.then_eq_lt, Ordering.then_eq_lt, Nat.compare_eq_lt,
    Std.LawfulEqOrd.compare_eq_iff_eq, Std.LawfulEqOrd.compare_eq_iff_eq,
    Site.compare_eq_lt, Site.compare_eq_lt, Before]

/-- Of two hops one comes first, or they are equal, and **no two of the three hold**. -/
theorem trichotomy (a b : Hop) :
    compare a b = .lt ∧ a ≠ b ∧ compare b a ≠ .lt ∨
    compare a b ≠ .lt ∧ a = b ∧ compare b a ≠ .lt ∨
    compare a b ≠ .lt ∧ a ≠ b ∧ compare b a = .lt := by
  have hequal : a = b ↔ compare a b = .eq := Std.LawfulEqOrd.compare_eq_iff_eq.symm
  have hswap : compare b a = (compare a b).swap := Std.OrientedOrd.eq_swap
  rw [ne_eq, hequal, hswap]
  cases compare a b <;> decide

/-- **The order of hops is total and agrees with equality.** Of any two hops exactly one of these
holds: one comes first, they are equal, the other comes first. Nothing but equal hops compares as
equal, and the order is transitive. The species decides first, then the source, then the
destination, and of two sites the one whose coordinates come first in a dictionary, or the one with
the smaller basis index if their coordinates are the same. -/
theorem order_total :
    (∀ a b : Hop,
      compare a b = .lt ∧ a ≠ b ∧ compare b a ≠ .lt ∨
      compare a b ≠ .lt ∧ a = b ∧ compare b a ≠ .lt ∨
      compare a b ≠ .lt ∧ a ≠ b ∧ compare b a = .lt) ∧
    (∀ a b : Hop, compare a b = .eq ↔ a = b) ∧
    (∀ a b c : Hop, compare a b = .lt → compare b c = .lt → compare a c = .lt) ∧
    (∀ a b : Hop, compare a b = .lt ↔
      a.species < b.species ∨
        a.species = b.species ∧
          (compare a.source b.source = .lt ∨
            a.source = b.source ∧ compare a.destination b.destination = .lt)) ∧
    ∀ s t : Site, compare s t = .lt ↔
      FirstInDictionary s.coordinates t.coordinates ∨
        s.coordinates = t.coordinates ∧ s.basisIndex < t.basisIndex := by
  refine ⟨trichotomy, fun _ _ => Std.LawfulEqOrd.compare_eq_iff_eq,
    fun _ _ _ => Std.TransCmp.lt_trans, ?hops, ?sites⟩
  case hops =>
    intro a b
    rw [compare_eq_lt, Before, Site.compare_eq_lt, Site.compare_eq_lt]
  case sites =>
    intro s t
    rw [Site.compare_eq_lt, Site.Before, coordinates_lt_iff]

/-- A site with one coordinate comes before those that it begins, whatever the next coordinate and
the basis indices are. -/
example : compare (⟨[0], 7⟩ : Site) ⟨[0, -5], 0⟩ = .lt := by decide

end Hop

/-- A hop precedes itself and those that it comes before. -/
theorem Hop.precedes_iff {a b : Hop} : a.precedes b ↔ a = b ∨ a.Before b := by
  rw [Hop.precedes, Ordering.isLE_iff_eq_lt_or_eq_eq, Hop.compare_eq_lt,
    Std.LawfulEqOrd.compare_eq_iff_eq, or_comm]

/-- Different hops **do not precede each other**. -/
theorem Hop.eq_of_precedes {a b : Hop} (hab : a.precedes b) (hba : b.precedes a) : a = b :=
  Std.LawfulEqOrd.eq_of_compare (Std.OrientedCmp.isLE_antisymm hab hba)

namespace BasicOperator

/-! ### One representative -/

/-- Hops have **one canonical order**: ordered lists of the same hops are equal. -/
theorem eq_of_ordered {l m : List Hop} (hl : l.Pairwise fun a b => a.precedes b)
    (hm : m.Pairwise fun a b => a.precedes b) (h : l.Perm m) : l = m :=
  h.eq_of_pairwise (fun _ _ _ _ hab hba => Hop.eq_of_precedes hab hba) hl hm

/-- Lists have the same canonical form exactly when they **are the same hops**, each as
often. -/
theorem canonical_eq_iff {l m : List Hop} : canonical l = canonical m ↔ l.Perm m := by
  constructor
  · intro h
    exact (canonical_perm l).symm.trans (h ▸ canonical_perm m)
  · intro h
    refine eq_of_ordered (ordered_canonical l) (ordered_canonical m) ?_
    exact (canonical_perm l).trans (h.trans (canonical_perm m).symm)

/-- The canonical form is left as it is. -/
theorem canonical_canonical (l : List Hop) : canonical (canonical l) = canonical l :=
  canonical_eq_iff.mpr (canonical_perm l)

/-! ### Construction -/

/-- Operators are their hops and their boundary conditions. -/
theorem eq_iff {o o' : BasicOperator} :
    o = o' ↔ o.hops = o'.hops ∧ o.boundary = o'.boundary := by
  cases o
  cases o'
  simp

/-- Hops and boundary conditions **fit together** in a dimension: all hops have it, and so do
the boundary conditions, if there are both. -/
def Fit (hops : List Hop) (boundary : Option BoundaryConditions) (d : Nat) : Prop :=
  (∀ h ∈ hops, h.dimension = d) ∧ ∀ c, boundary = some c → hops ≠ [] → c.dimension = d

/-- The order of hops does not matter for whether they fit. -/
theorem fit_congr {hops hops' : List Hop} {boundary : Option BoundaryConditions} {d : Nat}
    (h : hops.Perm hops') : Fit hops boundary d ↔ Fit hops' boundary d := by
  have hnil : hops = [] ↔ hops' = [] := by
    rw [← List.length_eq_zero_iff, ← List.length_eq_zero_iff, h.length_eq]
  simp only [Fit, h.mem_iff, ne_eq, hnil]

/-- There is no mismatch among hops of one dimension. -/
theorem mismatch?_eq_none {hops : List Hop} {d : Nat} (h : ∀ a ∈ hops, a.dimension = d) :
    mismatch? hops = none := by
  cases hops with
  | nil => rfl
  | cons first rest =>
      obtain ⟨hfirst, hrest⟩ := List.forall_mem_cons.mp h
      rw [mismatch?, Option.map_eq_none_iff, List.find?_eq_none]
      intro a ha
      simp [hfirst, hrest a ha]

/-- The hops and the boundary conditions of an operator that is built are checked against
the first hop only, which decides about **all of them**. -/
theorem checked_iff {hops : List Hop} {boundary : Option BoundaryConditions} :
    (mismatch? hops = none ∧
        ∀ c, boundary = some c → c.dimension = expectedDimension hops c) ↔
      ∃ d, Fit hops boundary d := by
  cases hops with
  | nil => simp [mismatch?, expectedDimension, Fit]
  | cons first rest =>
      constructor
      · rintro ⟨hmatch, hboundary⟩
        refine ⟨first.dimension, ?_, fun c hc _ => hboundary c hc⟩
        exact fun h hh => uniform_of_mismatch?_eq_none hmatch h hh first (by simp)
      · rintro ⟨d, hhops, hboundary⟩
        refine ⟨mismatch?_eq_none hhops, ?_⟩
        intro c hc
        have hfirst : first.dimension = d := hhops first (by simp)
        rw [expectedDimension, hfirst]
        exact hboundary c hc (by simp)

/-- **What is built, and when**: the hops in canonical order with the boundary conditions,
if they fit together. -/
theorem build_eq_ok_iff {hops : List Hop} {boundary : Option BoundaryConditions}
    {o : BasicOperator} :
    build hops boundary = .ok o ↔
      (∃ d, Fit hops boundary d) ∧ o.hops = canonical hops ∧ o.boundary = boundary := by
  rw [← checked_iff, build]
  split
  next hmatch => simp [hmatch]
  next hmatch =>
    split
    next hboundary =>
      rw [Except.ok.injEq, eq_iff]
      simp only [hmatch, true_and]
      constructor
      · rintro ⟨hhops, hb⟩
        exact ⟨hboundary, hhops.symm, hb.symm⟩
      · rintro ⟨_, hhops, hb⟩
        exact ⟨hhops.symm, hb.symm⟩
    next hboundary =>
      cases boundary with
      | none => exact absurd (by simp) hboundary
      | some c =>
          refine ⟨by simp, ?_⟩
          rintro ⟨⟨_, hfits⟩, _⟩
          exact absurd hfits hboundary

/-- An operator can be built exactly of what fits together. -/
theorem exists_build_iff {hops : List Hop} {boundary : Option BoundaryConditions} :
    (∃ o, build hops boundary = .ok o) ↔ ∃ d, Fit hops boundary d := by
  constructor
  · rintro ⟨o, ho⟩
    exact (build_eq_ok_iff.mp ho).1
  · rintro ⟨d, hfit⟩
    have ⟨hhops, hboundary⟩ := hfit
    have hdimension : ∀ a ∈ canonical hops, a.dimension = d :=
      fun a ha => hhops a (mem_canonical.mp ha)
    let o : BasicOperator := {
      hops := canonical hops
      boundary := boundary
      ordered := ordered_canonical hops
      uniform := fun a ha b hb => (hdimension a ha).trans (hdimension b hb).symm
      boundary_dimension := fun c hc a ha =>
        (hboundary c hc (List.ne_nil_of_mem (mem_canonical.mp ha))).trans
          (hdimension a ha).symm }
    exact ⟨o, build_eq_ok_iff.mpr ⟨⟨d, hfit⟩, rfl, rfl⟩⟩

/-- **The canonical form decides identity.** Operators can be built exactly of hops and
boundary conditions that fit together, which does not depend on the order of the hops. Two of
them are equal exactly when they were built of the same hops, each as often, and of the same
boundary conditions. The hops of an operator are those that it was built of, in dictionary
order, and give the operator again. -/
theorem build_decides_identity (hops hops' : List Hop)
    (boundary boundary' : Option BoundaryConditions) :
    ((∃ o, build hops boundary = .ok o) ↔ ∃ d, Fit hops boundary d) ∧
    (hops.Perm hops' →
      ((∃ o, build hops boundary = .ok o) ↔ ∃ o, build hops' boundary = .ok o)) ∧
    (∀ o o', build hops boundary = .ok o → build hops' boundary' = .ok o' →
      (o = o' ↔ hops.Perm hops' ∧ boundary = boundary')) ∧
    (∀ o, build hops boundary = .ok o →
      (o.hops.Pairwise fun a b => a = b ∨ a.Before b) ∧ o.hops.Perm hops ∧
        build o.hops boundary = .ok o) := by
  refine ⟨exists_build_iff, ?permuted, ?identity, ?canonical⟩
  case permuted =>
    intro hperm
    rw [exists_build_iff, exists_build_iff]
    simp only [fit_congr hperm]
  case identity =>
    intro o o' ho ho'
    obtain ⟨_, hhops, hboundary⟩ := build_eq_ok_iff.mp ho
    obtain ⟨_, hhops', hboundary'⟩ := build_eq_ok_iff.mp ho'
    rw [eq_iff, hhops, hhops', hboundary, hboundary', canonical_eq_iff]
  case canonical =>
    intro o ho
    obtain ⟨⟨d, hfit⟩, hhops, hboundary⟩ := build_eq_ok_iff.mp ho
    have hperm : o.hops.Perm hops := hhops ▸ canonical_perm hops
    refine ⟨o.ordered.imp Hop.precedes_iff.mp, hperm, ?_⟩
    refine build_eq_ok_iff.mpr ⟨⟨d, (fit_congr hperm).mpr hfit⟩, ?_, hboundary⟩
    rw [hhops, canonical_canonical]

end BasicOperator

end LatticeObservables
