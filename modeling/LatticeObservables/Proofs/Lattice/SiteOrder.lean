import LatticeObservables.Lattice.Site

/-!
# The Order of Sites

Coordinates are compared as the words of a dictionary are: a proper beginning comes first, and
otherwise the first coordinate that differs decides (`coordinates_lt_iff`). Sites are compared by
their coordinates, and by their basis indices only if those are the same.

## Main statements

* `coordinates_lt_iff`: the order of lists of coordinates, of any two lengths.
* `Site.compare_eq_lt`: the order of sites.
-/

namespace LatticeObservables

/-! ### Coordinates -/

/-- Coordinates **come first in a dictionary** if they are a proper beginning of the others, or if
theirs is the smaller one where both differ for the first time. -/
def FirstInDictionary (l m : List Int) : Prop :=
  (∃ x rest, m = l ++ x :: rest) ∨
    ∃ same x y l' m', l = same ++ x :: l' ∧ m = same ++ y :: m' ∧ x < y

/-- The order of lists of coordinates is that of a dictionary. -/
theorem coordinates_lt_iff {l m : List Int} : l < m ↔ FirstInDictionary l m := by
  constructor
  · intro h
    induction l generalizing m with
    | nil =>
        cases m with
        | nil => exact absurd h (List.not_lt_nil _)
        | cons b m => exact .inl ⟨b, m, rfl⟩
    | cons a l ih =>
        cases m with
        | nil => exact absurd h (List.not_lt_nil _)
        | cons b m =>
            rcases List.cons_lt_cons_iff.mp h with hlt | ⟨rfl, hlt⟩
            · exact .inr ⟨[], a, b, l, m, rfl, rfl, hlt⟩
            · rcases ih hlt with ⟨x, rest, rfl⟩ | ⟨same, x, y, l', m', rfl, rfl, hxy⟩
              · exact .inl ⟨x, rest, rfl⟩
              · exact .inr ⟨a :: same, x, y, l', m', rfl, rfl, hxy⟩
  · rintro (⟨x, rest, rfl⟩ | ⟨same, x, y, l', m', rfl, rfl, hxy⟩)
    · have hbeginning : l ++ [] < l ++ x :: rest := List.append_left_lt (List.nil_lt_cons x rest)
      rwa [List.append_nil] at hbeginning
    · exact List.append_left_lt (List.cons_lt_cons_iff.mpr (.inl hxy))

/-- Lists of coordinates compare as a dictionary does. -/
theorem compare_coordinates_eq_lt {l m : List Int} : compare l m = .lt ↔ l < m := by
  induction l generalizing m with
  | nil => cases m <;> simp
  | cons a l ih =>
      cases m with
      | nil => simp
      | cons b m =>
          rw [List.compare_cons_cons, Ordering.then_eq_lt, ih, List.cons_lt_cons_iff,
            Std.LawfulEqOrd.compare_eq_iff_eq, Int.compare_eq_lt]

/-! ### Sites -/

/-- A site comes **before** another if its coordinates do in a dictionary, or if they are the
same and its basis index is smaller. -/
def Site.Before (a b : Site) : Prop :=
  a.coordinates < b.coordinates ∨
    a.coordinates = b.coordinates ∧ a.basisIndex < b.basisIndex

/-- The order of sites. -/
theorem Site.compare_eq_lt {a b : Site} : compare a b = .lt ↔ a.Before b := by
  have hcompare : compare a b = (compare a.coordinates b.coordinates).then
      (compare a.basisIndex b.basisIndex) := rfl
  rw [hcompare, Ordering.then_eq_lt, compare_coordinates_eq_lt,
    Std.LawfulEqOrd.compare_eq_iff_eq, Nat.compare_eq_lt, Site.Before]

end LatticeObservables
