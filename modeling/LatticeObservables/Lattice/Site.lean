/-!
# Sites

A site is a unit cell of a Bravais lattice, given by its integer coordinates, and the index
of a basis site within that cell. Sites are ordered by their coordinates first, read as a
dictionary does, a proper beginning before what continues it, and then by basis index. The
order is total and tells different sites apart (`instTransOrdSite`, `instLawfulEqOrdSite`).

Coordinates are written as all lists are, with a comma and a blank between the elements, in
square brackets (`bracketed`) or in round ones (`parenthesized`). A text that quotes another
one puts a backslash before the quotes and the backslashes inside it (`inQuotes`).
-/

namespace LatticeObservables

/-! ### Text of sequences -/

/-- The elements with a comma and a blank between them. -/
def commaSeparated (parts : List String) : String :=
  ", ".intercalate parts

/-- The elements in square brackets. -/
def bracketed (parts : List String) : String :=
  "[" ++ commaSeparated parts ++ "]"

/-- The elements in round brackets. -/
def parenthesized (parts : List String) : String :=
  "(" ++ commaSeparated parts ++ ")"

/-- A text in quotes, those inside it behind a backslash. -/
def inQuotes (s : String) : String :=
  let inside := s.toList.flatMap fun c => if c = '"' ∨ c = '\\' then ['\\', c] else [c]
  String.ofList ('"' :: (inside ++ ['"']))

/-! ### Sites -/

/-- A **site**: the coordinates of its unit cell and the basis index within it. -/
structure Site where
  coordinates : List Int
  basisIndex : Nat
  deriving DecidableEq

namespace Site

/-- The first basis site of a cell. -/
def ofCell (coordinates : List Int) : Site :=
  ⟨coordinates, 0⟩

/-- The number of coordinates. -/
def dimension (s : Site) : Nat :=
  s.coordinates.length

/-- The text of a site: its coordinates, and the basis index unless it is zero. -/
def text (s : Site) : String :=
  bracketed (s.coordinates.map toString) ++
    if s.basisIndex = 0 then "" else "[" ++ toString s.basisIndex ++ "]"

end Site

/-! ### Order -/

/-- Coordinates decide first, the basis index second. -/
instance instOrdSite : Ord Site where
  compare := compareLex (compareOn Site.coordinates) (compareOn Site.basisIndex)

instance instTransOrdSite : Std.TransOrd Site :=
  inferInstanceAs (Std.TransCmp (compareLex (compareOn Site.coordinates)
    (compareOn Site.basisIndex)))

instance instLawfulEqOrdSite : Std.LawfulEqOrd Site where
  eq_of_compare {a b} h := by
    obtain ⟨hc, hb⟩ := Ordering.then_eq_eq.mp h
    cases a; cases b
    simp only [Site.mk.injEq]
    exact ⟨Std.LawfulEqOrd.eq_of_compare hc, Std.LawfulEqOrd.eq_of_compare hb⟩

end LatticeObservables
