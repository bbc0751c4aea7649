import LatticeObservables.Proofs.Boundary.Inside

/-!
# Wrapping Over Every Length

A length is a 64-bit pattern, and a lattice that was read from a record may have any. Coordinates
are divided by the signed reading of the length, so one from `2 ^ 63` on divides as a negative
number. Its remainders still lie within the length, because the absolute value of the divisor is at
most the length, but they are no longer taken modulo the length. Two divisions stop: the one by
zero, and the one of the smallest coordinate by the length that is read as minus one, whose quotient
does not fit (`StopsOn`).

## Main statements

* `euclideanDivision_length`: the division of a coordinate by any length.
* `Lattice.enforce_of_stopsOn`, `Lattice.enforce_of_not_stopsOn`: when wrapping stops, and what it
  gives otherwise.
* `Lattice.enforce_every_length`: the outcome for every lattice, and where sites are their own
  image.
-/

namespace LatticeObservables

/-- **Remainders lie within the length**, whether it is read as a positive or as a negative
number. -/
theorem emod_signedReading_mem (x : Int) {length : Nat} (hpos : 0 < length)
    (hlt : length < 2 ^ 64) :
    0 ≤ x % signedReading length ∧ x % signedReading length < length := by
  by_cases hsmall : length < 2 ^ 63
  · rw [signedReading_of_lt hsmall]
    exact ⟨Int.emod_nonneg x (by omega), Int.emod_lt_of_pos x (by omega)⟩
  · have hneg : (length : Int) - 2 ^ 64 ≠ 0 := by omega
    have hbelow := Int.emod_lt x hneg
    rw [signedReading_of_ge (by omega) hlt]
    exact ⟨Int.emod_nonneg x hneg, by omega⟩

/-- The division of a coordinate **by any length**. It stops for the length zero, and for the
smallest coordinate if the length is read as minus one. -/
theorem euclideanDivision_length {x : Int} {length : Nat} (hx : Fits 64 x)
    (hlt : length < 2 ^ 64) :
    euclideanDivision x (signedReading length) =
      if length = 0 then .error .divisionByZero
      else if x = -2 ^ 63 ∧ length = 2 ^ 64 - 1 then .error .overflow
      else .ok (x / signedReading length, x % signedReading length) := by
  rcases Nat.eq_zero_or_pos length with rfl | hpos
  · rfl
  rw [if_neg hpos.ne']
  by_cases hsmall : length < 2 ^ 63
  · rw [if_neg (by omega), signedReading_of_lt hsmall,
      euclideanDivision_of_pos hx (by exact_mod_cast hpos)]
  · have hread := signedReading_of_ge (by omega) hlt
    by_cases hlongest : length = 2 ^ 64 - 1
    · -- the divisor is minus one, and the quotient is the coordinate with the sign changed
      have hminus : signedReading length = -1 := by omega
      rw [hminus, euclideanDivision, if_neg (by decide), Int.ediv_neg, Int.ediv_one]
      by_cases hmin : x = -2 ^ 63
      · rw [if_pos ⟨hmin, hlongest⟩, hmin]
        rfl
      · have hfits : Fits 64 (-x) := by
          rw [fits_64] at hx ⊢
          omega
        rw [if_neg (fun h => hmin h.1), bounded_of_fits hfits]
        rfl
    · rw [if_neg (fun h => hlongest h.2), euclideanDivision_of_lt_neg_one hx (by omega)]

/-- **Wrapping stops** on these coordinates: a length is zero, or the smallest coordinate stands
at a length that is read as minus one. -/
def StopsOn (xs : List Int) (lengths : List Nat) : Prop :=
  0 ∈ lengths ∨ (-2 ^ 63, 2 ^ 64 - 1) ∈ xs.zip lengths

instance (xs : List Int) (lengths : List Nat) : Decidable (StopsOn xs lengths) :=
  inferInstanceAs (Decidable (_ ∨ _))

namespace Lattice

/-- The division of the coordinates stops, **if it does on one of them**. -/
theorem windingNumbers_eq_error {x : Int} {xs : List Int} {length : Nat} {lengths : List Nat}
    {fault : Fault} (hmem : (x, length) ∈ xs.zip lengths)
    (h : euclideanDivision x (signedReading length) = .error fault) :
    ∃ fault, windingNumbers xs lengths = .error fault := by
  induction xs generalizing lengths with
  | nil => cases hmem
  | cons y ys ih =>
      cases lengths with
      | nil => cases hmem
      | cons n rest =>
          rcases List.mem_cons.mp hmem with hhead | htail
          · obtain ⟨rfl, rfl⟩ := Prod.mk.inj hhead
            exact ⟨fault, bind_eq_error.mpr (.inl h)⟩
          · obtain ⟨later, hlater⟩ := ih htail
            cases first : euclideanDivision y (signedReading n) with
            | error early => exact ⟨early, bind_eq_error.mpr (.inl first)⟩
            | ok pair =>
                exact ⟨later, bind_eq_error.mpr
                  (.inr ⟨pair, first, bind_eq_error.mpr (.inl hlater)⟩)⟩

variable {xs : List Int} {lengths : List Nat}

/-- The division of the coordinates stops, **if wrapping does**. -/
theorem windingNumbers_of_stopsOn (hx : ∀ x ∈ xs, Fits 64 x)
    (hl : ∀ length ∈ lengths, length < 2 ^ 64) (hdim : xs.length = lengths.length)
    (h : StopsOn xs lengths) : ∃ fault, windingNumbers xs lengths = .error fault := by
  rcases h with hzero | hminus
  · rw [← List.map_snd_zip hdim.ge] at hzero
    obtain ⟨⟨x, _⟩, hmem, rfl⟩ := List.mem_map.mp hzero
    have hword : 0 < 2 ^ 64 := by decide
    have division := euclideanDivision_length (hx x (List.of_mem_zip hmem).1) hword
    rw [if_pos rfl] at division
    exact windingNumbers_eq_error hmem division
  · obtain ⟨hcoordinate, hlength⟩ := List.of_mem_zip hminus
    have division := euclideanDivision_length (hx _ hcoordinate) (hl _ hlength)
    rw [if_neg (by decide), if_pos ⟨rfl, rfl⟩] at division
    exact windingNumbers_eq_error hminus division

/-- Every coordinate is divided by the signed reading of its length, **unless wrapping stops**. -/
theorem windingNumbers_of_not_stopsOn (hx : ∀ x ∈ xs, Fits 64 x)
    (hl : ∀ length ∈ lengths, length < 2 ^ 64) (h : ¬ StopsOn xs lengths) :
    windingNumbers xs lengths =
      .ok (xs.zipWith (fun (x : Int) (length : Nat) =>
        (x % signedReading length, x / signedReading length)) lengths) := by
  obtain ⟨hzero, hminus⟩ := not_or.mp h
  refine windingNumbers_eq_zipWith fun x length hmem => ?_
  obtain ⟨hcoordinate, hlength⟩ := List.of_mem_zip hmem
  have hne : length ≠ 0 := fun heq => hzero (heq ▸ hlength)
  have hgo : ¬ (x = -2 ^ 63 ∧ length = 2 ^ 64 - 1) := fun heq => hminus (heq.1 ▸ heq.2 ▸ hmem)
  rw [euclideanDivision_length (hx x hcoordinate) (hl length hlength), if_neg hne, if_neg hgo]

/-- The **image** of a site when lengths are read as signed words: the remainder of every
coordinate by the signed reading of the length. -/
def signedImage (l : Lattice) (s : Site) : Site :=
  ⟨s.coordinates.zipWith (fun (x : Int) (length : Nat) => x % signedReading length) l.lengths,
    s.basisIndex⟩

/-- The coordinates of an image **lie within the lengths**. -/
theorem inBlock_signedImage {l : Lattice} (s : Site)
    (hl : ∀ length ∈ l.lengths, 0 < length ∧ length < 2 ^ 64) :
    inBlock (l.signedImage s).coordinates l.lengths :=
  inBlock_zipWith s.coordinates fun length hmem x =>
    emod_signedReading_mem x (hl length hmem).1 (hl length hmem).2

variable {l : Lattice} {s : Site}

/-- **Wrapping stops** a site on whose coordinates it does, whatever the basis index is. -/
theorem enforce_of_stopsOn (hl : ∀ length ∈ l.lengths, length < 2 ^ 64)
    (hs : ∀ x ∈ s.coordinates, Fits 64 x) (hdim : s.dimension = l.dimension)
    (h : StopsOn s.coordinates l.lengths) :
    ∃ fault, l.enforce s = .error (.arithmetic fault) := by
  obtain ⟨fault, hfault⟩ := windingNumbers_of_stopsOn hs hl hdim h
  refine ⟨fault, return_eq_error.mpr ?_⟩
  rw [wrap, if_neg (not_not.mpr hdim), hfault]
  rfl

/-- **Wrapping gives the image** of every other site, unless its basis index does not exist. -/
theorem enforce_of_not_stopsOn (hl : ∀ length ∈ l.lengths, length < 2 ^ 64)
    (hs : ∀ x ∈ s.coordinates, Fits 64 x) (hdim : s.dimension = l.dimension)
    (h : ¬ StopsOn s.coordinates l.lengths) :
    inBlock (l.signedImage s).coordinates l.lengths ∧
    l.enforce s =
      if s.basisIndex < l.basisIndices then .ok (l.signedImage s)
      else .error (.siteOutsideLattice (l.signedImage s)) := by
  have hpos : ∀ length ∈ l.lengths, 0 < length ∧ length < 2 ^ 64 := fun length hmem =>
    ⟨Nat.pos_of_ne_zero fun hzero => h (.inl (hzero ▸ hmem)), hl length hmem⟩
  have hblock := inBlock_signedImage s hpos
  have himages : (s.coordinates.zipWith (fun (x : Int) (length : Nat) =>
      (x % signedReading length, x / signedReading length)) l.lengths).map Prod.fst =
      (l.signedImage s).coordinates := by
    simp [signedImage, List.map_zipWith]
  have hlength : (s.coordinates.zipWith (fun (x : Int) (length : Nat) =>
      (x % signedReading length, x / signedReading length)) l.lengths).length = l.dimension := by
    rw [List.length_zipWith, ← Site.dimension, hdim, ← dimension, Nat.min_self]
  have outcome := wrap_of_windingNumbers hdim (windingNumbers_of_not_stopsOn hs hl h) hlength
    (by rw [himages]; exact hblock)
  rw [himages] at outcome
  refine ⟨hblock, ?_⟩
  rw [enforce, outcome]
  split
  · rfl
  · rfl

/-- A coordinate within a length: zero, or the absolute value of the divisor if the length is read
as a negative number other than the smallest one. -/
def divisorCoordinate (length : Nat) : Int :=
  if length ≤ 2 ^ 63 then 0 else 2 ^ 64 - length

/-- The coordinate lies within the length, and a word of 64 bits holds it. -/
theorem divisorCoordinate_mem {length : Nat} (hpos : 0 < length) (hlt : length < 2 ^ 64) :
    0 ≤ divisorCoordinate length ∧ divisorCoordinate length < length ∧
      divisorCoordinate length < 2 ^ 63 := by
  rw [divisorCoordinate]
  split
  · omega
  · omega

/-- The coordinate is **its own remainder** only for lengths up to `2 ^ 63`. -/
theorem le_of_divisorCoordinate_emod {length : Nat} (hlt : length < 2 ^ 64)
    (h : divisorCoordinate length % signedReading length = divisorCoordinate length) :
    length ≤ 2 ^ 63 := by
  by_contra hlong
  have hread := signedReading_of_ge (by omega) hlt
  have hself : (2 ^ 64 - length : Int) = -signedReading length := by omega
  rw [divisorCoordinate, if_neg hlong, hself, Int.neg_emod_self] at h
  omega

/-- The site with these coordinates lies in the lattice. -/
theorem contains_divisorSite (hl : ∀ length ∈ l.lengths, 0 < length ∧ length < 2 ^ 64)
    (hbasis : 0 < l.basisIndices) :
    l.contains (Site.ofCell (l.lengths.map divisorCoordinate)) := by
  refine contains_iff.mpr ⟨List.length_map _, ?_, hbasis⟩
  have hblock : inBlock (l.lengths.zipWith (fun _ length => divisorCoordinate length) l.lengths)
      l.lengths := inBlock_zipWith l.lengths fun length hmem _ => by
    obtain ⟨hpos, hlt⟩ := hl length hmem
    obtain ⟨hnonneg, hbelow, -⟩ := divisorCoordinate_mem hpos hlt
    exact ⟨hnonneg, hbelow⟩
  rwa [List.zipWith_self] at hblock

/-- If **every site is its own image**, no length is above `2 ^ 63`. -/
theorem lengths_le_of_enforce_eq_self (hl : ∀ length ∈ l.lengths, 0 < length ∧ length < 2 ^ 64)
    (hbasis : 0 < l.basisIndices)
    (h : ∀ s : Site, (∀ x ∈ s.coordinates, Fits 64 x) → l.contains s → l.enforce s = .ok s) :
    ∀ length ∈ l.lengths, length ≤ 2 ^ 63 := by
  obtain ⟨s, hsite⟩ : ∃ s, s = Site.ofCell (l.lengths.map divisorCoordinate) := ⟨_, rfl⟩
  have hcoordinates : s.coordinates = l.lengths.map divisorCoordinate := by
    rw [hsite]
    rfl
  have hcontains : l.contains s := by
    rw [hsite]
    exact contains_divisorSite hl hbasis
  have hmem : ∀ x ∈ s.coordinates, 0 ≤ x ∧ x < 2 ^ 63 := by
    intro x hx
    rw [hcoordinates] at hx
    obtain ⟨length, hlength, rfl⟩ := List.mem_map.mp hx
    obtain ⟨hpos, hlt⟩ := hl length hlength
    obtain ⟨hnonneg, -, hword⟩ := divisorCoordinate_mem hpos hlt
    exact ⟨hnonneg, hword⟩
  have hfits : ∀ x ∈ s.coordinates, Fits 64 x := by
    intro x hx
    have hx := hmem x hx
    rw [fits_64]
    omega
  have hgo : ¬ StopsOn s.coordinates l.lengths := by
    rintro (hzero | hminus)
    · exact (hl 0 hzero).1.ne rfl
    · have hx := hmem _ (List.of_mem_zip hminus).1
      omega
  have hdim : s.dimension = l.dimension := (contains_iff.mp hcontains).1
  obtain ⟨-, outcome⟩ := enforce_of_not_stopsOn (fun length hlength => (hl length hlength).2)
    hfits hdim hgo
  rw [if_pos (contains_iff.mp hcontains).2.2, h s hfits hcontains] at outcome
  have hfixed : l.lengths.map (fun length =>
      divisorCoordinate length % signedReading length) = l.lengths.map divisorCoordinate := by
    have hsame := congrArg Site.coordinates (Except.ok.inj outcome)
    rw [signedImage, hcoordinates] at hsame
    rw [hsame, List.zipWith_map_left, List.zipWith_self]
  intro length hlength
  exact le_of_divisorCoordinate_emod (hl length hlength).2
    (List.map_inj_left.mp hfixed length hlength)

/-- **Wrapping over every length.** In a lattice whose lengths are any 64-bit patterns, wrapping a
site of its dimension stops exactly if a length is zero or a length is `2 ^ 64 - 1` and its
coordinate the smallest one. Otherwise the image lies within the lengths, and it is refused exactly
if the basis index does not exist. In a lattice that was built, every site is its own image and has
the phase zero under any boundary conditions exactly if no length is above `2 ^ 63`. -/
theorem enforce_every_length (hl : ∀ length ∈ l.lengths, length < 2 ^ 64) :
    (∀ s : Site, (∀ x ∈ s.coordinates, Fits 64 x) → s.dimension = l.dimension →
      ((∃ fault, l.enforce s = .error (.arithmetic fault)) ↔
        0 ∈ l.lengths ∨ (-2 ^ 63, 2 ^ 64 - 1) ∈ s.coordinates.zip l.lengths) ∧
      (¬ (0 ∈ l.lengths ∨ (-2 ^ 63, 2 ^ 64 - 1) ∈ s.coordinates.zip l.lengths) →
        inBlock (l.signedImage s).coordinates l.lengths ∧
        l.enforce s =
          if s.basisIndex < l.basisIndices then .ok (l.signedImage s)
          else .error (.siteOutsideLattice (l.signedImage s)))) ∧
    ∀ lengths basisIndices, build lengths basisIndices = .ok l →
      ((∀ s : Site, (∀ x ∈ s.coordinates, Fits 64 x) → l.contains s →
        l.enforce s = .ok s ∧
          ∀ b : BoundaryConditions, b.dimension = l.dimension →
            l.enforceWithPhase b s = .ok (s, 0)) ↔
        ∀ length ∈ l.lengths, length ≤ 2 ^ 63) := by
  refine ⟨fun s hs hdim => ⟨⟨?stops, enforce_of_stopsOn hl hs hdim⟩,
    enforce_of_not_stopsOn hl hs hdim⟩, fun lengths basisIndices hbuild => ⟨?short, ?own⟩⟩
  case stops =>
    rintro ⟨fault, hfault⟩
    by_contra hgo
    rw [(enforce_of_not_stopsOn hl hs hdim hgo).2] at hfault
    split at hfault
    · cases hfault
    · cases hfault
  case short =>
    intro h
    obtain ⟨-, hzero, hbasis, rfl⟩ := build_eq_ok_iff.mp hbuild
    have hpos : ∀ length ∈ lengths, 0 < length ∧ length < 2 ^ 64 := fun length hmem =>
      ⟨Nat.pos_of_ne_zero fun h => hzero (h ▸ hmem), hl length hmem⟩
    exact lengths_le_of_enforce_eq_self hpos (Nat.pos_of_ne_zero hbasis)
      fun s hs hcontains => (h s hs hcontains).1
  case own =>
    intro hshort s _ hcontains
    exact ⟨enforce_of_contains hshort hcontains,
      fun b hb => enforceWithPhase_of_contains hshort hcontains hb⟩

/-- A length that is read as minus one beside the longest length whose sites are their own image. -/
theorem enforce_every_length_longest :
    (∃ fault, enforce ⟨[2 ^ 64 - 1, 2 ^ 63], 1⟩ (Site.ofCell [-2 ^ 63, 5]) =
      .error (.arithmetic fault)) ∧
    enforce ⟨[2 ^ 64 - 1, 2 ^ 63], 1⟩ (Site.ofCell [1, 2 ^ 63 - 1]) =
      .ok (Site.ofCell [0, 2 ^ 63 - 1]) ∧
    ∃ s, contains ⟨[2 ^ 64 - 1, 2 ^ 63], 1⟩ s ∧
      enforce ⟨[2 ^ 64 - 1, 2 ^ 63], 1⟩ s ≠ .ok s := by
  obtain ⟨wrapping, -⟩ := enforce_every_length (l := ⟨[2 ^ 64 - 1, 2 ^ 63], 1⟩) (by decide)
  have stops := (wrapping (Site.ofCell [-2 ^ 63, 5]) (by decide) rfl).1.mpr (by decide)
  have image := ((wrapping (Site.ofCell [1, 2 ^ 63 - 1]) (by decide) rfl).2 (by decide)).2
  have outcome : enforce ⟨[2 ^ 64 - 1, 2 ^ 63], 1⟩ (Site.ofCell [1, 2 ^ 63 - 1]) =
      .ok (Site.ofCell [0, 2 ^ 63 - 1]) := by
    rw [image]
    decide
  refine ⟨stops, outcome, Site.ofCell [1, 2 ^ 63 - 1], by decide, ?_⟩
  rw [outcome]
  decide

end Lattice

end LatticeObservables
