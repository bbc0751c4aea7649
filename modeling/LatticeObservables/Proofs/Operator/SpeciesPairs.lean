import Mathlib.Data.List.Permutation
import Mathlib.Data.List.ProdSigma
import Mathlib.Data.List.Sym
import LatticeObservables.Proofs.Evaluation.Exact
import LatticeObservables.Proofs.Evaluation.Reading
import LatticeObservables.Proofs.Operator.Relabelling

/-!
# Pairs of Species

A density correlation has a term for every pair of species (`DensityDensity.exists_entry`), and
which of its terms are equal is a question about pairs. On two sites different pairs give different
terms. On one site the order of a pair does not matter, so the terms are as many as there are
unordered pairs of species, and each of two different species is measured once and counted twice.

## Main statements

* `DensityDensity.exists_build_iff`: when a density correlation can be built.
* `DensityDensity.entry?_eq_iff`: which entries are equal.
* `DensityDensity.build_counts_pairs`: entries, repetitions and values.
-/

namespace LatticeObservables

/-! ### Pairs in their order -/

/-- The **pairs of species**, the second one running fastest. -/
def speciesPairs (species : Nat) : List (Nat × Nat) :=
  List.range species ×ˢ List.range species

/-- No pair of species stands twice. -/
theorem nodup_speciesPairs (species : Nat) : (speciesPairs species).Nodup :=
  List.nodup_range.product List.nodup_range

/-- The pairs are those of numbers of species. -/
theorem mem_speciesPairs {species i j : Nat} :
    (i, j) ∈ speciesPairs species ↔ i < species ∧ j < species := by
  rw [speciesPairs, List.mem_product, List.mem_range, List.mem_range]

/-- There are as many pairs as the square of the number of species. -/
theorem length_speciesPairs (species : Nat) :
    (speciesPairs species).length = species * species := by
  rw [speciesPairs, List.length_product, List.length_range]

/-- The pair of `i` and `j` stands **at `i` rows and `j`**. -/
theorem getElem?_speciesPairs {species i j : Nat} (hi : i < species) (hj : j < species) :
    (speciesPairs species)[i * species + j]? = some (i, j) := by
  have rows {m : Nat} (hm : i < m) :
      (List.range m ×ˢ List.range species)[i * species + j]? = some (i, j) := by
    -- The induction is on the number of rows: one row more stands behind all others.
    induction m with
    | zero => omega
    | succ m ih =>
        have hlength : (List.range m ×ˢ List.range species).length = m * species := by
          rw [List.length_product, List.length_range, List.length_range]
        have hlast : List.range (m + 1) ×ˢ List.range species =
            List.range m ×ˢ List.range species ++ (List.range species).map (Prod.mk m) := by
          rw [List.range_succ]
          exact List.flatMap_append.trans (by rw [List.flatMap_singleton]; rfl)
        rw [hlast]
        rcases Nat.lt_succ_iff_lt_or_eq.mp hm with hlt | rfl
        · have hbefore : i * species + j < m * species :=
            calc i * species + j < (i + 1) * species := by rw [Nat.succ_mul]; omega
              _ ≤ m * species := Nat.mul_le_mul_right _ hlt
          rw [List.getElem?_append_left (by rwa [hlength]), ih hlt]
        · rw [List.getElem?_append_right (by rw [hlength]; omega), hlength, Nat.add_sub_cancel_left,
            List.getElem?_map, List.getElem?_range hj, Option.map_some]
  exact rows hi

/-- Naming both species of every pair in the other order gives the same pairs. -/
theorem map_swap_speciesPairs_perm (species : Nat) :
    ((speciesPairs species).map Prod.swap).Perm (speciesPairs species) := by
  refine (List.perm_ext_iff_of_nodup ((nodup_speciesPairs species).map Prod.swap_injective)
    (nodup_speciesPairs species)).mpr fun p => ?_
  rw [List.mem_map_of_involutive Prod.swap_swap, Prod.swap, mem_speciesPairs, mem_speciesPairs,
    and_comm]

/-- The **unordered pair** of a pair of species. -/
def unordered (p : Nat × Nat) : Sym2 Nat :=
  s(p.1, p.2)

/-- Among the pairs of `n` species there are `n (n + 1) / 2` unordered ones. -/
theorem length_firstSeen_unordered (species : Nat) :
    (firstSeen ((speciesPairs species).map unordered)).length = species * (species + 1) / 2 := by
  have hperm :
      (firstSeen ((speciesPairs species).map unordered)).Perm (List.range species).sym2 := by
    refine (List.perm_ext_iff_of_nodup (nodup_firstSeen _) List.nodup_range.sym2).mpr fun z => ?_
    induction z using Sym2.ind with
    | _ k l =>
        rw [mem_firstSeen, List.mem_map, List.mk_mem_sym2_iff, List.mem_range, List.mem_range]
        constructor
        · rintro ⟨⟨i, j⟩, hmem, hsame⟩
          rw [mem_speciesPairs] at hmem
          rcases Sym2.eq_iff.mp hsame with ⟨rfl, rfl⟩ | ⟨rfl, rfl⟩
          · exact hmem
          · exact hmem.symm
        · exact fun hkl => ⟨(k, l), mem_speciesPairs.mpr hkl, rfl⟩
  rw [hperm.length_eq, List.length_sym2, List.length_range, Nat.choose_two_right,
    Nat.add_sub_cancel, Nat.mul_comm]

/-- An unordered pair of different species is that of **two pairs**, and a species with itself makes
one. -/
theorem count_unordered {species i j : Nat} (hi : i < species) (hj : j < species) :
    ((speciesPairs species).map unordered).count s(i, j) = if i = j then 1 else 2 := by
  have hfilter : ((speciesPairs species).filter fun p => unordered p = s(i, j)).Perm
      (if i = j then [(i, i)] else [(i, j), (j, i)]) := by
    refine (List.perm_ext_iff_of_nodup ((nodup_speciesPairs species).filter _) ?_).mpr ?_
    · split <;> simp_all
    · rintro ⟨k, l⟩
      rw [List.mem_filter, mem_speciesPairs, decide_eq_true_eq, unordered, Sym2.eq_iff]
      split
      next hij =>
        subst hij
        simp only [List.mem_singleton, Prod.mk.injEq]
        constructor
        · tauto
        · rintro ⟨rfl, rfl⟩
          exact ⟨⟨hi, hi⟩, .inl ⟨rfl, rfl⟩⟩
      next hij =>
        simp only [List.mem_cons, Prod.mk.injEq, List.not_mem_nil, or_false]
        constructor
        · tauto
        · rintro (⟨rfl, rfl⟩ | ⟨rfl, rfl⟩)
          · exact ⟨⟨hi, hj⟩, .inl ⟨rfl, rfl⟩⟩
          · exact ⟨⟨hj, hi⟩, .inr ⟨rfl, rfl⟩⟩
  have hcount : ((speciesPairs species).map unordered).count s(i, j) =
      ((speciesPairs species).filter fun p => unordered p = s(i, j)).length := by
    rw [List.count, List.countP_map, List.countP_eq_length_filter]
    rfl
  rw [hcount, hfilter.length_eq]
  split <;> rfl

namespace DensityDensity

/-! ### Equal terms -/

section Moves

variable (first second : Site) (i j k l : Nat)

/-- Naming the sites in the other order names the species in the other order. -/
theorem termMoves_swap : (termMoves second first j i).Perm (termMoves first second i j) := by
  by_cases hsame : first = second ∧ i = j
  · obtain ⟨rfl, rfl⟩ := hsame
    exact .refl _
  · have hsame' : ¬ (second = first ∧ j = i) := fun h => hsame ⟨h.1.symm, h.2.symm⟩
    rw [termMoves, termMoves, if_neg hsame, if_neg hsame']
    exact .swap _ _ _

variable {first second i j k l}

/-- On two sites, different pairs of species have **different moves**. -/
theorem termMoves_perm_iff_of_ne (hne : first ≠ second) :
    (termMoves first second i j).Perm (termMoves first second k l) ↔ (i, j) = (k, l) := by
  simp only [termMoves, hne, false_and, if_false, List.pair_perm, Site.stay, List.cons.injEq,
    Prod.mk.injEq, true_and, and_true, or_false, eq_comm]

/-- On one site, pairs of species have the same moves if they are the same **unordered pair**. -/
theorem termMoves_self_perm_iff :
    (termMoves first first i j).Perm (termMoves first first k l) ↔
      unordered (i, j) = unordered (k, l) := by
  simp only [termMoves, true_and, unordered, Sym2.eq_iff]
  -- A single density and a product of two differ in the number of their moves.
  by_cases hij : i = j
  · by_cases hkl : k = l
    · simp [hij, hkl, Site.stay]
    · have hlength : ¬ [first.stay i].Perm [first.stay k, first.stay l] := fun h =>
        absurd h.length_eq (by simp)
      rw [if_pos hij, if_neg hkl]
      simp only [hlength, false_iff]
      omega
  · by_cases hkl : k = l
    · have hlength : ¬ [first.stay i, first.stay j].Perm [first.stay k] := fun h =>
        absurd h.length_eq (by simp)
      rw [if_neg hij, if_pos hkl]
      simp only [hlength, false_iff]
      omega
    · rw [if_neg hij, if_neg hkl, List.pair_perm]
      simp only [Site.stay, List.cons.injEq, Prod.mk.injEq, true_and, and_true]
      omega

end Moves

/-! ### Entries -/

/-- The **entry** of a pair of species among the terms of a correlation. -/
def entry? (o : DensityDensity) (species i j : Nat) : Option BasicOperator :=
  o.operators[i * species + j]?

section Entries

variable {first second : Site} {species : Nat} {boundary : Option BoundaryConditions}
  {o : DensityDensity}

/-- The terms are those of the pairs of species, **in the order of the pairs**. -/
theorem forall₂_pairs_of_build (h : build first second species boundary = .ok o) :
    List.Forall₂ (fun p t => t.IsProduct boundary (termMoves first second p.1 p.2))
      (speciesPairs species) o.operators :=
  List.forall₂_map_left_iff.mp (forall₂_of_build h).2

/-- There is **one term for each pair** of species. -/
theorem length_operators_of_build (h : build first second species boundary = .ok o) :
    o.operators.length = species * species := by
  rw [← (forall₂_pairs_of_build h).length_eq, length_speciesPairs]

/-- Every pair of species has **its entry**. -/
theorem exists_entry (h : build first second species boundary = .ok o) {i j : Nat}
    (hi : i < species) (hj : j < species) :
    ∃ t, o.entry? species i j = some t ∧ t.IsProduct boundary (termMoves first second i j) :=
  exists_getElem?_of_forall₂ (forall₂_pairs_of_build h) (getElem?_speciesPairs hi hj)

/-- Every term is the entry of a pair of species. -/
theorem exists_pair_of_mem (h : build first second species boundary = .ok o) {t : BasicOperator}
    (ht : t ∈ o.operators) : ∃ i j, t.IsProduct boundary (termMoves first second i j) := by
  obtain ⟨⟨i, j⟩, -, hproduct⟩ := exists_of_mem_right (forall₂_pairs_of_build h) ht
  exact ⟨i, j, hproduct⟩

/-- Two entries are equal exactly if they have **the same moves**. -/
theorem entry?_eq_iff (h : build first second species boundary = .ok o) {i j k l : Nat}
    (hi : i < species) (hj : j < species) (hk : k < species) (hl : l < species) :
    o.entry? species i j = o.entry? species k l ↔
      (termMoves first second i j).Perm (termMoves first second k l) := by
  obtain ⟨t, ht, hproduct⟩ := exists_entry h hi hj
  obtain ⟨t', ht', hproduct'⟩ := exists_entry h hk hl
  rw [ht, ht', Option.some.injEq, hproduct.eq_iff_perm hproduct']

/-- A correlation can be built of **some species** on two sites of one dimension, which the boundary
conditions have too. -/
theorem exists_build_iff :
    (∃ o, build first second species boundary = .ok o) ↔
      0 < species ∧ second.dimension = first.dimension ∧
        ∀ c, boundary = some c → c.dimension = first.dimension := by
  constructor
  · rintro ⟨o, h⟩
    have hspecies := (forall₂_of_build h).1
    obtain ⟨t, -, hproduct⟩ := exists_entry h hspecies hspecies
    have hfirst : first.stay 0 ∈ termMoves first second 0 0 := by
      rw [termMoves]
      split <;> simp
    have hsecond : second.stay 0 ∈ termMoves first second 0 0 := by
      rw [termMoves]
      split <;> simp_all
    obtain ⟨hsites, hboundary⟩ := hproduct.dimension_eq hfirst
    exact ⟨hspecies, hsites _ hsecond, hboundary⟩
  · rintro ⟨hspecies, hdim, hboundary⟩
    have hcheck : checkDimensions [first, second] = .ok () :=
      checkDimensions_eq_ok.mpr ⟨first.dimension, by simp [hdim]⟩
    have hterm (i j : Nat) : ∃ t, term first second boundary i j = .ok t := by
      rw [term]
      split
      · exact exists_densities (by simp) hboundary _
      · exact exists_densities (by simp [hdim]) hboundary _
    obtain ⟨operators, hoperators⟩ :=
      exists_forall₂ fun (p : Nat × Nat) (_ : p ∈ speciesPairs species) => hterm p.1 p.2
    rw [build, if_neg hspecies.ne']
    exact ⟨⟨operators⟩, bind_eq_ok.mpr ⟨(), hcheck,
      bind_eq_ok.mpr ⟨operators, mapM_eq_ok.mpr hoperators, rfl⟩⟩⟩

/-- Correlations of the same sites in either order have **the same terms**, each as often. -/
theorem perm_operators_of_build {o' : DensityDensity}
    (h : build first second species boundary = .ok o)
    (h' : build second first species boundary = .ok o') : o'.operators.Perm o.operators := by
  have hswapped : List.Forall₂ (fun p t => t.IsProduct boundary (termMoves first second p.1 p.2))
      ((speciesPairs species).map Prod.swap) o'.operators := by
    rw [List.forall₂_map_left_iff]
    refine (forall₂_pairs_of_build h').imp ?_
    -- Naming the sites in the other order is naming the species in the other order.
    rintro p t ⟨hmoves, hboundary⟩
    exact ⟨hmoves.trans (termMoves_swap first second p.2 p.1), hboundary⟩
  obtain ⟨terms, hterms, hperm⟩ :=
    List.perm_comp_forall₂ (map_swap_speciesPairs_perm species).symm hswapped
  have hsame : terms = o.operators :=
    List.right_unique_forall₂' (fun _ _ _ ht ht' => ht.eq ht' (.refl _)) hterms
      (forall₂_pairs_of_build h)
  exact hsame ▸ hperm.symm

end Entries

/-! ### Two sites -/

section TwoSites

variable {first second : Site} {species : Nat} {boundary : Option BoundaryConditions}
  {o : DensityDensity}

/-- On two sites **no term** stands twice. -/
theorem nodup_operators_of_build (hne : first ≠ second)
    (h : build first second species boundary = .ok o) : o.operators.Nodup := by
  refine nodup_of_forall₂ ?_ (forall₂_pairs_of_build h) (nodup_speciesPairs species)
  intro p p' t ht ht'
  exact (termMoves_perm_iff_of_ne hne).mp ((ht.eq_iff_perm ht').mp rfl)

/-- On two sites **all terms are measured**. -/
theorem length_basicOperators_of_ne (hne : first ≠ second)
    (h : build first second species boundary = .ok o) :
    (Observable.densityDensity o).basicOperators.length = species * species := by
  rw [Observable.basicOperators, Observable.terms,
    firstSeen_eq_self (nodup_operators_of_build hne h), length_operators_of_build h]

/-- On two sites all terms have **two hops**. -/
theorem length_hops_of_build (hne : first ≠ second)
    (h : build first second species boundary = .ok o) {t : BasicOperator} (ht : t ∈ o.operators) :
    t.hops.length = 2 := by
  obtain ⟨i, j, hproduct⟩ := exists_pair_of_mem h ht
  rw [hproduct.length_hops, termMoves, if_neg fun hsame => hne hsame.1]
  rfl

end TwoSites

/-! ### One site -/

section OneSite

variable {site : Site} {species : Nat} {boundary : Option BoundaryConditions} {o : DensityDensity}

/-- The terms of an **unordered pair** of species on one site. -/
def IsTermOf (site : Site) (boundary : Option BoundaryConditions) (pair : Sym2 Nat)
    (t : BasicOperator) : Prop :=
  ∃ p, unordered p = pair ∧ t.IsProduct boundary (termMoves site site p.1 p.2)

/-- Different unordered pairs have different terms, and each has **one**. -/
theorem IsTermOf.eq_iff_eq {pair pair' : Sym2 Nat} {t t' : BasicOperator}
    (h : IsTermOf site boundary pair t) (h' : IsTermOf site boundary pair' t') :
    pair = pair' ↔ t = t' := by
  obtain ⟨p, rfl, hproduct⟩ := h
  obtain ⟨p', rfl, hproduct'⟩ := h'
  rw [hproduct.eq_iff_perm hproduct', termMoves_self_perm_iff]

/-- The terms are those of the unordered pairs of species. -/
theorem forall₂_unordered_of_build (h : build site site species boundary = .ok o) :
    List.Forall₂ (IsTermOf site boundary) ((speciesPairs species).map unordered) o.operators :=
  List.forall₂_map_left_iff.mpr
    ((forall₂_pairs_of_build h).imp fun p _ hproduct => ⟨p, rfl, hproduct⟩)

/-- On one site **as many operators are measured** as there are unordered pairs of species. -/
theorem length_basicOperators_self (h : build site site species boundary = .ok o) :
    (Observable.densityDensity o).basicOperators.length = species * (species + 1) / 2 := by
  have hterms := forall₂_firstSeen (fun _ _ _ _ ht ht' => ht.eq_iff_eq ht')
    (forall₂_unordered_of_build h)
  rw [Observable.basicOperators, Observable.terms, ← hterms.length_eq, length_firstSeen_unordered]

/-- The term of two different species **stands twice**, the density of one species once. -/
theorem count_operators (h : build site site species boundary = .ok o) {i j : Nat}
    (hi : i < species) (hj : j < species) {t : BasicOperator}
    (ht : o.entry? species i j = some t) : o.operators.count t = if i = j then 1 else 2 := by
  obtain ⟨t', ht', hproduct⟩ := exists_entry h hi hj
  obtain rfl := Option.some.inj (ht.symm.trans ht')
  rw [count_of_forall₂ (fun _ _ _ _ ht ht' => ht.eq_iff_eq ht') (forall₂_unordered_of_build h)
    ⟨(i, j), rfl, hproduct⟩, ← count_unordered hi hj]
  rfl

/-- The entry of a species with itself is **its density**. -/
theorem exists_entry_self (h : build site site species boundary = .ok o) {i : Nat}
    (hi : i < species) : ∃ t, o.entry? species i i = some t ∧ t.hops = [.density site i] := by
  obtain ⟨t, ht, hproduct⟩ := exists_entry h hi hi
  refine ⟨t, ht, ?_⟩
  have hmoves : t.hops.map Hop.move = [Hop.density site i].map Hop.move := by
    have hperm := hproduct.1
    rw [termMoves, if_pos ⟨rfl, rfl⟩, List.perm_singleton] at hperm
    exact hperm
  exact List.map_injective_iff.mpr Hop.move_injective hmoves

/-- The entry of two different species has **two hops**. -/
theorem exists_entry_of_ne (h : build site site species boundary = .ok o) {i j : Nat}
    (hi : i < species) (hj : j < species) (hne : i ≠ j) :
    ∃ t, o.entry? species i j = some t ∧ t.hops.length = 2 := by
  obtain ⟨t, ht, hproduct⟩ := exists_entry h hi hj
  refine ⟨t, ht, ?_⟩
  rw [hproduct.length_hops, termMoves, if_neg fun hsame => hne hsame.2]
  rfl

end OneSite

/-! ### Values -/

/-- The value of a correlation is **the sum of the values of all its terms**, those that stand twice
counted twice. -/
theorem evaluate_eq_sum {R : Type} [Scalar R] {o : DensityDensity} {c : MeasurementContext R}
    {value : BasicOperator → Complex R}
    (hc : ∀ b ∈ (Observable.densityDensity o).basicOperators, c.get? b = some (value b)) :
    o.evaluate c = .ok (Complex.sum (o.operators.map value)) :=
  measuredSum_eq_ok fun b hb => hc b (mem_firstSeen.mpr hb)

/-- **A density correlation counts every pair of species and measures every term once.** It can be
built of some species on two sites of one dimension, with boundary conditions of that dimension. It
has one entry for each pair of species, the product of their densities, and its value is the sum
over all entries. With the sites in the other order the entries are those of the pairs in the other
order. On two sites all entries are different, so that what is measured is as much. On one site the
entry of a species with itself is a single density, and entries of two species are equal exactly if
the species are the same in whatever order: those of two different species are measured once and
counted twice. -/
theorem build_counts_pairs (first second : Site) (species : Nat)
    (boundary : Option BoundaryConditions) :
    ((∃ o, build first second species boundary = .ok o) ↔
      0 < species ∧ second.dimension = first.dimension ∧
        ∀ c, boundary = some c → c.dimension = first.dimension) ∧
    ∀ o, build first second species boundary = .ok o →
      o.operators.length = species * species ∧
      (∀ i < species, ∀ j < species, ∃ t, o.entry? species i j = some t ∧
        t.IsProduct boundary (termMoves first second i j)) ∧
      (∃ o', build second first species boundary = .ok o' ∧
        (∀ i < species, ∀ j < species, o.entry? species i j = o'.entry? species j i) ∧
        o'.operators.Perm o.operators) ∧
      (first ≠ second →
        o.operators.Nodup ∧ (∀ t ∈ o.operators, t.hops.length = 2) ∧
        (Observable.densityDensity o).basicOperators.length = species * species) ∧
      (first = second →
        (∀ i < species, ∃ t, o.entry? species i i = some t ∧ t.hops = [.density first i]) ∧
        (∀ i < species, ∀ j < species, i ≠ j →
          ∃ t, o.entry? species i j = some t ∧ t.hops.length = 2) ∧
        (∀ i < species, ∀ j < species, ∀ k < species, ∀ l < species,
          o.entry? species i j = o.entry? species k l ↔ i = k ∧ j = l ∨ i = l ∧ j = k) ∧
        (Observable.densityDensity o).basicOperators.length = species * (species + 1) / 2 ∧
        ∀ i < species, ∀ j < species, ∀ t, o.entry? species i j = some t →
          o.operators.count t = if i = j then 1 else 2) ∧
      (∀ {R : Type} [Scalar R] (c : MeasurementContext R) (value : BasicOperator → Complex R),
        (∀ b ∈ (Observable.densityDensity o).basicOperators, c.get? b = some (value b)) →
        o.evaluate c = .ok (Complex.sum (o.operators.map value))) ∧
      ∀ (c : MeasurementContext ℝ) (value : BasicOperator → Complex ℝ),
        (∀ b ∈ (Observable.densityDensity o).basicOperators, c.get? b = some (value b)) →
        o.evaluate c = .ok (Complex.sum ((Observable.densityDensity o).basicOperators.map
          fun b => (o.operators.count b : ℝ) * value b)) := by
  refine ⟨exists_build_iff, fun o h => ?_⟩
  refine ⟨length_operators_of_build h, fun i hi j hj => exists_entry h hi hj, ?exchanged, ?twoSites,
    ?oneSite, fun _ _ => evaluate_eq_sum, ?exact⟩
  case exchanged =>
    obtain ⟨hspecies, hdim, hboundary⟩ := exists_build_iff.mp ⟨o, h⟩
    obtain ⟨o', h'⟩ : ∃ o', build second first species boundary = .ok o' :=
      exists_build_iff.mpr ⟨hspecies, hdim.symm, fun c hc => (hboundary c hc).trans hdim.symm⟩
    refine ⟨o', h', fun i hi j hj => ?_, perm_operators_of_build h h'⟩
    obtain ⟨t, ht, hproduct⟩ := exists_entry h hi hj
    obtain ⟨t', ht', hproduct'⟩ := exists_entry h' hj hi
    rw [ht, ht', hproduct'.eq hproduct (termMoves_swap first second i j)]
  case twoSites =>
    intro hne
    exact ⟨nodup_operators_of_build hne h, fun t => length_hops_of_build hne h,
      length_basicOperators_of_ne hne h⟩
  case oneSite =>
    rintro rfl
    refine ⟨fun i => exists_entry_self h, fun i hi j => exists_entry_of_ne h hi, ?_,
      length_basicOperators_self h, fun i hi j hj t => count_operators h hi hj⟩
    intro i hi j hj k hk l hl
    rw [entry?_eq_iff h hi hj hk hl, termMoves_self_perm_iff, unordered, unordered, Sym2.eq_iff]
  case exact =>
    intro c value hc
    rw [evaluate_eq_sum hc, Complex.sum_map_eq_sum_firstSeen]
    rfl

/-- The square of the density of a spin on a site is that density, and the product of the densities
of both spins stands twice. -/
example : (speciesPairs 2).map (fun p => (termMoves (.ofCell [0]) (.ofCell [0]) p.1 p.2).length) =
    [1, 2, 2, 1] := by
  decide

end DensityDensity

end LatticeObservables
