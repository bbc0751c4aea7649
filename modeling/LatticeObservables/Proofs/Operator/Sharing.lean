import LatticeObservables.Proofs.Operator.SpeciesPairs
import LatticeObservables.Proofs.Operator.SpinSymmetry

/-!
# Shared Measurements

Observables that are declared independently are measured together: their basic operators are united
in one set (`Observable.union`). Each stands there once, at the place where it was seen first, and
the order in which the observables are united changes nothing else (`Observable.union_perm`).

Density and spin correlations of the same sites share the densities of two spins, in whatever order
the sites are named. The exchange of the spins is shared with nothing, because it is the only term
that moves a particle, and because in the other order of the sites it is another operator, its
adjoint (`Observable.shared_measurements`).
-/

namespace LatticeObservables

/-! ### Sets of basic operators -/

namespace Observable

/-- What is measured for several observables: their basic operators, **united in one set** one
observable after the other. -/
def union (observables : List Observable) : List BasicOperator :=
  observables.foldl (fun all o => firstSeen (all ++ o.basicOperators)) []

/-- One more observable adds **its basic operators** to the set. -/
theorem union_append_singleton (observables : List Observable) (o : Observable) :
    union (observables ++ [o]) = firstSeen (union observables ++ o.basicOperators) := by
  rw [union, List.foldl_append]
  rfl

/-- The set is what is seen first among **the terms of all observables**. -/
theorem union_eq (observables : List Observable) :
    union observables = firstSeen (observables.flatMap terms) := by
  induction observables using List.reverseRecOn with
  | nil => rfl
  | append_singleton observables o ih =>
      rw [union_append_singleton, ih, basicOperators, firstSeen_append_firstSeen,
        firstSeen_firstSeen_append, List.flatMap_append, List.flatMap_singleton]

/-- The set holds the terms of the observables and nothing else. -/
theorem mem_union {observables : List Observable} {b : BasicOperator} :
    b ∈ union observables ↔ ∃ o ∈ observables, b ∈ o.terms := by
  rw [union_eq, mem_firstSeen, List.mem_flatMap]

/-- No basic operator is in the set twice. -/
theorem nodup_union (observables : List Observable) : (union observables).Nodup := by
  rw [union_eq]
  exact nodup_firstSeen _

/-- The set of one observable is that of its basic operators. -/
theorem union_singleton (o : Observable) : union [o] = o.basicOperators := by
  rw [union_eq, List.flatMap_singleton, basicOperators]

/-- The set is in the **first-seen order** of all basic operators. -/
theorem seenOrder_union (observables : List Observable) :
    SeenOrder (union observables) (observables.flatMap basicOperators) := by
  have hunion : union observables = firstSeen (observables.flatMap basicOperators) := by
    induction observables using List.reverseRecOn with
    | nil => rfl
    | append_singleton observables o ih =>
        rw [union_append_singleton, ih, firstSeen_firstSeen_append, List.flatMap_append,
          List.flatMap_singleton]
  rw [hunion]
  exact firstSeen_seenOrder _

/-- In **whatever order** observables are united, they make the same set. -/
theorem union_perm {observables observables' : List Observable}
    (h : observables.Perm observables') :
    (union observables).Perm (union observables') := by
  refine (List.perm_ext_iff_of_nodup (nodup_union _) (nodup_union _)).mpr fun b => ?_
  simp only [mem_union, h.mem_iff]

/-- An observable whose terms are all measured **adds nothing**. -/
theorem union_append_of_subset (observables : List Observable) (o : Observable)
    (h : ∀ b ∈ o.terms, b ∈ union observables) :
    union (observables ++ [o]) = union observables := by
  rw [union_append_singleton, basicOperators, firstSeen_append_firstSeen,
    firstSeen_append_of_subset h, firstSeen_eq_self (nodup_union _)]

/-- An observable whose terms are all measured but the last one **adds that one**. -/
theorem union_append_of_new (observables : List Observable) (o : Observable)
    {l : List BasicOperator} {b : BasicOperator}
    (hterms : o.terms = l ++ [b]) (hl : ∀ a ∈ l, a ∈ union observables)
    (hb : b ∉ union observables) : union (observables ++ [o]) = union observables ++ [b] := by
  have hnew : b ∉ union observables ++ l := by
    rw [List.mem_append]
    exact fun h => h.elim hb fun h => hb (hl b h)
  rw [union_append_singleton, basicOperators, firstSeen_append_firstSeen, hterms,
    ← List.append_assoc, firstSeen_append_singleton, if_neg hnew, firstSeen_append_of_subset hl,
    firstSeen_eq_self (nodup_union _)]

end Observable

/-! ### Terms of density correlations -/

namespace DensityDensity

variable {first second : Site} {species : Nat} {boundary : Option BoundaryConditions}
  {o : DensityDensity} {t : BasicOperator} {terms : List Move}

/-- A product with the moves of a pair of species **is its term**. -/
theorem mem_operators_of_isProduct (h : build first second species boundary = .ok o) {i j : Nat}
    (hi : i < species) (hj : j < species) (ht : t.IsProduct boundary terms)
    (hterms : terms.Perm (termMoves first second i j)) : t ∈ o.operators := by
  obtain ⟨t', ht', hproduct⟩ := exists_entry h hi hj
  rw [ht.eq hproduct hterms]
  exact List.mem_of_getElem? ht'

/-- No term **moves a particle**. -/
theorem stays_of_mem_operators (h : build first second species boundary = .ok o)
    (ht : t ∈ o.operators) (hproduct : t.IsProduct boundary terms) :
    ∀ m ∈ terms, m.1 = m.2.1 := by
  obtain ⟨i, j, hmoves⟩ := exists_pair_of_mem h ht
  intro m hm
  have hmem : m ∈ termMoves first second i j :=
    (hproduct.1.symm.trans hmoves.1).mem_iff.mp hm
  rw [termMoves] at hmem
  split at hmem
  · obtain rfl := List.mem_singleton.mp hmem
    rfl
  · rcases List.mem_pair.mp hmem with rfl | rfl <;> rfl

end DensityDensity

/-! ### What is shared -/

section Shared

variable {first second : Site} {species : Nat} {boundary : Option BoundaryConditions}
  {d : DensityDensity}

/-- Of the terms of a spin correlation of two sites, all but **the exchange** are terms of the
density correlation. -/
theorem SpinSpin.exists_exchange {s : SpinSpin} (hspecies : 2 ≤ species) (hne : first ≠ second)
    (h : DensityDensity.build first second species boundary = .ok d)
    (hs : SpinSpin.build first second boundary = .ok s) :
    ∃ shared exchange, s.operators = shared ++ [exchange] ∧ (∀ b ∈ shared, b ∈ d.operators) ∧
      exchange.IsProduct boundary [(first, second, 0), (second, first, 1)] ∧
      exchange ∉ d.operators := by
  have density {b : BasicOperator} {i j : Nat} (hi : i < 2) (hj : j < 2)
      (hb : b.IsProduct boundary [first.stay i, second.stay j]) : b ∈ d.operators := by
    refine DensityDensity.mem_operators_of_isProduct h (hi.trans_le hspecies)
      (hj.trans_le hspecies) hb ?_
    rw [DensityDensity.termMoves, if_neg fun hsame => hne hsame.1]
  have hterms := SpinSpin.forall₂_of_build hs
  rw [SpinSpin.expansion, if_neg hne] at hterms
  cases s with
  | sameSite up down => simp [SpinSpin.operators] at hterms
  | twoSites upUp downDown upDown downUp exchange =>
      simp only [SpinSpin.operators, List.forall₂_cons, List.forall₂_nil_left_iff, and_true]
        at hterms
      obtain ⟨hupUp, hdownDown, hupDown, hdownUp, hexchange⟩ := hterms
      refine ⟨[upUp, downDown, upDown, downUp], exchange, rfl, ?_, hexchange, fun hmem => ?_⟩
      · simp only [List.forall_mem_cons]
        exact ⟨density (by simp) (by simp) hupUp, density (by simp) (by simp) hdownDown,
          density (by simp) (by simp) hupDown, density (by simp) (by simp) hdownUp, by simp⟩
      · exact hne (DensityDensity.stays_of_mem_operators h hmem hexchange _ List.mem_cons_self)

/-- The terms of a spin correlation of **one site** are terms of the density correlation. -/
theorem SpinSpin.mem_operators_of_sameSite {site : Site} {s : SpinSpin} (hspecies : 2 ≤ species)
    (h : DensityDensity.build site site species boundary = .ok d)
    (hs : SpinSpin.build site site boundary = .ok s) : ∀ b ∈ s.operators, b ∈ d.operators := by
  have hterms := SpinSpin.forall₂_of_build hs
  rw [SpinSpin.expansion, if_pos rfl] at hterms
  intro b hb
  obtain ⟨moves, hmoves, hproduct⟩ := exists_of_mem_right hterms hb
  have shared {i : Nat} (hi : i < 2) (hsame : moves = [site.stay i]) : b ∈ d.operators := by
    have hi := hi.trans_le hspecies
    refine DensityDensity.mem_operators_of_isProduct h hi hi hproduct ?_
    rw [DensityDensity.termMoves, if_pos ⟨rfl, rfl⟩, hsame]
  rcases List.mem_pair.mp hmoves with hsame | hsame
  · exact shared (by simp) hsame
  · exact shared (by simp) hsame

namespace Observable

/-- **Correlations of the same sites share what is measured.** For at least two species, the density
and the spin correlation of two different sites have one basic operator more than the density
correlation alone, the exchange. The density correlation of the sites in the other order adds
nothing, and the spin correlation in the other order adds one operator, the adjoint of the exchange,
whether or not that density correlation is there. On one site the spin correlation adds nothing.
The order in which correlations are united matters only for the order of the set, in which every
basic operator stands where it was seen first. -/
theorem shared_measurements (first second : Site) (species : Nat)
    (boundary : Option BoundaryConditions) (hspecies : 2 ≤ species)
    (hdim : second.dimension = first.dimension)
    (hboundary : ∀ c, boundary = some c → c.dimension = first.dimension) :
    ∃ d d' : DensityDensity, ∃ s s' : SpinSpin,
      DensityDensity.build first second species boundary = .ok d ∧
      DensityDensity.build second first species boundary = .ok d' ∧
      SpinSpin.build first second boundary = .ok s ∧
      SpinSpin.build second first boundary = .ok s' ∧
      (first ≠ second → ∃ exchange : BasicOperator,
        exchange.IsProduct boundary [(first, second, 0), (second, first, 1)] ∧
        union [densityDensity d, spinSpin s] = (densityDensity d).basicOperators ++ [exchange] ∧
        (union [densityDensity d, spinSpin s]).length = species * species + 1 ∧
        union [densityDensity d, spinSpin s, densityDensity d'] =
          union [densityDensity d, spinSpin s] ∧
        union [densityDensity d, spinSpin s, spinSpin s'] =
          union [densityDensity d, spinSpin s] ++ [exchange.adjoint] ∧
        union [densityDensity d, spinSpin s, densityDensity d', spinSpin s'] =
          union [densityDensity d, spinSpin s] ++ [exchange.adjoint]) ∧
      (first = second →
        union [densityDensity d, spinSpin s] = (densityDensity d).basicOperators) ∧
      ∀ observables : List Observable,
        SeenOrder (union observables) (observables.flatMap basicOperators) ∧
        ∀ observables', observables.Perm observables' →
          (union observables).Perm (union observables') := by
  have hboundary' : ∀ c, boundary = some c → c.dimension = second.dimension := fun c hc =>
    (hboundary c hc).trans hdim.symm
  have hpositive : 0 < species := by omega
  obtain ⟨d, hd⟩ : ∃ d, DensityDensity.build first second species boundary = .ok d :=
    DensityDensity.exists_build_iff.mpr ⟨hpositive, hdim, hboundary⟩
  obtain ⟨d', hd'⟩ : ∃ d', DensityDensity.build second first species boundary = .ok d' :=
    DensityDensity.exists_build_iff.mpr ⟨hpositive, hdim.symm, hboundary'⟩
  obtain ⟨s, hs⟩ := SpinSpin.exists_build first second rfl hdim hboundary
  obtain ⟨s', hs'⟩ := SpinSpin.exists_build second first rfl hdim.symm hboundary'
  have hone (b : BasicOperator) : b ∈ union [densityDensity d] ↔ b ∈ d.operators := by
    rw [union_singleton, basicOperators, mem_firstSeen]
    rfl
  refine ⟨d, d', s, s', hd, hd', hs, hs', ?twoSites, ?oneSite, fun observables =>
    ⟨seenOrder_union observables, fun _ => union_perm⟩⟩
  case twoSites =>
    intro hne
    obtain ⟨shared, exchange, hterms, hshared, hexchange, hnew⟩ :=
      SpinSpin.exists_exchange hspecies hne hd hs
    obtain ⟨shared', exchange', hterms', hshared', hexchange', hnew'⟩ :=
      SpinSpin.exists_exchange hspecies hne.symm hd' hs'
    have hsame := DensityDensity.perm_operators_of_build hd hd'
    obtain rfl := hexchange'.eq hexchange.adjoint (.refl _)
    -- In the other order each spin moves the other way.
    have hother : exchange.adjoint ≠ exchange := by
      intro heq
      have hmem := ((hexchange'.eq_iff_perm hexchange).mp heq).mem_iff.mp List.mem_cons_self
      simp [hne, hne.symm] at hmem
    have hboth : union [densityDensity d, spinSpin s] =
        (densityDensity d).basicOperators ++ [exchange] := by
      rw [← union_singleton]
      exact union_append_of_new [densityDensity d] (spinSpin s) hterms
        (fun b hb => (hone b).mpr (hshared b hb)) fun hmem => hnew ((hone _).mp hmem)
    have hmem (b : BasicOperator) :
        b ∈ union [densityDensity d, spinSpin s] ↔ b ∈ d.operators ∨ b = exchange := by
      rw [hboth, List.mem_append, basicOperators, mem_firstSeen, List.mem_singleton]
      rfl
    have hadded : union [densityDensity d, spinSpin s, densityDensity d'] =
        union [densityDensity d, spinSpin s] :=
      union_append_of_subset [densityDensity d, spinSpin s] (densityDensity d') fun b hb =>
        (hmem b).mpr (.inl (hsame.mem_iff.mp hb))
    -- The spin correlation in the other order, behind any list that makes the same set.
    have hlast {observables : List Observable}
        (h : union observables = union [densityDensity d, spinSpin s]) :
        union (observables ++ [spinSpin s']) =
          union [densityDensity d, spinSpin s] ++ [exchange.adjoint] := by
      rw [← h]
      refine union_append_of_new observables (spinSpin s') hterms' (fun b hb => ?_) fun hb => ?_
      · rw [h, hmem]
        exact .inl (hsame.mem_iff.mp (hshared' b hb))
      · rw [h, hmem] at hb
        exact hb.elim (fun hb => hnew' (hsame.mem_iff.mpr hb)) hother
    refine ⟨exchange, hexchange, hboth, ?_, hadded, hlast rfl, hlast hadded⟩
    rw [hboth, List.length_append, DensityDensity.length_basicOperators_of_ne hne hd,
      List.length_singleton]
  case oneSite =>
    rintro rfl
    rw [← union_singleton]
    exact union_append_of_subset [densityDensity d] (spinSpin s) fun b hb =>
      (hone b).mpr (SpinSpin.mem_operators_of_sameSite hspecies hd hs b hb)

/-- Two neighbours on a line with particles of two spins: the four densities of the density
correlation serve the spin correlation too, which adds one operator in either order. -/
theorem shared_measurements_neighbours :
    ∃ d d' s s', DensityDensity.build (.ofCell [0]) (.ofCell [1]) 2 none = .ok d ∧
      DensityDensity.build (.ofCell [1]) (.ofCell [0]) 2 none = .ok d' ∧
      SpinSpin.build (.ofCell [0]) (.ofCell [1]) none = .ok s ∧
      SpinSpin.build (.ofCell [1]) (.ofCell [0]) none = .ok s' ∧
      (union [densityDensity d, spinSpin s]).length = 5 ∧
      (union [densityDensity d, spinSpin s, densityDensity d']).length = 5 ∧
      (union [densityDensity d, spinSpin s, densityDensity d', spinSpin s']).length = 6 := by
  obtain ⟨d, d', s, s', hd, hd', hs, hs', htwo, -⟩ :=
    shared_measurements (.ofCell [0]) (.ofCell [1]) 2 none (by decide) rfl (by simp)
  obtain ⟨exchange, -, -, hlength, hadded, -, hlast⟩ := htwo (by decide)
  refine ⟨d, d', s, s', hd, hd', hs, hs', hlength, ?_, ?_⟩
  · rw [hadded, hlength]
  · rw [hlast, List.length_append, hlength, List.length_singleton]

end Observable

end Shared

end LatticeObservables
