import Mathlib.Data.Fintype.Pi
import Mathlib.Data.List.FinRange
import LatticeObservables.Proofs.Evaluation.Reading
import LatticeObservables.Proofs.Operator.Composite

/-!
# The Cyclic Permutation of Four Spins

The table of a spin ring exchange is the cyclic permutation of the spins around the ring. A
term takes the spin of each corner away and puts the spin of the next corner there
(`SpinRingExchange.Term.IsCyclic`), and the terms do so for every assignment of spins once. This
is checked on the table, and carried over to the operators on any four different sites, whose
hops stand in canonical order and no longer in that of the table.

## Main statements

* `SpinRingExchange.build_eq_ok_iff`: which rings are accepted, and what they are made of.
* `SpinRingExchange.permutes_of_isCyclic`: what a term permutes, its operator permutes.
* `SpinRingExchange.evaluate_of_build`: the signs with which operators are counted.
* `SpinRingExchange.build_permutes_cyclically`: the sixteen operators and their signs.
-/

namespace LatticeObservables

namespace SpinRingExchange

/-- An **assignment of spins** to the corners of a ring. -/
abbrev Spins := Corner → Fin 2

/-! ### Terms -/

namespace Term

/-- The spins that a term takes away from the corners. -/
def spins (t : Term) : Spins := fun k =>
  (t.find? (·.1 = k)).elim 0 fun m => Fin.ofNat 2 m.2.2

/-- A term **permutes spins cyclically**: it takes from each corner just its spin, and puts there
just the spin of the next corner. -/
structure IsCyclic (t : Term) (σ : Spins) : Prop where
  length : t.length = 4
  leaving : ∀ k, (t.filter (·.1 = k)).map (·.2.2) = [(σ k : Nat)]
  arriving : ∀ k, (t.filter (·.2.1 = k)).map (·.2.2) = [(σ (k + 1) : Nat)]

/-- The number of moves to another corner. -/
def movers (t : Term) : Nat :=
  t.countP fun m => m.1 ≠ m.2.1

end Term

/-- The terms permute the spins that they take. -/
theorem isCyclic_of_mem_table {t : Term} (ht : t ∈ table) : t.IsCyclic t.spins := by
  have checked : ∀ t ∈ table, t.length = 4 ∧
      (∀ k, (t.filter (·.1 = k)).map (·.2.2) = [(t.spins k : Nat)]) ∧
        ∀ k, (t.filter (·.2.1 = k)).map (·.2.2) = [(t.spins (k + 1) : Nat)] := by
    decide
  obtain ⟨length, leaving, arriving⟩ := checked t ht
  exact ⟨length, leaving, arriving⟩

/-- No two terms take the same spins. -/
theorem nodup_map_spins_table : (table.map Term.spins).Nodup := by
  decide

/-- There is a term for **every assignment of spins**. -/
theorem mem_map_spins_table (σ : Spins) : σ ∈ table.map Term.spins := by
  have hcard : (table.map Term.spins).toFinset.card = Fintype.card Spins := by
    rw [List.toFinset_card_of_nodup nodup_map_spins_table, List.length_map]
    rfl
  rw [← List.mem_toFinset, Finset.eq_univ_of_card _ hcard]
  exact Finset.mem_univ σ

/-- The **sign** of a permutation that moves a number of spins: every two that are moved turn
it. -/
def signOfMovers (n : Nat) : Int :=
  (-1) ^ (n / 2)

/-- The terms that are counted with a plus sign have it. -/
theorem sign_alignedTable : ∀ t ∈ alignedTable, signOfMovers t.movers = 1 := by
  decide

/-- The terms that are counted with a minus sign have it. -/
theorem sign_mixedTable : ∀ t ∈ mixedTable, signOfMovers t.movers = -1 := by
  decide

/-! ### Operators of terms -/

variable {ring : Corner → Site} {boundary : Option BoundaryConditions}

/-- A move on the sites of a ring. -/
def onRing (ring : Corner → Site) (m : Corner × Corner × Nat) : Site × Site × Nat :=
  (ring m.1, ring m.2.1, m.2.2)

/-- The operator of a term has **the moves of the term** on the sites of the ring. -/
theorem moves_termOperator {t : Term} {o : BasicOperator}
    (h : termOperator ring boundary t = .ok o) :
    (o.hops.map Hop.move).Perm (t.map (onRing ring)) :=
  (moves_eq_ok h).1

/-- On different sites, the hops at a site have the species of the moves at its corner. What
is meant by at a site, leaving it or arriving there, is up to `site`, and `corner` has to
agree. -/
theorem species_termOperator (hring : Function.Injective ring) {t : Term} {o : BasicOperator}
    (h : termOperator ring boundary t = .ok o) (site : Site × Site × Nat → Site)
    (corner : Corner × Corner × Nat → Corner) (hsite : ∀ m, site (onRing ring m) = ring (corner m))
    (k : Corner) :
    ((o.hops.filter fun a => site a.move = ring k).map Hop.species).Perm
      ((t.filter (corner · = k)).map (·.2.2)) := by
  have hops : (o.hops.filter fun a => site a.move = ring k).map Hop.species =
      ((o.hops.map Hop.move).filter (site · = ring k)).map (·.2.2) := by
    rw [List.filter_map, List.map_map]
    rfl
  have terms : ((t.map (onRing ring)).filter (site · = ring k)).map (·.2.2) =
      (t.filter (corner · = k)).map (·.2.2) := by
    rw [List.filter_map, List.map_map]
    simp only [Function.comp_def, hsite, hring.eq_iff]
    rfl
  rw [hops, ← terms]
  exact ((moves_termOperator h).filter _).map _

/-- An operator **permutes the spins** of four sites cyclically: of its four hops just one leaves
each site, with the spin of that site, and just one arrives there, with the spin of the next
site. -/
structure Permutes (ring : Corner → Site) (σ : Spins) (o : BasicOperator) : Prop where
  hops_length : o.hops.length = 4
  leaving : ∀ k, ∃ a, (o.hops.filter fun a => a.source = ring k) = [a] ∧ a.species = σ k
  arriving : ∀ k, ∃ a, (o.hops.filter fun a => a.destination = ring k) = [a] ∧
    a.species = σ (k + 1)

/-- An operator permutes one assignment of spins only. -/
theorem Permutes.unique {σ τ : Spins} {o : BasicOperator} (hσ : Permutes ring σ o)
    (hτ : Permutes ring τ o) : σ = τ := by
  funext k
  obtain ⟨a, ha, hspecies⟩ := hσ.leaving k
  obtain ⟨b, hb, hspecies'⟩ := hτ.leaving k
  rw [ha] at hb
  obtain rfl : a = b := List.cons.inj hb |>.1
  exact Fin.ext (hspecies.symm.trans hspecies')

/-- What a term permutes on corners, its operator permutes on **any four different sites**. -/
theorem permutes_of_isCyclic (hring : Function.Injective ring) {t : Term} {σ : Spins}
    {o : BasicOperator} (ht : t.IsCyclic σ) (h : termOperator ring boundary t = .ok o) :
    Permutes ring σ o := by
  have single {l : List Hop} {n : Nat} (h : (l.map Hop.species).Perm [n]) :
      ∃ a, l = [a] ∧ a.species = n :=
    List.map_eq_singleton_iff.mp (List.perm_singleton.mp h)
  refine ⟨?_, fun k => single ?_, fun k => single ?_⟩
  · have hsame := (moves_termOperator h).length_eq
    rwa [List.length_map, List.length_map, ht.length] at hsame
  · rw [← ht.leaving k]
    exact species_termOperator hring h (·.1) (·.1) (fun _ => rfl) k
  · rw [← ht.arriving k]
    exact species_termOperator hring h (·.2.1) (·.2.1) (fun _ => rfl) k

/-- The **sign** of an operator, from the number of its hops that leave their source. -/
def signOf (o : BasicOperator) : Int :=
  signOfMovers (o.hops.countP fun a => a.source ≠ a.destination)

/-- The sign of an operator on different sites is that of its term. -/
theorem signOf_termOperator (hring : Function.Injective ring) {t : Term} {o : BasicOperator}
    (h : termOperator ring boundary t = .ok o) : signOf o = signOfMovers t.movers := by
  have hops : (o.hops.countP fun a => a.source ≠ a.destination) =
      (o.hops.map Hop.move).countP fun m => m.1 ≠ m.2.1 := by
    rw [List.countP_map]
    rfl
  have terms : ((t.map (onRing ring)).countP fun m => m.1 ≠ m.2.1) = t.movers := by
    rw [List.countP_map]
    simp only [Function.comp_def, onRing, ne_eq, hring.eq_iff]
    rfl
  rw [signOf, hops, (moves_termOperator h).countP_eq, terms]

/-! ### Rings -/

/-- The operators of terms are one for each. -/
theorem termOperators_eq_ok {terms : List Term}
    {operators : { l : List BasicOperator // l.length = terms.length }} :
    termOperators ring boundary terms = .ok operators ↔
      List.Forall₂ (fun t o => termOperator ring boundary t = .ok o) terms operators := by
  induction terms with
  | nil => simp [termOperators, Subtype.ext_iff, eq_comm]
  | cons t rest ih =>
      rw [termOperators, bind_eq_ok, List.forall₂_cons_left_iff]
      constructor
      · rintro ⟨o, ho, h⟩
        obtain ⟨others, hothers, hcons⟩ := bind_eq_ok.mp h
        obtain rfl := Except.ok.inj hcons
        exact ⟨o, others, ho, ih.mp hothers, rfl⟩
      · obtain ⟨operators, hlength⟩ := operators
        rintro ⟨o, others, ho, hothers, rfl⟩
        refine ⟨o, ho, bind_eq_ok.mpr ⟨⟨others, Nat.succ.inj hlength⟩, ih.mpr hothers, rfl⟩⟩

/-- Different sites are those of which none is repeated. -/
theorem repeated?_eq_none {sites : List Site} : repeated? sites = none ↔ sites.Nodup := by
  induction sites with
  | nil => simp [repeated?]
  | cons s rest ih =>
      rw [repeated?, List.nodup_cons]
      split
      next hs => simp [hs]
      next hs => simp [hs, ih]

/-- **Which rings are accepted, and what they are made of**: four different sites of one
dimension, for which there are the operators of all terms. -/
theorem build_eq_ok_iff {o : SpinRingExchange} :
    build ring boundary = .ok o ↔
      (∃ d, ∀ k, (ring k).dimension = d) ∧ Function.Injective ring ∧
        List.Forall₂ (fun t o => termOperator ring boundary t = .ok o) alignedTable o.aligned ∧
        List.Forall₂ (fun t o => termOperator ring boundary t = .ok o) mixedTable o.mixed := by
  have hsites : (∃ d, ∀ k, (ring k).dimension = d) ↔
      checkDimensions (List.ofFn ring) = .ok () := by
    simp only [checkDimensions_eq_ok, List.forall_mem_ofFn_iff]
  rw [hsites, ← List.nodup_ofFn, ← repeated?_eq_none, build, bind_eq_ok]
  constructor
  · rintro ⟨⟨⟩, hdimensions, h⟩
    split at h
    next s hs => cases h
    next hdistinct =>
      obtain ⟨aligned, haligned, h⟩ := bind_eq_ok.mp h
      obtain ⟨mixed, hmixed, h⟩ := bind_eq_ok.mp h
      obtain rfl := Except.ok.inj h
      exact ⟨hdimensions, Option.eq_none_iff_forall_ne_some.mpr hdistinct,
        termOperators_eq_ok.mp haligned, termOperators_eq_ok.mp hmixed⟩
  · rintro ⟨hdimensions, hdistinct, haligned, hmixed⟩
    refine ⟨(), hdimensions, ?_⟩
    rw [hdistinct]
    refine bind_eq_ok.mpr ⟨⟨o.aligned, o.aligned_length⟩, termOperators_eq_ok.mpr haligned, ?_⟩
    exact bind_eq_ok.mpr ⟨⟨o.mixed, o.mixed_length⟩, termOperators_eq_ok.mpr hmixed, rfl⟩

/-- The operators are those of the table, in its order. -/
theorem forall₂_table_of_build {o : SpinRingExchange} (h : build ring boundary = .ok o) :
    List.Forall₂ (fun t o => termOperator ring boundary t = .ok o) table o.operators := by
  obtain ⟨-, -, haligned, hmixed⟩ := build_eq_ok_iff.mp h
  exact List.rel_append haligned hmixed

/-- Rings are accepted of **four different sites of one dimension**, with boundary conditions of
that dimension, if any. -/
theorem exists_build_iff :
    (∃ o, build ring boundary = .ok o) ↔
      Function.Injective ring ∧ ∃ d, (∀ k, (ring k).dimension = d) ∧
        ∀ c, boundary = some c → c.dimension = d := by
  constructor
  · rintro ⟨o, ho⟩
    obtain ⟨⟨d, hd⟩, hring, -, -⟩ := build_eq_ok_iff.mp ho
    refine ⟨hring, d, hd, ?_⟩
    intro c hc
    -- The conditions are checked against hops, so a hop at the first corner is what tells.
    obtain ⟨b, -, hb, -, -⟩ := List.forall₂_cons_left_iff.mp (forall₂_table_of_build ho)
    have hpermutes := permutes_of_isCyclic hring (isCyclic_of_mem_table (by decide)) hb
    obtain ⟨a, ha, -⟩ := hpermutes.leaving 0
    have hmem : a ∈ b.hops.filter fun a => a.source = ring 0 := ha ▸ List.mem_singleton_self a
    simp only [List.mem_filter, decide_eq_true_eq] at hmem
    rw [b.boundary_dimension c ((moves_eq_ok hb).2.trans hc) a hmem.1, Hop.dimension, hmem.2, hd]
  · rintro ⟨hring, d, hd, hboundary⟩
    have hterms (terms : List Term) : ∃ operators,
        List.Forall₂ (fun t o => termOperator ring boundary t = .ok o) terms operators := by
      refine exists_forall₂ fun t _ => exists_moves ?_ hboundary
      intro m hm
      obtain ⟨m, -, rfl⟩ := List.mem_map.mp hm
      exact ⟨hd _, hd _⟩
    obtain ⟨aligned, haligned⟩ := hterms alignedTable
    obtain ⟨mixed, hmixed⟩ := hterms mixedTable
    exact ⟨⟨aligned, mixed, haligned.length_eq.symm, hmixed.length_eq.symm⟩,
      build_eq_ok_iff.mpr ⟨⟨d, hd⟩, hring, haligned, hmixed⟩⟩

/-- The operators of a ring permute **every assignment of spins once**. -/
theorem permutes_of_build {o : SpinRingExchange} (h : build ring boundary = .ok o) :
    List.Forall₂ (Permutes ring) (table.map Term.spins) o.operators := by
  obtain ⟨-, hring, -, -⟩ := build_eq_ok_iff.mp h
  rw [List.forall₂_map_left_iff]
  exact (forall₂_and_mem (forall₂_table_of_build h)).imp fun _ _ ⟨ht, ho⟩ =>
    permutes_of_isCyclic hring (isCyclic_of_mem_table ht) ho

/-- The operators of terms of one sign have that sign. -/
theorem signOf_of_forall₂ (hring : Function.Injective ring) {terms : List Term}
    {operators : List BasicOperator} {sign : Int}
    (h : List.Forall₂ (fun t o => termOperator ring boundary t = .ok o) terms operators)
    (hsign : ∀ t ∈ terms, signOfMovers t.movers = sign) : ∀ b ∈ operators, signOf b = sign := by
  intro b hb
  obtain ⟨t, ht, hterm⟩ := exists_of_mem_right h hb
  rw [signOf_termOperator hring hterm, hsign t ht]

/-- The operators that are counted with a plus sign are **those with that sign**, and those that
are counted with a minus sign are the others. -/
theorem filter_signOf_operators {o : SpinRingExchange} (h : build ring boundary = .ok o) :
    o.operators.filter (signOf · = 1) = o.aligned ∧
      o.operators.filter (signOf · = -1) = o.mixed := by
  obtain ⟨-, hring, haligned, hmixed⟩ := build_eq_ok_iff.mp h
  have hplus := signOf_of_forall₂ hring haligned sign_alignedTable
  have hminus := signOf_of_forall₂ hring hmixed sign_mixedTable
  have plus : o.aligned.filter (signOf · = 1) = o.aligned :=
    List.filter_eq_self.mpr fun b hb => decide_eq_true (hplus b hb)
  have noPlus : o.mixed.filter (signOf · = 1) = [] :=
    List.filter_eq_nil_iff.mpr fun b hb => by simp [hminus b hb]
  have minus : o.mixed.filter (signOf · = -1) = o.mixed :=
    List.filter_eq_self.mpr fun b hb => decide_eq_true (hminus b hb)
  have noMinus : o.aligned.filter (signOf · = -1) = [] :=
    List.filter_eq_nil_iff.mpr fun b hb => by simp [hplus b hb]
  rw [operators, List.filter_append, List.filter_append, plus, noPlus, minus, noMinus,
    List.append_nil, List.nil_append]
  exact ⟨rfl, rfl⟩

/-- The value of a ring whose operators have values: their sum, **each with its sign**, plus the
conjugate. -/
theorem evaluate_of_build {R : Type} [Scalar R] {o : SpinRingExchange}
    (h : build ring boundary = .ok o) {c : MeasurementContext R}
    {value : BasicOperator → Complex R} (hc : ∀ b ∈ o.operators, c.get? b = some (value b)) :
    (Observable.spinRing o).evaluate c = .ok (.value
      (Complex.sum ((o.operators.filter (signOf · = 1)).map value) -
        Complex.sum ((o.operators.filter (signOf · = -1)).map value)).addConj) := by
  obtain ⟨hplus, hminus⟩ := filter_signOf_operators h
  obtain ⟨haligned, hmixed⟩ := List.forall_mem_append.mp hc
  rw [hplus, hminus, Observable.evaluate, SpinRingExchange.evaluate, measuredSum_eq_ok haligned,
    measuredSum_eq_ok hmixed]
  rfl

/-- **A spin ring exchange is the cyclic permutation of four spins.** It is built of any four
different sites of one dimension, with boundary conditions of that dimension, if any. Each of
its sixteen operators permutes spins cyclically, and together they do so for every assignment of
spins once, so they are all different. The first four have a plus sign and the other twelve a
minus sign by the number of spins that they move, and evaluation counts them with these signs. -/
theorem build_permutes_cyclically (ring : Corner → Site) (boundary : Option BoundaryConditions) :
    ((∃ o, build ring boundary = .ok o) ↔
      Function.Injective ring ∧ ∃ d, (∀ k, (ring k).dimension = d) ∧
        ∀ c, boundary = some c → c.dimension = d) ∧
    ∀ o, build ring boundary = .ok o →
      (∃ assignments : List Spins, assignments.Nodup ∧ (∀ σ, σ ∈ assignments) ∧
        List.Forall₂ (Permutes ring) assignments o.operators) ∧
      (∀ b ∈ o.operators, b.boundary = boundary) ∧
      o.operators.Nodup ∧ (Observable.spinRing o).basicOperators.length = 16 ∧
      (∀ b ∈ o.operators.take 4, signOf b = 1) ∧ (∀ b ∈ o.operators.drop 4, signOf b = -1) ∧
      ∀ (R : Type) [Scalar R] (c : MeasurementContext R) (value : BasicOperator → Complex R),
        (∀ b ∈ o.operators, c.get? b = some (value b)) →
          (Observable.spinRing o).evaluate c = .ok (.value
            (Complex.sum ((o.operators.filter (signOf · = 1)).map value) -
              Complex.sum ((o.operators.filter (signOf · = -1)).map value)).addConj) := by
  refine ⟨exists_build_iff, ?_⟩
  intro o ho
  obtain ⟨-, hring, haligned, hmixed⟩ := build_eq_ok_iff.mp ho
  have hpermutes := permutes_of_build ho
  have hnodup : o.operators.Nodup :=
    nodup_of_forall₂ (fun _ _ _ hσ hτ => hσ.unique hτ) hpermutes nodup_map_spins_table
  have hfour : o.aligned.length = 4 := o.aligned_length
  refine ⟨⟨_, nodup_map_spins_table, mem_map_spins_table, hpermutes⟩, ?boundary, hnodup, ?sixteen,
    ?plus, ?minus, fun R _ c value => evaluate_of_build ho⟩
  case boundary =>
    intro b hb
    obtain ⟨t, -, ht⟩ := exists_of_mem_right (forall₂_table_of_build ho) hb
    exact (moves_eq_ok ht).2
  case sixteen =>
    have hterms : (Observable.spinRing o).basicOperators = o.operators := firstSeen_eq_self hnodup
    rw [hterms, ← hpermutes.length_eq]
    rfl
  case plus =>
    rw [operators, List.take_left' hfour]
    exact signOf_of_forall₂ hring haligned sign_alignedTable
  case minus =>
    rw [operators, List.drop_left' hfour]
    exact signOf_of_forall₂ hring hmixed sign_mixedTable

end SpinRingExchange

end LatticeObservables
