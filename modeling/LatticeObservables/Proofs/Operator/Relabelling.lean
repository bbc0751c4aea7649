import LatticeObservables.Evaluation.Observable
import LatticeObservables.Proofs.Collection.OrderedMap
import LatticeObservables.Proofs.Operator.Expansion

/-!
# Relabelled Operators

A symmetry of the lattice or of the particles gives every move another one, and boundary conditions
other ones (`Relabelling`). It acts on operators hop by hop. The hops that come out need not stand
in canonical order, so the operator is built anew from them (`BasicOperator.build_relabel`). What
an operator is the product of is relabelled with it, and a product of given moves is unique, so that
symmetries of composite operators can be read off the moves of their terms
(`BasicOperator.IsProduct.relabel`, `BasicOperator.IsProduct.eq`).

Measured values are carried along: in the relabelled context, a relabelled operator has the value
that the operator had (`MeasurementContext.get?_relabel`).
-/

namespace LatticeObservables

/-- A **relabelling**: an involution of moves and one of boundary conditions, both of which keep
dimensions. -/
structure Relabelling where
  move : Move → Move
  conditions : BoundaryConditions → BoundaryConditions
  move_involutive : Function.Involutive move
  conditions_involutive : Function.Involutive conditions
  dimension_move : ∀ m : Move, m.2.1.dimension = m.1.dimension →
    (move m).1.dimension = m.1.dimension ∧ (move m).2.1.dimension = m.1.dimension
  dimension_conditions : ∀ c, (conditions c).dimension = c.dimension

/-- A hop is known by its move. -/
theorem Hop.move_injective : Function.Injective Hop.move := by
  intro a b h
  cases a
  cases b
  simp only [Hop.move, Prod.mk.injEq] at h
  obtain ⟨rfl, rfl, rfl⟩ := h
  rfl

namespace Relabelling

variable (f : Relabelling)

/-- The hop with the relabelled move. -/
def hop (h : Hop) : Hop where
  source := (f.move h.move).1
  destination := (f.move h.move).2.1
  species := (f.move h.move).2.2
  dimension_eq := by
    obtain ⟨hsource, hdestination⟩ := f.dimension_move h.move h.dimension_eq
    rw [hsource, hdestination]

/-- The move of a relabelled hop is the relabelled move. -/
@[simp] theorem move_hop (h : Hop) : (f.hop h).move = f.move h.move :=
  rfl

/-- A relabelled hop keeps its dimension. -/
@[simp] theorem dimension_hop (h : Hop) : (f.hop h).dimension = h.dimension :=
  (f.dimension_move h.move h.dimension_eq).1

end Relabelling

namespace BasicOperator

/-! ### Products of moves -/

/-- Products of the same moves with the same boundary conditions are **equal**. -/
theorem IsProduct.eq {boundary : Option BoundaryConditions} {terms terms' : List Move}
    {o o' : BasicOperator} (h : o.IsProduct boundary terms) (h' : o'.IsProduct boundary terms')
    (hterms : terms.Perm terms') : o = o' := by
  have hmoves := (h.1.trans hterms).trans h'.1.symm
  have hhops := (List.map_perm_map_iff Hop.move_injective).mp hmoves
  exact eq_iff.mpr ⟨eq_of_ordered o.ordered o'.ordered hhops, h.2.trans h'.2.symm⟩

/-- Products with the same boundary conditions are equal exactly if they are products **of the same
moves**. -/
theorem IsProduct.eq_iff_perm {boundary : Option BoundaryConditions} {terms terms' : List Move}
    {o o' : BasicOperator} (h : o.IsProduct boundary terms) (h' : o'.IsProduct boundary terms') :
    o = o' ↔ terms.Perm terms' := by
  refine ⟨?_, h.eq h'⟩
  rintro rfl
  exact h.1.symm.trans h'.1

/-- The moves of a product start at sites of **one dimension**, which the boundary conditions have
too. -/
theorem IsProduct.dimension_eq {boundary : Option BoundaryConditions} {terms : List Move}
    {o : BasicOperator} (h : o.IsProduct boundary terms) {m : Move} (hm : m ∈ terms) :
    (∀ m' ∈ terms, m'.1.dimension = m.1.dimension) ∧
      ∀ c, boundary = some c → c.dimension = m.1.dimension := by
  obtain ⟨a, ha, rfl⟩ := List.mem_map.mp (h.1.mem_iff.mpr hm)
  refine ⟨?_, fun c hc => o.boundary_dimension c (h.2.trans hc) a ha⟩
  intro m' hm'
  obtain ⟨a', ha', rfl⟩ := List.mem_map.mp (h.1.mem_iff.mpr hm')
  exact o.uniform a' ha' a ha

/-- A product of moves has **as many hops** as there are moves. -/
theorem IsProduct.length_hops {boundary : Option BoundaryConditions} {terms : List Move}
    {o : BasicOperator} (h : o.IsProduct boundary terms) : o.hops.length = terms.length := by
  rw [← h.1.length_eq, List.length_map]

/-! ### Relabelling -/

variable (f : Relabelling) (o : BasicOperator)

/-- The **relabelled operator**: every hop relabelled, in canonical order again. -/
def relabel : BasicOperator where
  hops := canonical (o.hops.map f.hop)
  boundary := o.boundary.map f.conditions
  ordered := ordered_canonical _
  uniform := by
    intro a ha b hb
    obtain ⟨a, hmema, rfl⟩ := List.mem_map.mp (mem_canonical.mp ha)
    obtain ⟨b, hmemb, rfl⟩ := List.mem_map.mp (mem_canonical.mp hb)
    rw [f.dimension_hop, f.dimension_hop, o.uniform a hmema b hmemb]
  boundary_dimension := by
    intro c hc a ha
    obtain ⟨c, hboundary, rfl⟩ := Option.map_eq_some_iff.mp hc
    obtain ⟨a, hmem, rfl⟩ := List.mem_map.mp (mem_canonical.mp ha)
    rw [f.dimension_conditions, f.dimension_hop, o.boundary_dimension c hboundary a hmem]

/-- The hops and the boundary conditions of an operator fit together. -/
theorem exists_fit : ∃ d, Fit o.hops o.boundary d := by
  cases hhops : o.hops with
  | nil => exact ⟨0, by simp [Fit]⟩
  | cons first rest =>
      have hfirst : first ∈ o.hops := by simp [hhops]
      rw [← hhops]
      exact ⟨first.dimension, fun h hh => o.uniform h hh first hfirst,
        fun c hc _ => o.boundary_dimension c hc first hfirst⟩

/-- The relabelled operator is **what is built** of the relabelled hops and boundary conditions. -/
theorem build_relabel :
    build (o.hops.map f.hop) (o.boundary.map f.conditions) = .ok (o.relabel f) := by
  refine build_eq_ok_iff.mpr ⟨?_, rfl, rfl⟩
  obtain ⟨d, hhops, hboundary⟩ := o.exists_fit
  refine ⟨d, ?hops, ?boundary⟩
  case hops =>
    intro h hh
    obtain ⟨a, ha, rfl⟩ := List.mem_map.mp hh
    rw [f.dimension_hop, hhops a ha]
  case boundary =>
    intro c hc hne
    obtain ⟨c, hsome, rfl⟩ := Option.map_eq_some_iff.mp hc
    rw [f.dimension_conditions]
    exact hboundary c hsome fun hnil => hne (by rw [hnil, List.map_nil])

variable {f o}

/-- What an operator is the product of is **relabelled with it**. -/
theorem IsProduct.relabel {boundary : Option BoundaryConditions} {terms : List Move}
    (h : o.IsProduct boundary terms) :
    (o.relabel f).IsProduct (boundary.map f.conditions) (terms.map f.move) := by
  have hmoves : (o.hops.map f.hop).map Hop.move = (o.hops.map Hop.move).map f.move := by
    rw [List.map_map, List.map_map]
    rfl
  have hordered : ((o.relabel f).hops.map Hop.move).Perm ((o.hops.map f.hop).map Hop.move) :=
    (canonical_perm _).map Hop.move
  rw [hmoves] at hordered
  exact ⟨hordered.trans (h.1.map f.move), congrArg (Option.map f.conditions) h.2⟩

/-- Operators that are products of the relabelled moves **are the relabelled operators**, term by
term. -/
theorem map_relabel_eq {boundary : Option BoundaryConditions} {expansion : List (List Move)}
    {operators operators' : List BasicOperator}
    (h : List.Forall₂ (IsProduct boundary) expansion operators)
    (h' : List.Forall₂ (IsProduct (boundary.map f.conditions)) (expansion.map (List.map f.move))
      operators') : operators.map (relabel f) = operators' := by
  induction h generalizing operators' with
  | nil =>
      cases h'
      rfl
  | cons hproduct _ ih =>
      cases h' with
      | cons hproduct' hrest' =>
          rw [List.map_cons, ih hrest', hproduct.relabel.eq hproduct' (.refl _)]

/-- An operator is the product of the moves of its hops. -/
theorem isProduct_hops (o : BasicOperator) : o.IsProduct o.boundary (o.hops.map Hop.move) :=
  ⟨.refl _, rfl⟩

/-- Relabelling **twice gives the operator back**. -/
theorem relabel_involutive (f : Relabelling) : Function.Involutive (relabel f) := by
  intro o
  have htwice := (o.isProduct_hops.relabel (f := f)).relabel (f := f)
  have hconditions : (o.boundary.map f.conditions).map f.conditions = o.boundary := by
    rw [Option.map_map, f.conditions_involutive.comp_self, Option.map_id_fun, id]
  have hterms : ((o.hops.map Hop.move).map f.move).map f.move = o.hops.map Hop.move := by
    rw [List.map_map, f.move_involutive.comp_self, List.map_id]
  rw [hconditions, hterms] at htwice
  exact htwice.eq o.isProduct_hops (.refl _)

end BasicOperator

namespace MeasurementContext

variable {R : Type} (f : Relabelling) (c : MeasurementContext R)

/-- The **relabelled context**: every operator relabelled, with the value that it had. -/
def relabel : MeasurementContext R where
  entries := c.entries.map fun e => (e.1.relabel f, e.2)
  nodup := by
    have hkeys : (c.entries.map fun e => (e.1.relabel f, e.2)).map Prod.fst =
        (c.entries.map Prod.fst).map (BasicOperator.relabel f) := by
      rw [List.map_map, List.map_map]
      rfl
    rw [hkeys]
    exact c.nodup.map (BasicOperator.relabel_involutive f).injective

/-- A relabelled operator has **the value that the operator had**. -/
theorem get?_relabel (o : BasicOperator) : (c.relabel f).get? (o.relabel f) = c.get? o := by
  refine Option.ext fun z => ?_
  rw [OrderedMap.get?_eq_some_iff, OrderedMap.get?_eq_some_iff]
  simp only [relabel, List.mem_map, Prod.mk.injEq, Prod.exists]
  constructor
  · rintro ⟨o', z', hmem, hsame, rfl⟩
    rwa [← (BasicOperator.relabel_involutive f).injective hsame]
  · exact fun hmem => ⟨o, z, hmem, rfl, rfl⟩

end MeasurementContext

end LatticeObservables
