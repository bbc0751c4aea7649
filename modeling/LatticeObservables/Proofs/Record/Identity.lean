import LatticeObservables.Proofs.Record.Text
import LatticeObservables.Record.Encode
import Mathlib.Data.List.Basic
import Mathlib.Data.Rat.Lemmas

/-!
# Records of Operators Tell Them Apart

No two observables share a record. The field `type` tells the kinds apart, although some of them
share the names of their other fields, and within a kind the other fields give back the operator:
conditions that are absent are `null`, which is no list of phases, and a phase that is a whole
number is no tagged fraction. Where a record joins lists that the operator keeps apart, it is known
how long they are.

Records of observables hold no decimals, so their texts tell them apart as well.

## Main statements

* `Observable.toJson_injective`: different observables have different records.
* `Observable.render_toJson_eq_iff`: two observables are written as the same text exactly when they
  are the same.
-/

namespace LatticeObservables

open Json (Integral)

/-! ### Records without decimals -/

section Integral

variable {p : Int → Prop}

/-- The integers of a site are its coordinates and its basis index. -/
theorem Site.integral_toJson_iff {s : Site} :
    s.toJson.Integral p ↔ (∀ x ∈ s.coordinates, p x) ∧ p s.basisIndex := by
  simp [Site.toJson, Json.ofNat]

/-- The integers of a phase are its numerator and its denominator. -/
theorem integral_phaseToJson {phase : Rat} (hnum : p phase.num) (hden : p phase.den) :
    (phaseToJson phase).Integral p := by
  rw [phaseToJson]
  split <;> simp [Json.ofNat, hnum, hden]

/-- The integers of boundary conditions are those of their phases. -/
theorem BoundaryConditions.integral_toJson {b : BoundaryConditions}
    (h : ∀ c ∈ b.conditions, p c.phase.num ∧ p c.phase.den) : b.toJson.Integral p := by
  simp only [BoundaryConditions.toJson, Integral.list_iff, List.forall_mem_map]
  exact fun c hc => integral_phaseToJson (h c hc).1 (h c hc).2

/-- A basic operator has no decimals. -/
@[simp] theorem BasicOperator.integral_toJson (o : BasicOperator) :
    o.toJson.Integral fun _ => True := by
  have hboundary : (Json.ofOption BoundaryConditions.toJson o.boundary).Integral fun _ => True := by
    cases o.boundary with
    | none => exact .null
    | some b => exact b.integral_toJson fun _ _ => ⟨trivial, trivial⟩
  simp [BasicOperator.toJson, Hop.toJson, Json.ofNat, Site.integral_toJson_iff, hboundary]

/-- An observable has **no decimals**. -/
theorem Observable.integral_toJson (o : Observable) : o.toJson.Integral fun _ => True := by
  cases o <;> simp [Observable.toJson, DensityDensity.toJson, SpinSpin.toJson,
    SingletRingExchange.toJson, SpinRingExchange.toJson, TJKHamiltonian.toJson, operatorsToJson,
    Json.ofNat, or_imp, forall_and]

end Integral

/-! ### Records of what operators are made of -/

/-- Different sites have different records. -/
theorem Site.toJson_injective : Function.Injective Site.toJson := by
  rintro ⟨coordinates, basisIndex⟩ ⟨coordinates', basisIndex'⟩ h
  simp only [Site.toJson, Json.ofNat, Json.record.injEq, List.cons.injEq, Prod.mk.injEq,
    Json.list.injEq, Json.integer.injEq, Int.ofNat_inj, true_and, and_true] at h
  rw [List.map_injective_iff.mpr (fun _ _ => Json.integer.inj) h.1, h.2]

/-- Different phases have different forms, whether they are whole numbers or not. -/
theorem phaseToJson_injective : Function.Injective phaseToJson := by
  intro p q h
  rw [phaseToJson, phaseToJson] at h
  split_ifs at h with hp hq hq <;>
    simp only [Json.ofNat, Json.record.injEq, List.cons.injEq, Prod.mk.injEq, Json.integer.injEq,
      Int.ofNat_inj, true_and, and_true] at h
  · exact Rat.ext h (hp.trans hq.symm)
  · exact Rat.ext h.1 h.2

/-- Different boundary conditions have different records. -/
theorem BoundaryConditions.toJson_injective : Function.Injective BoundaryConditions.toJson := by
  have hcondition : Function.Injective BoundaryCondition.toJson := by
    rintro ⟨p, hp⟩ ⟨q, hq⟩ h
    obtain rfl : p = q := phaseToJson_injective h
    rfl
  rintro ⟨conditions⟩ ⟨conditions'⟩ h
  exact congrArg mk (List.map_injective_iff.mpr hcondition (Json.list.inj h))

/-- Different hops have different records. -/
theorem Hop.toJson_injective : Function.Injective Hop.toJson := by
  rintro ⟨source, destination, species, _⟩ ⟨source', destination', species', _⟩ h
  simp only [Hop.toJson, Json.ofNat, Json.record.injEq, List.cons.injEq, Prod.mk.injEq,
    Json.integer.injEq, Int.ofNat_inj, true_and, and_true, Site.toJson_injective.eq_iff] at h
  obtain ⟨rfl, rfl, rfl⟩ := h
  rfl

/-- What is absent has another form than anything that is present, unless that is `null`. -/
theorem Json.ofOption_injective {α : Type} {encode : α → Json} (hencode : encode.Injective)
    (hnull : ∀ a, encode a ≠ .null) : (ofOption encode).Injective := by
  rintro (_ | a) (_ | b) h
  · rfl
  · exact absurd h.symm (hnull b)
  · exact absurd h (hnull a)
  · exact congrArg some (hencode h)

/-! ### Records of operators -/

/-- Different basic operators have different records. -/
theorem BasicOperator.toJson_injective : Function.Injective BasicOperator.toJson := by
  have hboundary := Json.ofOption_injective BoundaryConditions.toJson_injective nofun
  rintro ⟨hops, boundary, _, _, _⟩ ⟨hops', boundary', _, _, _⟩ h
  simp only [BasicOperator.toJson, Json.record.injEq, List.cons.injEq, Prod.mk.injEq,
    Json.list.injEq, true_and, and_true, hboundary.eq_iff,
    (List.map_injective_iff.mpr Hop.toJson_injective).eq_iff] at h
  obtain ⟨rfl, rfl⟩ := h
  rfl

/-- Different lists of basic operators have different forms. -/
theorem operatorsToJson_injective : Function.Injective operatorsToJson := fun _ _ h =>
  List.map_injective_iff.mpr BasicOperator.toJson_injective (Json.list.inj h)

/-- The terms are known from a record that holds nothing else. -/
theorem operators_of_toJson_eq {kind : Json} {a b : List BasicOperator}
    (h : Json.record [("type", kind), ("operators", operatorsToJson a)] =
      .record [("type", kind), ("operators", operatorsToJson b)]) : a = b := by
  simpa only [Json.record.injEq, List.cons.injEq, Prod.mk.injEq,
    operatorsToJson_injective.eq_iff, true_and, and_true] using h

/-- The terms of a spin correlation determine it. -/
theorem SpinSpin.operators_injective : Function.Injective SpinSpin.operators := by
  rintro (⟨_, _⟩ | ⟨_, _, _, _, _⟩) (⟨_, _⟩ | ⟨_, _, _, _, _⟩) h <;> cases h <;> rfl

/-- The terms of a spin ring exchange determine it, because it is known how many of them are
aligned. -/
theorem SpinRingExchange.operators_injective : Function.Injective SpinRingExchange.operators := by
  intro a b h
  obtain ⟨haligned, hmixed⟩ := List.append_inj h (a.aligned_length.trans b.aligned_length.symm)
  cases a
  cases b
  cases haligned
  cases hmixed
  rfl

/-- Different spin correlations have different records. -/
theorem SpinSpin.toJson_injective : Function.Injective SpinSpin.toJson := by
  intro a b h
  simp only [SpinSpin.toJson, Json.record.injEq, List.cons.injEq, Prod.mk.injEq,
    operatorsToJson_injective.eq_iff, SpinSpin.operators_injective.eq_iff, true_and] at h
  exact h.1

/-- Different Hamiltonians have different records. -/
theorem TJKHamiltonian.toJson_injective : Function.Injective TJKHamiltonian.toJson := by
  rintro ⟨⟨_, _⟩, ⟨_, _⟩, _, _, ⟨_⟩, _, _⟩ ⟨⟨_, _⟩, ⟨_, _⟩, _, _, ⟨_⟩, _, _⟩ h
  simp only [TJKHamiltonian.toJson, SingletRingExchange.toJson, BondHops.operators, Json.ofNat,
    Json.record.injEq, List.cons.injEq, Prod.mk.injEq, operatorsToJson_injective.eq_iff,
    SpinSpin.toJson_injective.eq_iff, Json.integer.injEq, Int.ofNat_inj, List.cons_append,
    List.nil_append, true_and, and_true] at h
  obtain ⟨⟨rfl, rfl, rfl, rfl⟩, rfl, rfl, rfl, rfl, rfl⟩ := h
  rfl

/-- The kind of an observable, as its record gives it. -/
def Observable.kind : Observable → String
  | basic _ => "BasicOperator"
  | densityDensity _ => "DensityDensityOperator"
  | spinSpin _ => "SpinSpinOperator"
  | singletRing _ => "SingletRingExchangeOperator"
  | hamiltonian _ => "TJKHamiltonian"
  | spinRing _ => "SpinModelRingExchangeOperator"

/-- The record of an observable begins with its kind. -/
theorem Observable.exists_toJson_eq (o : Observable) :
    ∃ fields, o.toJson = .record (("type", .text o.kind) :: fields) := by
  cases o <;> exact ⟨_, rfl⟩

/-- Different observables have different records. -/
theorem Observable.toJson_injective : Function.Injective Observable.toJson := by
  intro a b h
  have hkind : a.kind = b.kind := by
    obtain ⟨fields, ha⟩ := a.exists_toJson_eq
    obtain ⟨fields', hb⟩ := b.exists_toJson_eq
    rw [ha, hb] at h
    simp only [Json.record.injEq, List.cons.injEq, Prod.mk.injEq, Json.text.injEq, true_and] at h
    exact h.1
  -- two kinds have different names, so only observables of one kind are left
  cases a <;> cases b <;> try (simp [kind] at hkind; done)
  case basic.basic a b => exact congrArg basic (BasicOperator.toJson_injective h)
  case densityDensity.densityDensity a b =>
    exact congrArg (fun operators => densityDensity ⟨operators⟩) (operators_of_toJson_eq h)
  case spinSpin.spinSpin a b => exact congrArg spinSpin (SpinSpin.toJson_injective h)
  case singletRing.singletRing a b =>
    exact congrArg (fun operators => singletRing ⟨operators⟩) (operators_of_toJson_eq h)
  case hamiltonian.hamiltonian a b =>
    exact congrArg hamiltonian (TJKHamiltonian.toJson_injective h)
  case spinRing.spinRing a b =>
    exact congrArg spinRing (SpinRingExchange.operators_injective (operators_of_toJson_eq h))

/-- **Records identify operators**: two observables are written as the same text exactly when they
are the same. -/
theorem Observable.render_toJson_eq_iff (a b : Observable) :
    a.toJson.render = b.toJson.render ↔ a = b :=
  ⟨fun h => toJson_injective (Json.eq_of_render_eq a.integral_toJson b.integral_toJson h),
    congrArg fun o : Observable => o.toJson.render⟩

end LatticeObservables
