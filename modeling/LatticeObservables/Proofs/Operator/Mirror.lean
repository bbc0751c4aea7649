import Mathlib.Data.List.Rotate
import LatticeObservables.Proofs.Collection.FirstSeen
import LatticeObservables.Proofs.Evaluation.Exact
import LatticeObservables.Proofs.Operator.Relabelling

/-!
# The Mirrored Hamiltonian

Nothing tells the two dimensions of the t-J-K Hamiltonian apart but their names. If the lengths of
the lattice and the boundary conditions are exchanged, the terms are those of before with the
coordinates of every site exchanged (`TJKHamiltonian.Mirrored`), and with the couplings of the two
dimensions exchanged as well the energy is the same. The terms of the plaquette come in another
order, so the energies agree only where sums do not depend on the order, which those of doubles do.

## Main statements

* `measuredSum_map`, `SpinSpin.evaluate_map`: values in contexts with other names for operators.
* `TJKHamiltonian.mirrored_of_build`: which terms are mirror images.
* `TJKHamiltonian.Mirrored.energy_eq_ok_iff`: the energies.
* `TJKHamiltonian.build_mirrored`: all of this from the two constructions.
-/

namespace LatticeObservables

/-! ### The mirror -/

/-- The **mirror image** of a site: the coordinates in the other order, so that in two dimensions
they are exchanged. -/
def Site.mirror (s : Site) : Site :=
  ⟨s.coordinates.reverse, s.basisIndex⟩

/-- The **mirror**: sites are taken to their mirror images, and the conditions of the dimensions are
put in the other order. -/
def Relabelling.mirror : Relabelling where
  move m := (m.1.mirror, m.2.1.mirror, m.2.2)
  conditions b := ⟨b.conditions.reverse⟩
  move_involutive := by
    intro m
    simp only [Site.mirror, List.reverse_reverse]
  conditions_involutive := by
    intro b
    simp only [List.reverse_reverse]
  dimension_move := by
    intro m h
    simpa only [Site.dimension, Site.mirror, List.length_reverse, true_and] using h
  dimension_conditions := by
    intro b
    simp only [BoundaryConditions.dimension, List.length_reverse]

/-- The **mirror image** of an operator. -/
def BasicOperator.mirror (o : BasicOperator) : BasicOperator :=
  o.relabel .mirror

/-! ### Rotated lists -/

/-- Related lists stay related when both of them are **rotated**. -/
theorem forall₂_rotate {α β : Type} {p : α → β → Prop} {l : List α} {m : List β}
    (h : List.Forall₂ p l m) (n : Nat) :
    List.Forall₂ p (l.rotate n) (m.rotate n) := by
  induction n generalizing l m with
  | zero => simpa using h
  | succ n ih =>
      cases h with
      | nil => simp
      | cons hab hrest =>
          rw [List.rotate_cons_succ, List.rotate_cons_succ]
          exact ih (List.rel_append hrest (.cons hab .nil))

/-! ### Other names for operators -/

section Names

variable {R : Type} [Scalar R] {c c' : MeasurementContext R} {name : BasicOperator → BasicOperator}
  {z : Complex R}

/-- A sum of measured values is the same in a context with **other names for its operators**. -/
theorem measuredSum_map {operators : List BasicOperator}
    (hc : ∀ b ∈ operators, c'.get? (name b) = c.get? b) :
    measuredSum (operators.map name) c' = .ok z ↔ measuredSum operators c = .ok z := by
  simp only [measuredSum_eq_ok_iff, List.forall₂_map_left_iff]
  constructor
  · rintro ⟨zs, hzs, hsum⟩
    refine ⟨zs, (forall₂_and_mem hzs).imp ?_, hsum⟩
    rintro b v ⟨hb, hv⟩
    rw [← hc b hb, hv]
  · rintro ⟨zs, hzs, hsum⟩
    refine ⟨zs, (forall₂_and_mem hzs).imp ?_, hsum⟩
    rintro b v ⟨hb, hv⟩
    rw [hc b hb, hv]

/-- A spin correlation is the same in a context with **other names for its operators**. -/
theorem SpinSpin.evaluate_map {o o' : SpinSpin} (hoperators : o.operators.map name = o'.operators)
    (hc : ∀ b ∈ o.operators, c'.get? (name b) = c.get? b) :
    o'.evaluate c' = .ok z ↔ o.evaluate c = .ok z := by
  cases o with
  | sameSite up down =>
      cases o' with
      | twoSites => simp [operators] at hoperators
      | sameSite up' down' =>
          simp only [operators, List.map_cons, List.map_nil, List.cons.injEq, and_true]
            at hoperators
          obtain ⟨rfl, rfl⟩ := hoperators
          simp only [operators, List.forall_mem_cons] at hc
          simp only [evaluate, bind_eq_ok, MeasurementContext.read_eq_ok, hc]
  | twoSites upUp downDown upDown downUp exchange =>
      cases o' with
      | sameSite => simp [operators] at hoperators
      | twoSites upUp' downDown' upDown' downUp' exchange' =>
          simp only [operators, List.map_cons, List.map_nil, List.cons.injEq, and_true]
            at hoperators
          obtain ⟨rfl, rfl, rfl, rfl, rfl⟩ := hoperators
          simp only [operators, List.forall_mem_cons] at hc
          simp only [evaluate, bind_eq_ok, MeasurementContext.read_eq_ok, hc]

end Names

/-- A sum of exact values **does not depend on the order** of the operators. -/
theorem measuredSum_perm {operators operators' : List BasicOperator} (h : operators.Perm operators')
    {c : MeasurementContext ℝ} {z : Complex ℝ} :
    measuredSum operators c = .ok z ↔ measuredSum operators' c = .ok z := by
  have one {l m : List BasicOperator} (hperm : l.Perm m) (hm : measuredSum m c = .ok z) :
      measuredSum l c = .ok z := by
    obtain ⟨zs, hzs, rfl⟩ := measuredSum_eq_ok_iff.mp hm
    obtain ⟨ws, hws, hperm⟩ := List.perm_comp_forall₂ hperm hzs
    exact measuredSum_eq_ok_iff.mpr ⟨ws, hws, Complex.sum_perm hperm⟩
  exact ⟨one h.symm, one h⟩

/-! ### Terms -/

namespace TJKHamiltonian

/-- The terms of two Hamiltonians are **mirror images**: those along each dimension of the one are
those along the other dimension of the other one, and the first two terms of the one plaquette are
the last two of the other one. -/
structure Mirrored (h h' : TJKHamiltonian) : Prop where
  hopsX : h.hopsX.operators.map BasicOperator.mirror = h'.hopsY.operators
  hopsY : h.hopsY.operators.map BasicOperator.mirror = h'.hopsX.operators
  spinSpinX : h.spinSpinX.operators.map BasicOperator.mirror = h'.spinSpinY.operators
  spinSpinY : h.spinSpinY.operators.map BasicOperator.mirror = h'.spinSpinX.operators
  ring : h.ring.operators.map BasicOperator.mirror = h'.ring.operators.rotate 2
  ring_length : h'.ring.operators.length = 4
  divX : h.divX = h'.divY
  divY : h.divY = h'.divX

/-- Products of mirrored moves under mirrored conditions are the mirror images. -/
theorem map_mirror_eq {p q : BoundaryCondition} {expansion expansion' : List (List Move)}
    {operators operators' : List BasicOperator}
    (h : List.Forall₂ (BasicOperator.IsProduct (some ⟨[p, q]⟩)) expansion operators)
    (h' : List.Forall₂ (BasicOperator.IsProduct (some ⟨[q, p]⟩)) expansion' operators')
    (hmoves : expansion.map (List.map Relabelling.mirror.move) = expansion') :
    operators.map BasicOperator.mirror = operators' :=
  BasicOperator.map_relabel_eq (f := .mirror) h (hmoves ▸ h')

/-- Hamiltonians of exchanged lengths and boundary conditions **are mirror images**. -/
theorem mirrored_of_build {lattice lattice' : Lattice} {lengthX lengthY : Nat}
    {p q : BoundaryCondition} {h h' : TJKHamiltonian}
    (hlengths : lattice.lengths = [lengthX, lengthY])
    (hlengths' : lattice'.lengths = [lengthY, lengthX])
    (hbuild : build ⟨[p, q]⟩ lattice = .ok h) (hbuild' : build ⟨[q, p]⟩ lattice' = .ok h') :
    Mirrored h h' := by
  obtain ⟨-, hopsX, hopsY, spinSpinX, spinSpinY, ring, divX, divY⟩ :=
    (build_eq_ok_iff hlengths).mp hbuild
  obtain ⟨-, hopsX', hopsY', spinSpinX', spinSpinY', ring', divX', divY'⟩ :=
    (build_eq_ok_iff hlengths').mp hbuild'
  have terms := SingletRingExchange.forall₂_of_build ring
  have terms' := SingletRingExchange.forall₂_of_build ring'
  exact {
    hopsX := map_mirror_eq (BondHops.forall₂_of_build hopsX) (BondHops.forall₂_of_build hopsY') rfl
    hopsY := map_mirror_eq (BondHops.forall₂_of_build hopsY) (BondHops.forall₂_of_build hopsX') rfl
    spinSpinX := map_mirror_eq (SpinSpin.forall₂_of_build spinSpinX)
      (SpinSpin.forall₂_of_build spinSpinY') rfl
    spinSpinY := map_mirror_eq (SpinSpin.forall₂_of_build spinSpinY)
      (SpinSpin.forall₂_of_build spinSpinX') rfl
    ring := map_mirror_eq terms (forall₂_rotate terms' 2) rfl
    ring_length := terms'.length_eq.symm
    divX := divX.trans divY'.symm
    divY := divY.trans divX'.symm }

/-- The terms of the one Hamiltonian are the mirror images of **all the terms** of the other one. -/
theorem Mirrored.perm {h h' : TJKHamiltonian} (hm : Mirrored h h') :
    (h.operators.map BasicOperator.mirror).Perm h'.operators := by
  simp only [operators, List.map_append, hm.hopsX, hm.hopsY, hm.spinSpinX, hm.spinSpinY, hm.ring,
    List.append_assoc]
  have hhops : (h'.hopsY.operators ++ h'.hopsX.operators).Perm
      (h'.hopsX.operators ++ h'.hopsY.operators) := List.perm_append_comm
  have hspins : (h'.spinSpinY.operators ++ h'.spinSpinX.operators).Perm
      (h'.spinSpinX.operators ++ h'.spinSpinY.operators) := List.perm_append_comm
  have hring : (h'.ring.operators.rotate 2).Perm h'.ring.operators := List.rotate_perm _ 2
  simpa only [List.append_assoc] using hhops.append (hspins.append hring)

/-- What has to be measured for the one Hamiltonian are the mirror images of **what has to be
measured** for the other one. -/
theorem Mirrored.perm_basicOperators {h h' : TJKHamiltonian} (hm : Mirrored h h') :
    ((Observable.hamiltonian h).basicOperators.map BasicOperator.mirror).Perm
      (Observable.hamiltonian h').basicOperators := by
  have hinjective : Function.Injective BasicOperator.mirror :=
    (BasicOperator.relabel_involutive .mirror).injective
  have hnodup := (nodup_firstSeen h.operators).map hinjective
  refine (List.perm_ext_iff_of_nodup hnodup (nodup_firstSeen h'.operators)).mpr fun b => ?_
  rw [mem_firstSeen, ← hm.perm.mem_iff, List.mem_map, List.mem_map]
  simp only [mem_firstSeen]

/-! ### Energies -/

end TJKHamiltonian

/-- The measured terms with the **two dimensions exchanged**. -/
def EnergyTerms.mirror {R : Type} (terms : EnergyTerms R) : EnergyTerms R where
  greenX := terms.greenY
  greenY := terms.greenX
  spinSpinX := terms.spinSpinY
  spinSpinY := terms.spinSpinX
  ringExchange := terms.ringExchange
  divX := terms.divY
  divY := terms.divX

/-- Exchanged couplings give the terms with exchanged dimensions **the same energy**. -/
theorem EnergyTerms.energy_mirror (terms : EnergyTerms ℝ) (t tperp J Jperp K : ℝ) :
    terms.mirror.energy ⟨some tperp, some t, some Jperp, some J, some K⟩ =
      terms.energy ⟨some t, some tperp, some J, some Jperp, some K⟩ := by
  refine congrArg Except.ok ?_
  ext
  · simp only [mirror, Option.getD_some, Complex.re_add, Complex.re_sub, Complex.re_mul,
      Complex.re_div, decimal_two]
    ring
  · simp only [mirror, Option.getD_some, Complex.im_add, Complex.im_sub, Complex.im_mul,
      Complex.im_div, decimal_two]
    ring

namespace TJKHamiltonian

/-- The terms that are **measured**, one by one. -/
theorem evaluate_eq_ok_iff {R : Type} [Scalar R] {h : TJKHamiltonian} {c : MeasurementContext R}
    {terms : EnergyTerms R} :
    h.evaluate c = .ok terms ↔
      measuredSum h.hopsX.operators c = .ok terms.greenX ∧
      measuredSum h.hopsY.operators c = .ok terms.greenY ∧
      h.spinSpinX.evaluate c = .ok terms.spinSpinX ∧
      h.spinSpinY.evaluate c = .ok terms.spinSpinY ∧
      h.ring.evaluate c = .ok terms.ringExchange ∧
      Scalar.ofCount h.divX = terms.divX ∧ Scalar.ofCount h.divY = terms.divY := by
  constructor
  · intro hterms
    obtain ⟨greenX, hgreenX, hterms⟩ := bind_eq_ok.mp hterms
    obtain ⟨greenY, hgreenY, hterms⟩ := bind_eq_ok.mp hterms
    obtain ⟨spinSpinX, hspinSpinX, hterms⟩ := bind_eq_ok.mp hterms
    obtain ⟨spinSpinY, hspinSpinY, hterms⟩ := bind_eq_ok.mp hterms
    obtain ⟨ring, hring, hterms⟩ := bind_eq_ok.mp hterms
    obtain rfl := Except.ok.inj hterms
    exact ⟨hgreenX, hgreenY, hspinSpinX, hspinSpinY, hring, rfl, rfl⟩
  · rintro ⟨hgreenX, hgreenY, hspinSpinX, hspinSpinY, hring, hdivX, hdivY⟩
    refine bind_eq_ok.mpr ⟨_, hgreenX, bind_eq_ok.mpr ⟨_, hgreenY, bind_eq_ok.mpr ⟨_, hspinSpinX,
      bind_eq_ok.mpr ⟨_, hspinSpinY, bind_eq_ok.mpr ⟨_, hring, ?_⟩⟩⟩⟩⟩
    rw [hdivX, hdivY]
    rfl

variable {h h' : TJKHamiltonian} {c c' : MeasurementContext ℝ}

/-- The ring exchange of the mirror image has **the same value**. -/
theorem Mirrored.ring_evaluate (hm : Mirrored h h')
    (hc : ∀ b ∈ h.operators, c'.get? b.mirror = c.get? b) {z : Complex ℝ} :
    h'.ring.evaluate c' = .ok z ↔ h.ring.evaluate c = .ok z := by
  have hring : ∀ b ∈ h.ring.operators, c'.get? b.mirror = c.get? b := fun b hb =>
    hc b (List.mem_append_right _ hb)
  have hrotated : (h'.ring.operators.rotate 2).Perm h'.ring.operators := List.rotate_perm _ 2
  have hsum {z : Complex ℝ} :
      measuredSum h'.ring.operators c' = .ok z ↔ measuredSum h.ring.operators c = .ok z := by
    rw [← measuredSum_map hring, hm.ring, measuredSum_perm hrotated]
  simp only [SingletRingExchange.evaluate, bind_eq_ok, hsum]

/-- The terms that are measured of the mirror image are those with **the dimensions exchanged**. -/
theorem Mirrored.evaluate_eq_ok_iff (hm : Mirrored h h')
    (hc : ∀ b ∈ h.operators, c'.get? b.mirror = c.get? b) {terms : EnergyTerms ℝ} :
    h'.evaluate c' = .ok terms.mirror ↔ h.evaluate c = .ok terms := by
  have hoperators := hc
  simp only [operators, List.forall_mem_append] at hoperators
  obtain ⟨⟨⟨⟨hhopsX, hhopsY⟩, hspinSpinX⟩, hspinSpinY⟩, -⟩ := hoperators
  have greenX : measuredSum h'.hopsY.operators c' = .ok terms.greenX ↔
      measuredSum h.hopsX.operators c = .ok terms.greenX := by
    rw [← hm.hopsX, measuredSum_map hhopsX]
  have greenY : measuredSum h'.hopsX.operators c' = .ok terms.greenY ↔
      measuredSum h.hopsY.operators c = .ok terms.greenY := by
    rw [← hm.hopsY, measuredSum_map hhopsY]
  rw [TJKHamiltonian.evaluate_eq_ok_iff, TJKHamiltonian.evaluate_eq_ok_iff]
  simp only [EnergyTerms.mirror, greenX, greenY, SpinSpin.evaluate_map hm.spinSpinX hspinSpinX,
    SpinSpin.evaluate_map hm.spinSpinY hspinSpinY, hm.ring_evaluate hc, ← hm.divX, ← hm.divY]
  tauto

/-- Under couplings that are exchanged too, mirror images have **the same energy**, or both have
none. -/
theorem Mirrored.energy_eq_ok_iff (hm : Mirrored h h')
    (hc : ∀ b ∈ h.operators, c'.get? b.mirror = c.get? b) (t tperp J Jperp K : ℝ)
    (energy : Complex ℝ) :
    (do (← h.evaluate c).energy ⟨some t, some tperp, some J, some Jperp, some K⟩) = .ok energy ↔
      (do (← h'.evaluate c').energy ⟨some tperp, some t, some Jperp, some J, some K⟩) =
        .ok energy := by
  rw [bind_eq_ok, bind_eq_ok]
  constructor
  · rintro ⟨terms, hterms, henergy⟩
    exact ⟨terms.mirror, (hm.evaluate_eq_ok_iff hc).mpr hterms, by
      rw [terms.energy_mirror, henergy]⟩
  · rintro ⟨terms, hterms, henergy⟩
    refine ⟨terms.mirror, (hm.evaluate_eq_ok_iff hc).mp hterms, ?_⟩
    rw [← henergy]
    exact terms.energy_mirror tperp t Jperp J K

/-- **The Hamiltonian treats both dimensions alike.** For a lattice of any two lengths and boundary
conditions of two dimensions, the Hamiltonian can be built, and so it can for the lengths and the
conditions exchanged. The terms of both are mirror images, and so is what has to be measured for
them. With the values of the one carried over to the mirror images, and with the couplings of the
two dimensions exchanged, both have the same energy. -/
theorem build_mirrored (lengthX lengthY basisIndices basisIndices' : Nat)
    (p q : BoundaryCondition) :
    ∃ h h', build ⟨[p, q]⟩ ⟨[lengthX, lengthY], basisIndices⟩ = .ok h ∧
      build ⟨[q, p]⟩ ⟨[lengthY, lengthX], basisIndices'⟩ = .ok h' ∧ Mirrored h h' ∧
      ((Observable.hamiltonian h).basicOperators.map BasicOperator.mirror).Perm
        (Observable.hamiltonian h').basicOperators ∧
      ∀ c c' : MeasurementContext ℝ,
        (∀ b ∈ (Observable.hamiltonian h).basicOperators, c'.get? b.mirror = c.get? b) →
        ∀ (t tperp J Jperp K : ℝ) (energy : Complex ℝ),
          (do (← h.evaluate c).energy ⟨some t, some tperp, some J, some Jperp, some K⟩) =
              .ok energy ↔
            (do (← h'.evaluate c').energy ⟨some tperp, some t, some Jperp, some J, some K⟩) =
              .ok energy := by
  obtain ⟨h, hbuild, -⟩ : ∃ h, build ⟨[p, q]⟩ ⟨[lengthX, lengthY], basisIndices⟩ = .ok h ∧
      h.divX = divisor lengthX ∧ h.divY = divisor lengthY := exists_build rfl rfl
  obtain ⟨h', hbuild', -⟩ : ∃ h, build ⟨[q, p]⟩ ⟨[lengthY, lengthX], basisIndices'⟩ = .ok h ∧
      h.divX = divisor lengthY ∧ h.divY = divisor lengthX := exists_build rfl rfl
  have hm : Mirrored h h' := mirrored_of_build rfl rfl hbuild hbuild'
  refine ⟨h, h', hbuild, hbuild', hm, hm.perm_basicOperators, fun c c' hc => ?_⟩
  exact hm.energy_eq_ok_iff fun b hb => hc b (mem_firstSeen.mpr hb)

end TJKHamiltonian

end LatticeObservables
