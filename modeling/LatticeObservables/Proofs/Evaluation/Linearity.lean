import Mathlib.Algebra.BigOperators.Ring.List
import LatticeObservables.Proofs.Evaluation.Exact
import LatticeObservables.Proofs.Evaluation.Reading
import LatticeObservables.Proofs.Operator.Mirror
import LatticeObservables.Proofs.Operator.SpinSymmetry

/-!
# Evaluation Is Linear

Measured values are averages over bins, and observables are evaluated once on the averages instead
of once in every bin. That gives the same, because values are put together by linear operations
only: if a context has combinations `a * z + b * w` of the values of two other contexts, what is
computed in it is that combination of what is computed in those (`Linear`). A computation that may
refuse a value is linear as far as it succeeds (`LinearIfOk`): a correlation of two sites refuses a
value that is not real, and takes the real part of the others.

## Main statements

* `linear_measuredSum`: sums of measured values.
* `SpinSpin.linearIfOk_evaluate`, `TJKHamiltonian.eq_combine_of_evaluate`: what may be refused.
* `EnergyTerms.energy_combine`, `EnergyTerms.energy_full_combine`: the energy, in the terms and in
  the couplings.
* `Observable.evaluate_combines`: all observables.
-/

namespace LatticeObservables

/-! ### Linear operations on values -/

namespace Complex

variable (a b : ℝ)

/-- Sums of combinations are the combinations of sums. -/
theorem sum_combine {α : Type} (v w : α → Complex ℝ) (l : List α) :
    sum (l.map fun x => a * v x + b * w x) = a * sum (l.map v) + b * sum (l.map w) := by
  have part {f : Complex ℝ → ℝ} (hzero : f zero = 0) (hadd : ∀ z w, f (z + w) = f z + f w)
      (hmul : ∀ (x : ℝ) z, f (x * z) = x * f z) :
      f (sum (l.map fun x => a * v x + b * w x)) =
        a * f (sum (l.map v)) + b * f (sum (l.map w)) := by
    simp only [part_sum hzero hadd, List.map_map, Function.comp_def, hadd, hmul,
      List.sum_map_add, List.sum_map_mul_left]
  ext
  · exact part re_zero re_add fun x z => re_mul z x
  · exact part im_zero im_add fun x z => im_mul z x

end Complex

/-! ### Linear computations -/

/-- A context has **combinations** of the values of two other contexts for some operators. -/
def MeasurementContext.Combines (a b : ℝ) (c₁ c₂ c : MeasurementContext ℝ)
    (operators : List BasicOperator) : Prop :=
  ∀ o ∈ operators, ∃ z w, c₁.get? o = some z ∧ c₂.get? o = some w ∧ c.get? o = some (a * z + b * w)

/-- A computation from the values of some operators is **linear**. -/
def Linear (operators : List BasicOperator)
    (f : MeasurementContext ℝ → Except (EvaluationError ℝ) (Complex ℝ)) : Prop :=
  ∀ (a b : ℝ) (c₁ c₂ c : MeasurementContext ℝ), MeasurementContext.Combines a b c₁ c₂ c operators →
    ∃ z w, f c₁ = .ok z ∧ f c₂ = .ok w ∧ f c = .ok (a * z + b * w)

/-- A computation from the values of some operators is linear **as far as it succeeds**. -/
def LinearIfOk (operators : List BasicOperator)
    (f : MeasurementContext ℝ → Except (EvaluationError ℝ) (Complex ℝ)) : Prop :=
  ∀ (a b : ℝ) (c₁ c₂ c : MeasurementContext ℝ), MeasurementContext.Combines a b c₁ c₂ c operators →
    ∀ z w v, f c₁ = .ok z → f c₂ = .ok w → f c = .ok v → v = a * z + b * w

/-- What is combined for a list is combined for a part of it. -/
theorem MeasurementContext.Combines.mono {a b : ℝ} {c₁ c₂ c : MeasurementContext ℝ}
    {l₁ l₂ : List BasicOperator} (h : Combines a b c₁ c₂ c l₂) (hl : ∀ o ∈ l₁, o ∈ l₂) :
    Combines a b c₁ c₂ c l₁ :=
  fun o ho => h o (hl o ho)

namespace Linear

variable {l l₁ l₂ : List BasicOperator}
  {f f₁ f₂ : MeasurementContext ℝ → Except (EvaluationError ℝ) (Complex ℝ)}

/-- A linear computation is linear as far as it succeeds. -/
theorem ifOk (hf : Linear l f) : LinearIfOk l f := by
  intro a b c₁ c₂ c hc z w v hz hw hv
  obtain ⟨z', w', hz', hw', hv'⟩ := hf a b c₁ c₂ c hc
  obtain rfl := Except.ok.inj (hz.symm.trans hz')
  obtain rfl := Except.ok.inj (hw.symm.trans hw')
  exact Except.ok.inj (hv.symm.trans hv')

/-- Looking a value up is linear. -/
theorem read (o : BasicOperator) : Linear [o] (fun c => c.read o) := by
  intro a b c₁ c₂ c hc
  obtain ⟨z, w, hz, hw, hv⟩ := hc o (by simp)
  exact ⟨z, w, MeasurementContext.read_eq_ok.mpr hz, MeasurementContext.read_eq_ok.mpr hw,
    MeasurementContext.read_eq_ok.mpr hv⟩

/-- A linear operation on the value of a linear computation is linear. -/
theorem map (hf : Linear l f) {g : Complex ℝ → Complex ℝ}
    (hg : ∀ (a b : ℝ) z w, g (a * z + b * w) = a * g z + b * g w) :
    Linear l (fun c => do return g (← f c)) := by
  intro a b c₁ c₂ c hc
  obtain ⟨z, w, hz, hw, hv⟩ := hf a b c₁ c₂ c hc
  exact ⟨g z, g w, bind_eq_ok.mpr ⟨z, hz, rfl⟩, bind_eq_ok.mpr ⟨w, hw, rfl⟩,
    bind_eq_ok.mpr ⟨_, hv, congrArg Except.ok (hg a b z w)⟩⟩

/-- A linear operation on the values of **two** linear computations is linear. -/
theorem map₂ (hf₁ : Linear l₁ f₁) (hf₂ : Linear l₂ f₂) {g : Complex ℝ → Complex ℝ → Complex ℝ}
    (hg : ∀ (a b : ℝ) z w z' w',
      g (a * z + b * w) (a * z' + b * w') = a * g z z' + b * g w w') :
    Linear (l₁ ++ l₂) (fun c => do
      let z ← f₁ c
      let w ← f₂ c
      return g z w) := by
  intro a b c₁ c₂ c hc
  obtain ⟨z, w, hz, hw, hv⟩ := hf₁ a b c₁ c₂ c (hc.mono fun o => List.mem_append_left _)
  obtain ⟨z', w', hz', hw', hv'⟩ := hf₂ a b c₁ c₂ c (hc.mono fun o => List.mem_append_right _)
  exact ⟨g z z', g w w', bind_eq_ok.mpr ⟨z, hz, bind_eq_ok.mpr ⟨z', hz', rfl⟩⟩,
    bind_eq_ok.mpr ⟨w, hw, bind_eq_ok.mpr ⟨w', hw', rfl⟩⟩,
    bind_eq_ok.mpr ⟨_, hv, bind_eq_ok.mpr ⟨_, hv', congrArg Except.ok (hg a b z w z' w')⟩⟩⟩

end Linear

/-- A **sum of measured values** is linear. -/
theorem linear_measuredSum (operators : List BasicOperator) :
    Linear operators (measuredSum operators) := by
  intro a b c₁ c₂ c hc
  let v (o : BasicOperator) : Complex ℝ := (c₁.get? o).getD Complex.zero
  let w (o : BasicOperator) : Complex ℝ := (c₂.get? o).getD Complex.zero
  have hvalues : ∀ o ∈ operators, c₁.get? o = some (v o) ∧ c₂.get? o = some (w o) ∧
      c.get? o = some (a * v o + b * w o) := by
    intro o ho
    obtain ⟨z₁, z₂, hz₁, hz₂, hz⟩ := hc o ho
    simp only [v, w, hz₁, hz₂, hz, Option.getD_some, and_self]
  refine ⟨_, _, measuredSum_eq_ok fun o ho => (hvalues o ho).1,
    measuredSum_eq_ok fun o ho => (hvalues o ho).2.1, ?_⟩
  rw [measuredSum_eq_ok fun o ho => (hvalues o ho).2.2, Complex.sum_combine]

/-! ### Composite operators -/

/-- A spin correlation of **one site** is linear. -/
theorem SpinSpin.linear_evaluate_sameSite (up down : BasicOperator) :
    Linear [up, down] (sameSite up down).evaluate :=
  (Linear.read up).map₂ (Linear.read down) fun a b z w z' w' => by
    ext
    · simp only [Complex.re_add, Complex.re_mul]
      ring
    · simp only [Complex.im_add, Complex.im_mul]
      ring

/-- The value of a correlation of two sites is **the real part** of the correlation of the
values. -/
theorem SpinSpin.evaluate_twoSites_eq_ok {c : MeasurementContext ℝ}
    {upUp downDown upDown downUp exchange : BasicOperator} {uu dd ud du e v : Complex ℝ}
    (huu : c.get? upUp = some uu) (hdd : c.get? downDown = some dd)
    (hud : c.get? upDown = some ud) (hdu : c.get? downUp = some du)
    (he : c.get? exchange = some e)
    (hv : (twoSites upUp downDown upDown downUp exchange).evaluate c = .ok v) :
    v = ⟨(correlation uu dd ud du e).re, 0⟩ := by
  rw [evaluate_twoSites huu hdd hud hdu he, realPart] at hv
  split at hv
  · obtain rfl := Except.ok.inj hv
    norm_num
  · cases hv

/-- A spin correlation is linear **as far as it succeeds**. -/
theorem SpinSpin.linearIfOk_evaluate (o : SpinSpin) : LinearIfOk o.operators o.evaluate := by
  cases o with
  | sameSite up down => exact (linear_evaluate_sameSite up down).ifOk
  | twoSites upUp downDown upDown downUp exchange =>
      intro a b c₁ c₂ c hc z w v hz hw hv
      simp only [MeasurementContext.Combines, operators, List.forall_mem_cons] at hc
      obtain ⟨⟨uu, uu', huu, huu', huu''⟩, ⟨dd, dd', hdd, hdd', hdd''⟩,
        ⟨ud, ud', hud, hud', hud''⟩, ⟨du, du', hdu, hdu', hdu''⟩, ⟨e, e', he, he', he''⟩, -⟩ := hc
      -- The values are real parts once there are values, whatever the check makes of them.
      rw [evaluate_twoSites_eq_ok huu hdd hud hdu he hz,
        evaluate_twoSites_eq_ok huu' hdd' hud' hdu' he' hw,
        evaluate_twoSites_eq_ok huu'' hdd'' hud'' hdu'' he'' hv]
      ext
      · simp only [re_correlation, Complex.re_add, Complex.re_mul]
        ring
      · simp only [Complex.im_add, Complex.im_mul]
        ring

/-- A **singlet ring exchange** is linear. -/
theorem SingletRingExchange.linear_evaluate (o : SingletRingExchange) :
    Linear o.operators o.evaluate :=
  (linear_measuredSum o.operators).map fun a b z w => by
    ext
    · simp only [Complex.re_add, Complex.re_mul]
      ring
    · simp only [Complex.im_add, Complex.im_mul]
      ring

/-- A **spin ring exchange** is linear. -/
theorem SpinRingExchange.linear_evaluate (o : SpinRingExchange) : Linear o.operators o.evaluate :=
  (linear_measuredSum o.aligned).map₂ (linear_measuredSum o.mixed) fun a b z w z' w' => by
    ext
    · simp only [Complex.re_addConj, Complex.re_sub, Complex.re_add, Complex.re_mul]
      ring
    · simp only [Complex.im_addConj, Complex.im_add, Complex.im_mul]
      ring

/-! ### The Hamiltonian -/

/-- The combination of **measured terms**, with the divisors of the first ones. -/
noncomputable def EnergyTerms.combine (a : ℝ) (x : EnergyTerms ℝ) (b : ℝ) (y : EnergyTerms ℝ) :
    EnergyTerms ℝ where
  greenX := a * x.greenX + b * y.greenX
  greenY := a * x.greenY + b * y.greenY
  spinSpinX := a * x.spinSpinX + b * y.spinSpinX
  spinSpinY := a * x.spinSpinY + b * y.spinSpinY
  ringExchange := a * x.ringExchange + b * y.ringExchange
  divX := x.divX
  divY := x.divY

/-- The measured terms of a Hamiltonian are linear **as far as there are any**, and its divisors are
the same in all contexts. -/
theorem TJKHamiltonian.eq_combine_of_evaluate {h : TJKHamiltonian} {a b : ℝ}
    {c₁ c₂ c : MeasurementContext ℝ} (hc : MeasurementContext.Combines a b c₁ c₂ c h.operators)
    {x y terms : EnergyTerms ℝ} (hx : h.evaluate c₁ = .ok x) (hy : h.evaluate c₂ = .ok y)
    (hterms : h.evaluate c = .ok terms) :
    y.divX = x.divX ∧ y.divY = x.divY ∧ terms = x.combine a b y := by
  simp only [MeasurementContext.Combines, operators, List.forall_mem_append] at hc
  obtain ⟨⟨⟨⟨hhopsX, hhopsY⟩, hspinSpinX⟩, hspinSpinY⟩, hring⟩ := hc
  obtain ⟨greenX, greenY, spinSpinX, spinSpinY, ring, divX, divY⟩ := evaluate_eq_ok_iff.mp hx
  obtain ⟨greenX', greenY', spinSpinX', spinSpinY', ring', divX', divY'⟩ :=
    evaluate_eq_ok_iff.mp hy
  obtain ⟨greenX'', greenY'', spinSpinX'', spinSpinY'', ring'', divX'', divY''⟩ :=
    evaluate_eq_ok_iff.mp hterms
  refine ⟨divX'.symm.trans divX, divY'.symm.trans divY, ?_⟩
  obtain ⟨_, _, _, _, _, _, _⟩ := terms
  simp only [EnergyTerms.combine, EnergyTerms.mk.injEq]
  exact ⟨(linear_measuredSum _).ifOk a b c₁ c₂ c hhopsX _ _ _ greenX greenX' greenX'',
    (linear_measuredSum _).ifOk a b c₁ c₂ c hhopsY _ _ _ greenY greenY' greenY'',
    h.spinSpinX.linearIfOk_evaluate a b c₁ c₂ c hspinSpinX _ _ _ spinSpinX spinSpinX' spinSpinX'',
    h.spinSpinY.linearIfOk_evaluate a b c₁ c₂ c hspinSpinY _ _ _ spinSpinY spinSpinY' spinSpinY'',
    h.ring.linear_evaluate.ifOk a b c₁ c₂ c hring _ _ _ ring ring' ring'',
    divX''.symm.trans divX, divY''.symm.trans divY⟩

namespace EnergyTerms

/-- The energy of combined terms is the **combination of the energies** under the same couplings. -/
theorem energy_combine {x y : EnergyTerms ℝ} (a b : ℝ) (hdivX : y.divX = x.divX)
    (hdivY : y.divY = x.divY) (couplings : Couplings ℝ) :
    (x.combine a b y).energy couplings = do
      return a * (← x.energy couplings) + b * (← y.energy couplings) := by
  obtain ⟨t, tperp, J, Jperp, K⟩ := couplings
  cases t with
  | none => rfl
  | some t =>
      cases J with
      | none => rfl
      | some J =>
          cases K with
          | none => rfl
          | some K =>
              refine congrArg Except.ok ?_
              ext
              · simp only [combine, hdivX, hdivY, Complex.re_add, Complex.re_sub, Complex.re_mul,
                  Complex.re_div, Complex.re_addConj, decimal_two]
                ring
              · simp only [combine, hdivX, hdivY, Complex.im_add, Complex.im_sub, Complex.im_mul,
                  Complex.im_div, Complex.im_addConj, decimal_two]
                ring

/-- The energy under combined couplings, **all of them given**, is the combination of the energies
of the same terms. -/
theorem energy_full_combine (terms : EnergyTerms ℝ)
    (a b t tperp J Jperp K t' tperp' J' Jperp' K' : ℝ) :
    terms.energy ⟨some (a * t + b * t'), some (a * tperp + b * tperp'), some (a * J + b * J'),
        some (a * Jperp + b * Jperp'), some (a * K + b * K')⟩ = do
      return a * (← terms.energy ⟨some t, some tperp, some J, some Jperp, some K⟩) +
        b * (← terms.energy ⟨some t', some tperp', some J', some Jperp', some K'⟩) := by
  refine congrArg Except.ok ?_
  ext
  · simp only [Option.getD_some, Complex.re_add, Complex.re_sub, Complex.re_mul, Complex.re_div,
      Complex.re_addConj, decimal_two]
    ring
  · simp only [Option.getD_some, Complex.im_add, Complex.im_sub, Complex.im_mul, Complex.im_div,
      Complex.im_addConj, decimal_two]
    ring

end EnergyTerms

/-! ### Observables -/

/-- An evaluation is the **combination** of two others, of their values or of their measured
terms. -/
inductive Evaluation.Combined (a b : ℝ) : Evaluation ℝ → Evaluation ℝ → Evaluation ℝ → Prop
  | value (z w : Complex ℝ) : Combined a b (.value z) (.value w) (.value (a * z + b * w))
  | terms (x y : EnergyTerms ℝ) : y.divX = x.divX → y.divY = x.divY →
      Combined a b (.terms x) (.terms y) (.terms (x.combine a b y))

/-- What combined evaluations come to under couplings is combined too. -/
theorem Evaluation.Combined.underCouplings {a b : ℝ} {e₁ e₂ e : Evaluation ℝ}
    (h : Combined a b e₁ e₂ e) (couplings : Couplings ℝ) :
    e.underCouplings couplings = do
      return a * (← e₁.underCouplings couplings) + b * (← e₂.underCouplings couplings) := by
  cases h with
  | value z w => rfl
  | terms x y hdivX hdivY => exact EnergyTerms.energy_combine a b hdivX hdivY couplings

section Values

variable {a b : ℝ} {c₁ c₂ c : MeasurementContext ℝ} {l : List BasicOperator}
  {f : MeasurementContext ℝ → Except (EvaluationError ℝ) (Complex ℝ)}

/-- An observable with the value of a linear computation **has values that are combined**. -/
theorem Linear.exists_values (hf : Linear l f) (hc : MeasurementContext.Combines a b c₁ c₂ c l) :
    ∃ z w, (do return Evaluation.value (← f c₁)) = Except.ok (Evaluation.value z) ∧
      (do return Evaluation.value (← f c₂)) = Except.ok (Evaluation.value w) ∧
      (do return Evaluation.value (← f c)) = Except.ok (Evaluation.value (a * z + b * w)) := by
  obtain ⟨z, w, hz, hw, hv⟩ := hf a b c₁ c₂ c hc
  exact ⟨z, w, bind_eq_ok.mpr ⟨z, hz, rfl⟩, bind_eq_ok.mpr ⟨w, hw, rfl⟩,
    bind_eq_ok.mpr ⟨_, hv, rfl⟩⟩

/-- An observable with the value of a computation that is linear as far as it succeeds is combined
**if it has values**. -/
theorem LinearIfOk.combined (hf : LinearIfOk l f)
    (hc : MeasurementContext.Combines a b c₁ c₂ c l) {e₁ e₂ e : Evaluation ℝ}
    (h₁ : (do return Evaluation.value (← f c₁)) = Except.ok e₁)
    (h₂ : (do return Evaluation.value (← f c₂)) = Except.ok e₂)
    (h : (do return Evaluation.value (← f c)) = Except.ok e) : Evaluation.Combined a b e₁ e₂ e := by
  obtain ⟨z, hz, h₁⟩ := bind_eq_ok.mp h₁
  obtain ⟨w, hw, h₂⟩ := bind_eq_ok.mp h₂
  obtain ⟨v, hv, h⟩ := bind_eq_ok.mp h
  obtain rfl := Except.ok.inj h₁
  obtain rfl := Except.ok.inj h₂
  obtain rfl := Except.ok.inj h
  obtain rfl := hf a b c₁ c₂ c hc z w v hz hw hv
  exact .value z w

end Values

namespace Observable

variable {o : Observable} {a b : ℝ} {c₁ c₂ c : MeasurementContext ℝ}

/-- Contexts that are combined for the basic operators of an observable are combined for its
terms. -/
theorem combines_terms (hc : MeasurementContext.Combines a b c₁ c₂ c o.basicOperators) :
    MeasurementContext.Combines a b c₁ c₂ c o.terms :=
  hc.mono fun _ => mem_firstSeen.mpr

/-- Observables that refuse no value **have combined values**: all but correlations of two sites and
Hamiltonians. -/
theorem exists_values (hsites : ∀ s, o = spinSpin s → s.isSameSite)
    (hterms : ∀ h, o ≠ hamiltonian h)
    (hc : MeasurementContext.Combines a b c₁ c₂ c o.basicOperators) :
    ∃ z w, o.evaluate c₁ = .ok (.value z) ∧ o.evaluate c₂ = .ok (.value w) ∧
      o.evaluate c = .ok (.value (a * z + b * w)) := by
  have hc := combines_terms hc
  cases o with
  | basic o => exact (Linear.read o).exists_values hc
  | densityDensity o => exact (linear_measuredSum o.operators).exists_values hc
  | spinSpin o =>
      cases o with
      | sameSite up down => exact (SpinSpin.linear_evaluate_sameSite up down).exists_values hc
      | twoSites => exact absurd (hsites _ rfl) Bool.false_ne_true
  | singletRing o => exact o.linear_evaluate.exists_values hc
  | hamiltonian h => exact absurd rfl (hterms h)
  | spinRing o => exact o.linear_evaluate.exists_values hc

/-- Observables that have values, or terms, have **combined ones**. -/
theorem combined_of_evaluate (hc : MeasurementContext.Combines a b c₁ c₂ c o.basicOperators)
    {e₁ e₂ e : Evaluation ℝ} (h₁ : o.evaluate c₁ = .ok e₁) (h₂ : o.evaluate c₂ = .ok e₂)
    (h : o.evaluate c = .ok e) : Evaluation.Combined a b e₁ e₂ e := by
  have hc := combines_terms hc
  cases o with
  | basic o => exact (Linear.read o).ifOk.combined hc h₁ h₂ h
  | densityDensity o => exact (linear_measuredSum o.operators).ifOk.combined hc h₁ h₂ h
  | spinSpin o => exact o.linearIfOk_evaluate.combined hc h₁ h₂ h
  | singletRing o => exact o.linear_evaluate.ifOk.combined hc h₁ h₂ h
  | hamiltonian o =>
      obtain ⟨x, hx, h₁⟩ := bind_eq_ok.mp h₁
      obtain ⟨y, hy, h₂⟩ := bind_eq_ok.mp h₂
      obtain ⟨terms, hterms, h⟩ := bind_eq_ok.mp h
      obtain rfl := Except.ok.inj h₁
      obtain rfl := Except.ok.inj h₂
      obtain rfl := Except.ok.inj h
      obtain ⟨hdivX, hdivY, rfl⟩ := TJKHamiltonian.eq_combine_of_evaluate hc hx hy hterms
      exact .terms x y hdivX hdivY
  | spinRing o => exact o.linear_evaluate.ifOk.combined hc h₁ h₂ h

/-- **Evaluation is linear.** Let a context have the combinations `a * z + b * w` of the values that
two contexts have for the basic operators of an observable. An observable that refuses no value has
a value in all three, which in the combined context is the combination of the other two. A
correlation of two sites, and each of the five terms of a Hamiltonian, is combined too if there is a
value in all three, and so is what they come to under couplings. The energy is linear in the five
measured terms under the same couplings, and linear in the five couplings if all of them are
given. -/
theorem evaluate_combines (a b : ℝ) :
    (∀ (o : Observable) (c₁ c₂ c : MeasurementContext ℝ),
      MeasurementContext.Combines a b c₁ c₂ c o.basicOperators →
      ((∀ s, o = spinSpin s → s.isSameSite) → (∀ h, o ≠ hamiltonian h) →
        ∃ z w, o.evaluate c₁ = .ok (.value z) ∧ o.evaluate c₂ = .ok (.value w) ∧
          o.evaluate c = .ok (.value (a * z + b * w))) ∧
      ∀ e₁ e₂ e, o.evaluate c₁ = .ok e₁ → o.evaluate c₂ = .ok e₂ → o.evaluate c = .ok e →
        Evaluation.Combined a b e₁ e₂ e ∧
        ∀ couplings, e.underCouplings couplings = do
          return a * (← e₁.underCouplings couplings) + b * (← e₂.underCouplings couplings)) ∧
    (∀ x y : EnergyTerms ℝ, y.divX = x.divX → y.divY = x.divY → ∀ couplings : Couplings ℝ,
      (x.combine a b y).energy couplings = do
        return a * (← x.energy couplings) + b * (← y.energy couplings)) ∧
    ∀ (terms : EnergyTerms ℝ) (t tperp J Jperp K t' tperp' J' Jperp' K' : ℝ),
      terms.energy ⟨some (a * t + b * t'), some (a * tperp + b * tperp'), some (a * J + b * J'),
          some (a * Jperp + b * Jperp'), some (a * K + b * K')⟩ = do
        return a * (← terms.energy ⟨some t, some tperp, some J, some Jperp, some K⟩) +
          b * (← terms.energy ⟨some t', some tperp', some J', some Jperp', some K'⟩) := by
  refine ⟨fun o c₁ c₂ c hc => ⟨fun hsites hterms => exists_values hsites hterms hc,
    fun e₁ e₂ e h₁ h₂ h => ?_⟩, fun x y => EnergyTerms.energy_combine a b,
    fun terms => terms.energy_full_combine a b⟩
  have hcombined := combined_of_evaluate hc h₁ h₂ h
  exact ⟨hcombined, hcombined.underCouplings⟩

end Observable

end LatticeObservables
