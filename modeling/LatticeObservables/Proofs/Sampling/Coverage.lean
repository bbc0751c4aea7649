import LatticeObservables.Proofs.Evaluation.Reading
import LatticeObservables.Proofs.Sampling.Binning

/-!
# Evaluating What Was Declared

A run that has finished can evaluate every observable that was declared for it, in the context
of the values of its last bins as well as in the context of the means over its bins. A context
knows no walks: what it holds for an operator was measured on the last of the walks that have
measured it.

## Main statements

* `MeasurementContext.get?_ofPlanValues`: which walk's value a context holds.
* `BinnedResults.Full.isSome_get?_contextBy`: results with a value in every bin leave no operator
  of their plans without a value.
* `calculatePlans_evaluates_declared`: no declared observable misses a measurement.
-/

namespace LatticeObservables

variable {W S R : Type}

/-! ### Contexts of values -/

/-- The last of the walks on which an operator has been measured, in the order of a list of
plans. -/
def lastWalk (plans : List (BasicPlan W)) (o : BasicOperator) : Option W :=
  ((plans.filter (·.operator = o)).map BasicPlan.walk).getLast?

/-- An operator that has been measured has been measured on some walk last. -/
theorem exists_lastWalk {plans : List (BasicPlan W)} {p : BasicPlan W} (hp : p ∈ plans) :
    ∃ w, lastWalk plans p.operator = some w ∧ ⟨w, p.operator⟩ ∈ plans := by
  have hmem : p.walk ∈ (plans.filter (·.operator = p.operator)).map BasicPlan.walk := by
    refine List.mem_map_of_mem ?_
    simp only [List.mem_filter, decide_eq_true_eq]
    exact ⟨hp, trivial⟩
  obtain ⟨w, hw⟩ := Option.isSome_iff_exists.mp
    (List.getLast?_isSome.mpr (List.ne_nil_of_mem hmem))
  obtain ⟨⟨w', o⟩, hq, rfl⟩ := List.mem_map.mp (List.mem_of_getLast? hw)
  simp only [List.mem_filter, decide_eq_true_eq] at hq
  obtain ⟨hq, rfl⟩ := hq
  exact ⟨w', hw, hq⟩

/-- An operator that was measured on one walk only was measured on that one last. -/
theorem lastWalk_of_unique {plans : List (BasicPlan W)} {p : BasicPlan W} (hp : p ∈ plans)
    (h : ∀ q ∈ plans, q.operator = p.operator → q.walk = p.walk) :
    lastWalk plans p.operator = some p.walk := by
  obtain ⟨w, hw, hmem⟩ := exists_lastWalk hp
  have hwalk : w = p.walk := h ⟨w, p.operator⟩ hmem rfl
  rw [hw, hwalk]

/-- A context holds for an operator the value of the **last walk that measured it**. -/
theorem MeasurementContext.get?_ofPlanValues [DecidableEq W]
    (values : OrderedMap (BasicPlan W) (Complex R)) (o : BasicOperator) :
    (ofPlanValues values.entries).get? o =
      (lastWalk values.keys o).bind fun w => values.get? ⟨w, o⟩ := by
  have hfilter : (values.entries.map fun e => (e.1.operator, e.2)).filter (·.1 = o) =
      (values.entries.filter (·.1.operator = o)).map fun e => (e.1.operator, e.2) := by
    rw [List.filter_map]
    rfl
  have hwalks : (values.keys.filter (·.operator = o)).map BasicPlan.walk =
      (values.entries.filter (·.1.operator = o)).map fun e => e.1.walk := by
    rw [OrderedMap.keys, List.filter_map, List.map_map]
    rfl
  rw [ofPlanValues, OrderedMap.get?_ofList, hfilter, lastWalk, hwalks, List.getLast?_map,
    List.getLast?_map]
  cases hlast : (values.entries.filter (·.1.operator = o)).getLast? with
  | none => rfl
  | some e =>
      obtain ⟨⟨w, o'⟩, value⟩ := e
      have hmem := List.mem_of_getLast? hlast
      simp only [List.mem_filter, decide_eq_true_eq] at hmem
      obtain ⟨hentry, rfl⟩ := hmem
      exact (OrderedMap.get?_eq_some_iff.mpr hentry).symm

/-! ### Contexts of results -/

/-- The mean over bins, if there are any. -/
def mean? [Scalar R] (values : List (Complex R)) : Option (Complex R) :=
  (BinSummary.ofBins? values).map BinSummary.mean

/-- The mean over at least one bin is the sum divided by the number of bins. -/
theorem mean?_of_pos [Scalar R] {values : List (Complex R)} (h : 1 ≤ values.length) :
    mean? values = some (Complex.sum values / (Scalar.ofCount values.length : R)) := by
  rw [mean?, BinSummary.ofBins?, if_neg (by omega)]
  split <;> rfl

namespace BinnedResults

/-- The context of results in which the values of each plan are **reduced to one**. -/
def contextBy (results : BinnedResults (BasicPlan W) R)
    (value : List (Complex R) → Option (Complex R)) : MeasurementContext R :=
  .ofPlanValues (results.bins.filterMapValues value).entries

/-- The context of the **latest values** of a run. -/
def latestContext (results : BinnedResults (BasicPlan W) R) : MeasurementContext R :=
  .ofPlanValues results.mostRecent.entries

/-- The context of the **mean values** of a run. -/
def meanContext [Scalar R] (results : BinnedResults (BasicPlan W) R) : MeasurementContext R :=
  .ofPlanValues (results.summarize.entries.map fun e => (e.1, e.2.mean))

/-- The latest value is the last of the values. -/
theorem latestContext_eq (results : BinnedResults (BasicPlan W) R) :
    results.latestContext = results.contextBy List.getLast? :=
  rfl

/-- The mean value is the mean of the values. -/
theorem meanContext_eq [Scalar R] (results : BinnedResults (BasicPlan W) R) :
    results.meanContext = results.contextBy mean? := by
  rw [meanContext, summarize, OrderedMap.map_entries_filterMapValues]
  rfl

variable [DecidableEq W] {results : BinnedResults (BasicPlan W) R} {n : Nat}
  {value : List (Complex R) → Option (Complex R)}

/-- A context of full results holds for an operator what the values on the **last walk that
measured it** are reduced to. -/
theorem Full.get?_contextBy (h : results.Full n) (hn : 1 ≤ n)
    (hvalue : ∀ values, 1 ≤ values.length → (value values).isSome) (o : BasicOperator) :
    (results.contextBy value).get? o =
      (lastWalk results.bins.keys o).bind fun w => (results.get? ⟨w, o⟩).bind value := by
  have hkeys : (results.bins.filterMapValues value).keys = results.bins.keys := by
    refine OrderedMap.keys_filterMapValues fun p values hget => hvalue values ?_
    obtain ⟨values', hget', hlength⟩ :=
      h p (OrderedMap.isSome_get?.mp (Option.isSome_iff_exists.mpr ⟨values, hget⟩))
    obtain rfl := Option.some.inj (hget.symm.trans hget')
    omega
  rw [contextBy, MeasurementContext.get?_ofPlanValues, hkeys]
  simp only [OrderedMap.get?_filterMapValues]
  rfl

/-- A context of full results has a value for the operator of each plan. -/
theorem Full.isSome_get?_contextBy (h : results.Full n) (hn : 1 ≤ n)
    (hvalue : ∀ values, 1 ≤ values.length → (value values).isSome) {p : BasicPlan W}
    (hp : p ∈ results.bins.keys) : ((results.contextBy value).get? p.operator).isSome := by
  obtain ⟨w, hw, hmem⟩ := exists_lastWalk hp
  obtain ⟨values, hget, hlength⟩ := h _ hmem
  rw [h.get?_contextBy hn hvalue, hw, Option.bind_some, hget, Option.bind_some]
  exact hvalue values (by omega)

/-- If no other walk measured the operator of a plan, a context of full results holds for it
what the **plan's own values** are reduced to. -/
theorem Full.get?_contextBy_of_unique (h : results.Full n) (hn : 1 ≤ n)
    (hvalue : ∀ values, 1 ≤ values.length → (value values).isSome) {p : BasicPlan W}
    (hp : p ∈ results.bins.keys)
    (hunique : ∀ q ∈ results.bins.keys, q.operator = p.operator → q.walk = p.walk) :
    (results.contextBy value).get? p.operator = (results.get? p).bind value := by
  rw [h.get?_contextBy hn hvalue, lastWalk_of_unique hp hunique, Option.bind_some]

end BinnedResults

/-! ### Engines of samplers -/

/-- A chain keeps the plans of its request, and one estimate for each, **in whatever state** it
is. -/
theorem Sampler.serves_of_reaches {σ : Type} [DecidableEq W] [Scalar R] {sampler : Sampler W σ R}
    {request : Request W} {c : Chain W σ R} (hc : sampler.engine.Reaches request c) :
    c.Serves request := by
  induction hc with
  | create h =>
      obtain ⟨hplans, hpaired, -⟩ := create_eq_ok h
      exact ⟨hplans, hpaired⟩
  | reset _ ih => exact ⟨ih.1, ih.2.reset⟩
  | advance sweeps _ ih =>
      obtain ⟨hplans, hpaired⟩ := Chain.plans_advance sampler sweeps ih.2
      exact ⟨hplans.trans ih.1, hpaired⟩

/-- The simulations of a **sampler** keep the plans they were created with. -/
theorem Sampler.keepsPlans_engine {σ : Type} [DecidableEq W] [Scalar R] (sampler : Sampler W σ R) :
    sampler.engine.KeepsPlans :=
  fun _ _ hc => (serves_of_reaches hc).1

/-! ### Declared observables -/

variable [DecidableEq W] [WalkPlan W]

/-- The plans that have values after at least one bin are the basic plans that were asked
for. -/
theorem Universe.Measured.mem_keys {engine : Engine W S R} {plans : List (MeasurementPlan W)}
    {equilibriumSweeps n : Nat} {seed : UInt64} {u : Universe S}
    {results : BinnedResults (BasicPlan W) R} (hn : 1 ≤ n)
    (h : Measured engine (requests plans equilibriumSweeps seed) n u results)
    {p : BasicPlan W} : p ∈ results.bins.keys ↔ ∃ plan ∈ plans, p ∈ plan.basicPlans := by
  rw [h.keys, if_neg (by omega), mem_flatMap_plans_requests]

/-- **A run that has finished can evaluate what was declared.** If the simulations of an engine
keep the plans they were created with and there is at least one bin, no measurement is missing
for an observable that was declared, neither among the latest values nor among the means. What
such a context holds for a basic operator was recorded on the last walk that measured it. Each
basic plan of a declared plan has a value in every bin, and its own latest value and its own
mean are the ones in the contexts if no other walk measured its operator. -/
theorem calculatePlans_evaluates_declared [Scalar R] {engine : Engine W S R}
    (hkeeps : engine.KeepsPlans) {plans : List (MeasurementPlan W)} {config : RunConfig}
    (hbins : 1 ≤ config.bins) {entropy : UInt64} {results : BinnedResults (BasicPlan W) R}
    (h : (calculatePlans engine plans config entropy).2 = .ok results) :
    (∀ plan ∈ plans, ∀ b,
      plan.observable.evaluate results.latestContext ≠ .error (.missingMeasurement b) ∧
        plan.observable.evaluate results.meanContext ≠ .error (.missingMeasurement b)) ∧
    (∀ o,
      results.latestContext.get? o =
          ((lastWalk results.bins.keys o).bind fun w =>
            (results.get? ⟨w, o⟩).bind List.getLast?) ∧
        results.meanContext.get? o =
          (lastWalk results.bins.keys o).bind fun w => (results.get? ⟨w, o⟩).bind mean?) ∧
    (∀ plan ∈ plans, ∀ p ∈ plan.basicPlans, ∃ values,
      results.get? p = some values ∧ values.length = config.bins ∧
        ((∀ q ∈ results.bins.keys, q.operator = p.operator → q.walk = p.walk) →
          results.latestContext.get? p.operator = values.getLast? ∧
            results.meanContext.get? p.operator =
              some (Complex.sum values / (Scalar.ofCount config.bins : R)))) := by
  obtain ⟨u, hmeasured⟩ := measured_of_calculatePlans hkeeps h
  have hfull := hmeasured.full
  have hlatest : ∀ values : List (Complex R), 1 ≤ values.length → values.getLast?.isSome :=
    fun _ hlength => List.getLast?_isSome.mpr (List.ne_nil_of_length_pos hlength)
  have hmean : ∀ values : List (Complex R), 1 ≤ values.length → (mean? values).isSome := by
    intro values hlength
    rw [mean?_of_pos hlength, Option.isSome_some]
  have hkeys : ∀ plan ∈ plans, ∀ p ∈ plan.basicPlans, p ∈ results.bins.keys :=
    fun plan hplan p hp => (hmeasured.mem_keys hbins).mpr ⟨plan, hplan, hp⟩
  rw [BinnedResults.latestContext_eq, BinnedResults.meanContext_eq]
  refine ⟨?evaluates, ?holds, ?own⟩
  case evaluates =>
    intro plan hplan b
    have hcovers : ∀ {value : List (Complex R) → Option (Complex R)},
        (∀ values, 1 ≤ values.length → (value values).isSome) →
          (results.contextBy value).Covers plan.observable.basicOperators :=
      fun hvalue o ho => hfull.isSome_get?_contextBy hbins hvalue
        (hkeys plan hplan ⟨plan.walk, o⟩ (List.mem_map_of_mem ho))
    exact ⟨Observable.evaluate_ne_missingMeasurement (hcovers hlatest) b,
      Observable.evaluate_ne_missingMeasurement (hcovers hmean) b⟩
  case holds =>
    exact fun o => ⟨hfull.get?_contextBy hbins hlatest o, hfull.get?_contextBy hbins hmean o⟩
  case own =>
    intro plan hplan p hp
    have hmem := hkeys plan hplan p hp
    obtain ⟨values, hget, hlength⟩ := hfull p hmem
    refine ⟨values, hget, hlength, fun hunique => ⟨?_, ?_⟩⟩
    · rw [hfull.get?_contextBy_of_unique hbins hlatest hmem hunique, hget, Option.bind_some]
    · rw [hfull.get?_contextBy_of_unique hbins hmean hmem hunique, hget, Option.bind_some,
        mean?_of_pos (by omega), hlength]

/-- Of a density that two walks measure, the context holds the value of the second one, and of a
density that one walk measures it holds the value of that one. -/
theorem sharedDensity_evaluates :
    ∃ results : BinnedResults (BasicPlan Wavefunction) Float,
      (calculatePlans (Synthetic.sampler ⟨true, none⟩).engine sharedDensity ⟨2, 3, 4, some 5⟩ 0).2 =
          .ok results ∧
        (∀ plan ∈ sharedDensity, ∀ b,
          plan.observable.evaluate results.latestContext ≠ .error (.missingMeasurement b)) ∧
        results.latestContext.get? (lineDensity 0) =
          (results.get? ⟨twoSites 2, lineDensity 0⟩).bind List.getLast? ∧
        ∃ values, results.get? ⟨twoSites 1, lineDensity 1⟩ = some values ∧ values.length = 3 ∧
          results.latestContext.get? (lineDensity 1) = values.getLast? := by
  have hsweeps : 1 ≤ (RunConfig.mk 2 3 4 (some 5)).sweepsPerBin := by decide
  obtain ⟨results, hresults⟩ := calculatePlans_total
    (Synthetic.total_sampler (W := Wavefunction) true) sharedDensity hsweeps 0
  have hkeeps := (Synthetic.sampler (W := Wavefunction) ⟨true, none⟩).keepsPlans_engine
  obtain ⟨hevaluates, hholds, hown⟩ :=
    calculatePlans_evaluates_declared hkeeps (by decide) hresults
  obtain ⟨u, hmeasured⟩ := measured_of_calculatePlans hkeeps hresults
  have hkeys : results.bins.keys =
      [⟨twoSites 1, lineDensity 0⟩, ⟨twoSites 1, lineDensity 1⟩, ⟨twoSites 2, lineDensity 0⟩] :=
    hmeasured.keys.trans (by decide)
  refine ⟨results, hresults, fun plan hplan b => (hevaluates plan hplan b).1, ?_, ?_⟩
  · rw [(hholds _).1, hkeys]
    rfl
  · obtain ⟨values, hget, hlength, hcontext⟩ :=
      hown ⟨twoSites 1, .basic (lineDensity 1)⟩ (by decide) ⟨twoSites 1, lineDensity 1⟩ (by decide)
    rw [hkeys] at hcontext
    exact ⟨values, hget, hlength, (hcontext (by decide)).1⟩

end LatticeObservables
