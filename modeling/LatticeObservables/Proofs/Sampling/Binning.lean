import LatticeObservables.Proofs.Sampling.Chain
import LatticeObservables.Proofs.Sampling.Recording
import LatticeObservables.Sampling.Synthetic

/-!
# Bins

Binning neither loses nor reuses nor mixes samples. After `n` bins the simulation of a
request has swept once for each sweep of equilibration and of the `n` bins, and the values
that are recorded for a plan are the means over the samples of its own bins
(`Sampler.Binned`).

## Main statements

* `Universe.Recorded.record`: one bin brings a recorded run to its next bin.
* `Universe.Recorded.recordBins`: a whole run has recorded all of its bins.
* `calculatePlans_bins_exact`: which means a run records, and when it succeeds.
-/

namespace LatticeObservables

/-! ### The samples of a bin -/

section BinSweeps

variable {W R : Type}

/-- The sweeps of **bin `b`**: as many as a bin has, after equilibration and the bins
before. -/
def binSweeps (config : RunConfig) (fs : List (Sweep W R)) (b : Nat) : List (Sweep W R) :=
  (fs.drop (config.equilibriumSweeps + b * config.sweepsPerBin)).take config.sweepsPerBin

/-- The **mean** over bin `b` of the samples of a plan at a position. -/
def binMean [Scalar R] (config : RunConfig) (fs : List (Sweep W R)) (i : Nat)
    (p : BasicPlan W) (b : Nat) : Complex R :=
  Complex.sum ((binSweeps config fs b).map fun f => f i p) /
    (Scalar.ofCount config.sweepsPerBin : R)

/-- The sweeps of a bin that is complete do not change afterwards. -/
theorem binSweeps_append_of_lt {config : RunConfig} {fs gs : List (Sweep W R)} {n b : Nat}
    (hfs : fs.length = config.equilibriumSweeps + n * config.sweepsPerBin) (hb : b < n) :
    binSweeps config (fs ++ gs) b = binSweeps config fs b := by
  have hend : b * config.sweepsPerBin + config.sweepsPerBin ≤ n * config.sweepsPerBin := by
    rw [← Nat.succ_mul]
    exact Nat.mul_le_mul_right _ hb
  rw [binSweeps, binSweeps, List.drop_append_of_le_length (by omega),
    List.take_append_of_le_length (by rw [List.length_drop]; omega)]

/-- The sweeps after a number of bins are the next bin. -/
theorem binSweeps_append_self {config : RunConfig} {fs gs : List (Sweep W R)} {n : Nat}
    (hfs : fs.length = config.equilibriumSweeps + n * config.sweepsPerBin)
    (hgs : gs.length = config.sweepsPerBin) : binSweeps config (fs ++ gs) n = gs := by
  rw [binSweeps, ← hfs, List.drop_left, ← hgs, List.take_length]

/-- The bins together are the sweeps after equilibration, **each in one bin**. -/
theorem flatMap_binSweeps {config : RunConfig} {fs : List (Sweep W R)} {n : Nat}
    (hfs : fs.length = config.equilibriumSweeps + n * config.sweepsPerBin) :
    (List.range n).flatMap (binSweeps config fs) = fs.drop config.equilibriumSweeps := by
  have hbins : ∀ m, (List.range m).flatMap (binSweeps config fs) =
      (fs.drop config.equilibriumSweeps).take (m * config.sweepsPerBin) := by
    intro m
    induction m with
    | zero => simp
    | succ m ih =>
        rw [List.range_succ, List.flatMap_append, ih, List.flatMap_singleton, binSweeps,
          ← List.drop_drop, ← List.take_add, Nat.succ_mul]
  rw [hbins, List.take_of_length_le]
  rw [List.length_drop]
  omega

end BinSweeps

/-! ### The history of a simulation -/

section Run

variable {W σ R : Type}

/-- A simulation of a request keeps the plans of the request and one estimate for each. -/
def Chain.Serves (request : Request W) (c : Chain W σ R) : Prop :=
  c.plans = request.plans ∧ c.Paired

/-- Simulations that serve their requests have the plans of the requests. -/
theorem flatMap_plans_of_serves {requests : List (Request W)} {chains : List (Chain W σ R)}
    (h : List.Forall₂ (fun request c => c.Serves request) requests chains) :
    chains.flatMap Chain.plans = requests.flatMap Request.plans :=
  flatMap_plans_eq (h.imp fun _ _ hserves => hserves.1)

variable [DecidableEq W] [Scalar R]

/-- Where the simulation of a request stands **after `n` bins**: it has swept once for each
sweep of equilibration and of the bins, and the values of each of its plans are the means
over the plan's own samples in each bin. -/
def Sampler.Binned (sampler : Sampler W σ R) (config : RunConfig)
    (results : BinnedResults (BasicPlan W) R) (n : Nat) (request : Request W)
    (c : Chain W σ R) : Prop :=
  ∃ fs, sampler.Sweeps (sampler.start request) fs c.source ∧
    fs.length = config.equilibriumSweeps + n * config.sweepsPerBin ∧
    ∀ i p, request.plans[i]? = some p →
      (results.get? p).getD [] = (List.range n).map (binMean config fs i p)

/-- What one bin does to the simulation of a request and to the values of its plans. -/
theorem Sampler.Binned.record {sampler : Sampler W σ R} {config : RunConfig}
    {results : BinnedResults (BasicPlan W) R} {n : Nat} {request : Request W}
    {c c' : Chain W σ R} {bin : OrderedMap (BasicPlan W) (Complex R)}
    (h : sampler.Binned config results n request c) (hserves : c.Serves request)
    (hnodup : request.plans.Nodup)
    (hc' : Universe.Iterated sampler.simulation config.sweepsPerBin c c')
    (hbin : ∀ p ∈ c'.plans, bin.get? p = c'.recent? p) :
    sampler.Binned config (results.record bin) (n + 1) request c' ∧ c'.Serves request := by
  obtain ⟨fs, hfs, hlength, hvalues⟩ := h
  obtain ⟨hplans, hpaired⟩ := hserves
  obtain ⟨hadvance, hsome⟩ := hc'
  obtain ⟨hplans', hpaired', gs, hlength', hgs, hrecent⟩ :=
    Chain.recent?_of_advance hpaired (hplans ▸ hnodup) hadvance
  refine ⟨⟨fs ++ gs, hfs.append hgs, ?_, ?_⟩, hplans'.trans hplans, hpaired'⟩
  · rw [List.length_append, hlength, hlength', Nat.succ_mul]
    omega
  · intro i p hp
    have hpc : c.plans[i]? = some p := by rwa [hplans]
    have hmem : p ∈ c'.plans := by
      rw [hplans']
      exact List.mem_of_getElem? hpc
    have hmean : bin.get? p = some (binMean config (fs ++ gs) i p n) := by
      have hread := hsome p hmem
      have hmean := hrecent i p hpc
      change (c'.recent? p).isSome at hread
      rw [hmean, RunningEstimate.average?] at hread
      rw [hbin p hmem, hmean, RunningEstimate.average?, binMean,
        binSweeps_append_self hlength hlength']
      split at hread
      · rename_i hpos
        rw [if_pos hpos]
      · simp at hread
    have hbefore : (List.range n).map (binMean config (fs ++ gs) i p) =
        (List.range n).map (binMean config fs i p) := by
      refine List.map_congr_left ?_
      intro b hb
      rw [binMean, binMean, binSweeps_append_of_lt hlength (List.mem_range.mp hb)]
    rw [BinnedResults.get?_record, hmean, Option.getD_some, hvalues i p hp, List.range_succ,
      List.map_append, List.map_singleton, hbefore]

/-- The state of a run **after `n` bins**: every request has its simulation, which stands
where it should, and the results are about the plans of the requests. -/
structure Universe.Recorded (sampler : Sampler W σ R) (config : RunConfig)
    (requests : List (Request W)) (n : Nat) (u : Universe (Chain W σ R))
    (results : BinnedResults (BasicPlan W) R) : Prop where
  simulations : List.Forall₂ (fun request c =>
    sampler.Binned config results n request c ∧ c.Serves request) requests u.simulations
  keys : results.bins.keys = if n = 0 then [] else requests.flatMap Request.plans

namespace Universe.Recorded

variable {sampler : Sampler W σ R} {config : RunConfig} {requests : List (Request W)}

/-- A run is recorded **before its first bin**. -/
theorem zero {u : Universe (Chain W σ R)}
    (hsweeps : ∀ request ∈ requests, request.equilibriumSweeps = config.equilibriumSweeps)
    (h : List.Forall₂ (Met sampler.engine) requests u.simulations) :
    Recorded sampler config requests 0 u BinnedResults.empty := by
  have hcreated := (List.forall₂_and_left _ _).mpr ⟨hsweeps, h⟩
  refine ⟨hcreated.imp ?_, rfl⟩
  rintro request c ⟨hsweeps, hcreate⟩
  obtain ⟨hplans, hpaired, fs, hlength, hfs⟩ := Sampler.create_eq_ok hcreate
  refine ⟨⟨fs, hfs, ?_, ?_⟩, hplans, hpaired⟩
  · rw [hlength, hsweeps, Nat.zero_mul, Nat.add_zero]
  · intro i p _
    rfl

/-- The simulations of a recorded run are ready for an iteration: no plan of theirs is listed
twice, and they have an estimate for each. -/
theorem ready {n : Nat} {u : Universe (Chain W σ R)} {results : BinnedResults (BasicPlan W) R}
    (hnodup : (requests.flatMap Request.plans).Nodup)
    (h : Recorded sampler config requests n u results) :
    List.Forall₂ (fun request c => request.plans.Nodup ∧
      sampler.Binned config results n request c ∧ c.Serves request) requests u.simulations :=
  (List.forall₂_and_left _ _).mpr ⟨(List.nodup_flatMap.mp hnodup).1, h.simulations⟩

/-- **One bin** brings a recorded run to its next bin. -/
theorem record {n : Nat} {u u' : Universe (Chain W σ R)}
    {results : BinnedResults (BasicPlan W) R} {bin : OrderedMap (BasicPlan W) (Complex R)}
    (hnodup : (requests.flatMap Request.plans).Nodup)
    (h : Recorded sampler config requests n u results)
    (hbin : iterate sampler.simulation config.sweepsPerBin u = (u', .ok bin)) :
    Recorded sampler config requests (n + 1) u' (results.record bin) := by
  obtain ⟨hiterated, hkeys, hvalues⟩ := iterate_eq_ok hbin
  -- The simulations keep their plans, so no plan is read from two of them.
  have hserves : List.Forall₂ (fun request c => c.Serves request) requests u'.simulations := by
    refine forall₂_trans h.simulations hiterated ?_
    rintro request c c' ⟨_, hplans, hpaired⟩ ⟨hadvance, _⟩
    obtain ⟨hplans', hpaired'⟩ := Chain.plans_advance sampler config.sweepsPerBin hpaired.reset
    change Chain.advance sampler config.sweepsPerBin c.reset = _ at hadvance
    rw [hadvance] at hplans' hpaired'
    exact ⟨hplans'.trans hplans, hpaired'⟩
  have hplans : u'.simulations.flatMap sampler.simulation.plans =
      requests.flatMap Request.plans :=
    flatMap_plans_of_serves hserves
  rw [hplans] at hkeys hvalues
  have hread : List.Forall₂ (fun c c' =>
      (∀ p ∈ c'.plans, bin.get? p = c'.recent? p) ∧
        Iterated sampler.simulation config.sweepsPerBin c c') u.simulations u'.simulations :=
    ((List.forall₂_and_left _ _).mpr ⟨hvalues hnodup, hiterated.flip⟩).flip
  refine ⟨forall₂_trans (h.ready hnodup) hread ?_, ?_⟩
  · rintro request c c' ⟨hnodup, hbinned, hserves⟩ ⟨hvalue, hc'⟩
    exact hbinned.record hserves hnodup hc' hvalue
  · have hbinKeys : bin.keys = requests.flatMap Request.plans := by
      rw [hkeys, firstSeen_eq_self hnodup]
    rw [BinnedResults.keys_record_of_same hnodup h.keys hbinKeys, if_neg (Nat.succ_ne_zero n)]

/-- **A whole run** that succeeds has recorded all of its bins. -/
theorem recordBins {remaining n : Nat} {u u' : Universe (Chain W σ R)}
    {results results' : BinnedResults (BasicPlan W) R} {log : List (Event W)}
    (hnodup : (requests.flatMap Request.plans).Nodup)
    (h : Recorded sampler config requests n u results)
    (hrun : recordBins sampler.simulation config.bins config.sweepsPerBin remaining u results =
      (log, .ok (u', results'))) :
    Recorded sampler config requests (n + remaining) u' results' :=
  recordBins_invariant (fun _ _ _ _ _ hn hbin => hn.record hnodup hbin) h hrun

/-- After the first bin **every plan** of a request has values. -/
theorem get?_of_mem {n : Nat} {u : Universe (Chain W σ R)}
    {results : BinnedResults (BasicPlan W) R} {request : Request W} {p : BasicPlan W}
    (h : Recorded sampler config requests n u results) (hn : 1 ≤ n)
    (hrequest : request ∈ requests) (hp : p ∈ request.plans) :
    results.get? p = some ((results.get? p).getD []) := by
  have hkey : p ∈ results.bins.keys := by
    rw [h.keys, if_neg (by omega), List.mem_flatMap]
    exact ⟨request, hrequest, hp⟩
  obtain ⟨values, hget⟩ := Option.isSome_iff_exists.mp (OrderedMap.isSome_get?.mpr hkey)
  rw [BinnedResults.get?, hget, Option.getD_some]

/-! ### Success and failure -/

/-- If the sampler never fails and bins are not empty, the next iteration succeeds. -/
theorem exists_iterate {n : Nat} {u : Universe (Chain W σ R)}
    {results : BinnedResults (BasicPlan W) R} (htotal : sampler.Total)
    (hpos : 0 < config.sweepsPerBin) (hnodup : (requests.flatMap Request.plans).Nodup)
    (h : Recorded sampler config requests n u results) :
    ∃ u' bin, iterate sampler.simulation config.sweepsPerBin u = (u', .ok bin) := by
  have hready : ∀ c ∈ u.simulations, c.plans.Nodup ∧ c.Paired := by
    have hserves : List.Forall₂
        (fun c request => (c.plans.Nodup ∧ c.Paired) ∧ c.Serves request)
        u.simulations requests := by
      refine ((h.ready hnodup).imp ?_).flip
      rintro request c ⟨hnodup, _, hplans, hpaired⟩
      exact ⟨⟨hplans ▸ hnodup, hpaired⟩, hplans, hpaired⟩
    exact ((List.forall₂_and_left _ _).mp hserves).1
  have hiterated : ∀ c ∈ u.simulations, ∃ c',
      Iterated sampler.simulation config.sweepsPerBin c c' := by
    intro c hc
    obtain ⟨hplans, hpaired⟩ := hready c hc
    obtain ⟨c', hc'⟩ := Chain.advance_total htotal config.sweepsPerBin c.reset
    obtain ⟨hplans', _, fs, _, _, hrecent⟩ := Chain.recent?_of_advance hpaired hplans hc'
    refine ⟨c', hc', ?_⟩
    intro p hp
    have hpc : p ∈ c.plans := hplans' ▸ hp
    obtain ⟨i, hi⟩ := List.getElem?_of_mem hpc
    change (c'.recent? p).isSome
    rw [hrecent i p hi, RunningEstimate.average?, if_pos hpos, Option.isSome_some]
  obtain ⟨chains, bin, hbin⟩ := iterateFrom_total hiterated OrderedMap.empty
  exact ⟨⟨chains⟩, bin, by simp [iterate, hbin]⟩

/-- If the sampler never fails and bins are not empty, **every bin can be recorded**. -/
theorem exists_recordBins {n : Nat} {u : Universe (Chain W σ R)}
    {results : BinnedResults (BasicPlan W) R} (htotal : sampler.Total)
    (hpos : 0 < config.sweepsPerBin) (hnodup : (requests.flatMap Request.plans).Nodup)
    (h : Recorded sampler config requests n u results) (remaining : Nat) :
    ∃ log u' results',
      Universe.recordBins sampler.simulation config.bins config.sweepsPerBin remaining u results =
        (log, .ok (u', results')) := by
  induction remaining generalizing n u results with
  | zero => exact ⟨[], u, results, rfl⟩
  | succ remaining ih =>
      obtain ⟨v, bin, hbin⟩ := h.exists_iterate htotal hpos hnodup
      obtain ⟨log, u', results', hrest⟩ := ih (h.record hnodup hbin)
      refine ⟨.binComplete (config.bins - remaining) config.bins :: log, u', results', ?_⟩
      simp only [Universe.recordBins, hbin, hrest]

end Universe.Recorded

/-- Without a sweep there is **no estimate** for the first plan of the first simulation. -/
theorem Universe.iterate_zero {sampler : Sampler W σ R} {c : Chain W σ R}
    {rest : List (Chain W σ R)} {p : BasicPlan W} {ps : List (BasicPlan W)}
    (hplans : c.plans = p :: ps) (hnodup : c.plans.Nodup) (hc : c.Paired) :
    (iterate sampler.simulation 0 ⟨c :: rest⟩).2 = .error (.noEstimate p 0) := by
  have hp : c.plans[0]? = some p := by rw [hplans, List.getElem?_cons_zero]
  obtain ⟨e, he⟩ := hc.exists_estimate hp
  have hnone : sampler.simulation.recent? c.reset p = none :=
    Chain.recent?_eq (c := c.reset) hnodup hp (Chain.getElem?_reset he)
  have hread : readEstimates sampler.simulation 0 c.reset c.plans OrderedMap.empty =
      .error (.noEstimate p 0) := by rw [hplans, readEstimates, hnone]
  have hadvance : sampler.simulation.advance 0 (sampler.simulation.reset c) =
      (c.reset, .ok ()) := rfl
  have hkept : sampler.simulation.plans c.reset = c.plans := rfl
  simp only [iterate, iterateFrom, hadvance, Except.bind, hkept, hread]

/-- Bins without sweeps **cannot be recorded**: the first plan has no estimate. -/
theorem Universe.Recorded.recordBins_of_no_sweeps {sampler : Sampler W σ R}
    {config : RunConfig} {request : Request W} {rest : List (Request W)} {p : BasicPlan W}
    {ps : List (BasicPlan W)} {n : Nat} {u : Universe (Chain W σ R)}
    {results : BinnedResults (BasicPlan W) R}
    (h : Recorded sampler config (request :: rest) n u results)
    (hfirst : request.plans = p :: ps) (hnodup : request.plans.Nodup) (remaining : Nat) :
    (Universe.recordBins sampler.simulation config.bins 0 (remaining + 1) u results).2 =
      .error (.noEstimate p 0) := by
  obtain ⟨simulations⟩ := u
  obtain ⟨c, chains, ⟨_, hplans, hpaired⟩, _, rfl⟩ :=
    List.forall₂_cons_left_iff.mp h.simulations
  have hfailed : (iterate sampler.simulation 0 ⟨c :: chains⟩).2 = .error (.noEstimate p 0) :=
    iterate_zero (hplans.trans hfirst) (hplans ▸ hnodup) hpaired
  rw [Universe.recordBins]
  rcases hiterate : iterate sampler.simulation 0 ⟨c :: chains⟩ with ⟨v, outcome⟩
  rw [hiterate] at hfailed
  subst hfailed
  rfl

/-- A run is recorded before its first bin **when it has been built**. -/
theorem Universe.Recorded.of_build [WalkPlan W] {sampler : Sampler W σ R} {config : RunConfig}
    {plans : List (MeasurementPlan W)} {seed : UInt64} {u : Universe (Chain W σ R)}
    (h : (build sampler.engine plans config.equilibriumSweeps seed).outcome = .ok u) :
    Recorded sampler config (requests plans config.equilibriumSweeps seed) 0 u
      BinnedResults.empty :=
  zero (fun _ hrequest => (plans_of_mem_requests hrequest).2.2) (build_eq_ok h)

/-- The first request is for the walk of the first basic plan, and starts with that plan. -/
theorem Universe.requests_eq_cons [WalkPlan W] {plans : List (MeasurementPlan W)}
    {p : BasicPlan W} {others : List (BasicPlan W)} (h : allBasicPlans plans = p :: others)
    (equilibriumSweeps : Nat) (seed : UInt64) :
    ∃ request rest ps, requests plans equilibriumSweeps seed = request :: rest ∧
      request.plans = p :: ps := by
  have hgroups := map_plans_requests plans equilibriumSweeps seed
  rw [h, List.map_cons, firstSeen, List.map_cons] at hgroups
  cases hrequests : requests plans equilibriumSweeps seed with
  | nil => simp [hrequests] at hgroups
  | cons request rest =>
      rw [hrequests, List.map_cons, List.cons.injEq] at hgroups
      refine ⟨request, rest, others.filter (·.walk = p.walk), rfl, ?_⟩
      rw [hgroups.1, List.filter_cons_of_pos (by simp)]

end Run

/-! ### Whole runs -/

/-- A run with bins that have sweeps succeeds if its sampler never fails. -/
theorem calculatePlans_total {W σ R : Type} [DecidableEq W] [WalkPlan W] [Scalar R]
    {sampler : Sampler W σ R} (htotal : sampler.Total) (plans : List (MeasurementPlan W))
    {config : RunConfig} (hpos : 1 ≤ config.sweepsPerBin) (entropy : UInt64) :
    ∃ results, (calculatePlans sampler.engine plans config entropy).2 = .ok results := by
  set requests := Universe.requests plans config.equilibriumSweeps (config.seed.getD entropy)
  have hnodup : (requests.flatMap Request.plans).Nodup :=
    Universe.nodup_requests_plans plans _ _
  obtain ⟨u₀, hbuild⟩ := Universe.build_total
    fun request (_ : request ∈ requests) => Sampler.create_total htotal request
  obtain ⟨log, u, results, hrun⟩ :=
    (Universe.Recorded.of_build hbuild).exists_recordBins htotal hpos hnodup config.bins
  exact ⟨results, calculatePlans_eq_ok.mpr ⟨u₀, u, log, hbuild, hrun⟩⟩

/-- **Binning is exact.** A run that succeeds has recorded for each plan, bin by bin, the mean
over exactly the samples of that bin, whatever the sampler: every simulation has swept once
for each sweep of equilibration and of the bins, the bins together are the sweeps after
equilibration, and the plans with values are the basic plans, each of them asked for once
and on its own walk. Without bins no plan has a value. Bins without sweeps have no estimate
to record, so such a run fails at its first basic plan if its simulations can be created at
all. A run with bins that have sweeps succeeds unless its sampler fails. -/
theorem calculatePlans_bins_exact {W σ R : Type} [DecidableEq W] [WalkPlan W] [Scalar R]
    (sampler : Sampler W σ R) (plans : List (MeasurementPlan W)) (config : RunConfig)
    (entropy : UInt64) :
    (∀ results, (calculatePlans sampler.engine plans config entropy).2 = .ok results →
      ∃ u₀ u log requests,
        requests = Universe.requests plans config.equilibriumSweeps
          (config.seed.getD entropy) ∧
        (requests.flatMap Request.plans).Perm (allBasicPlans plans) ∧
        (∀ request ∈ requests,
          request.plans = (allBasicPlans plans).filter (·.walk = request.walk)) ∧
        (Universe.build sampler.engine plans config.equilibriumSweeps
          (config.seed.getD entropy)).outcome = .ok u₀ ∧
        Universe.recordBins sampler.simulation config.bins config.sweepsPerBin config.bins u₀
          BinnedResults.empty = (log, .ok (u, results)) ∧
        results.bins.keys =
          (if config.bins = 0 then [] else requests.flatMap Request.plans) ∧
        (1 ≤ config.bins → ∀ p, p ∈ results.bins.keys ↔ ∃ plan ∈ plans, p ∈ plan.basicPlans) ∧
        List.Forall₂ (fun request c => ∃ fs,
          sampler.Sweeps (sampler.start request) fs c.source ∧
          fs.length = config.equilibriumSweeps + config.bins * config.sweepsPerBin ∧
          (List.range config.bins).flatMap (binSweeps config fs) =
            fs.drop config.equilibriumSweeps ∧
          ∀ i p, request.plans[i]? = some p → 1 ≤ config.bins →
            results.get? p = some ((List.range config.bins).map (binMean config fs i p)))
          requests u.simulations) ∧
    (config.sweepsPerBin = 0 → 1 ≤ config.bins →
      ∀ p others, allBasicPlans plans = p :: others →
        (calculatePlans sampler.engine plans config entropy).2 =
          match (Universe.build sampler.engine plans config.equilibriumSweeps
            (config.seed.getD entropy)).outcome with
          | .ok _ => .error (.noEstimate p 0)
          | .error reason => .error reason) ∧
    (sampler.Total → 1 ≤ config.sweepsPerBin →
      ∃ results, (calculatePlans sampler.engine plans config entropy).2 = .ok results) := by
  set seed := config.seed.getD entropy
  set requests := Universe.requests plans config.equilibriumSweeps seed with hrequests
  have hperm : (requests.flatMap Request.plans).Perm (allBasicPlans plans) :=
    Universe.requests_plans_perm plans config.equilibriumSweeps seed
  have hnodup : (requests.flatMap Request.plans).Nodup :=
    hperm.nodup_iff.mpr (nodup_allBasicPlans plans)
  refine ⟨?recorded, ?empty, ?succeeds⟩
  case recorded =>
    intro results hresults
    obtain ⟨u₀, u, log, hbuild, hrun⟩ := calculatePlans_eq_ok.mp hresults
    have hall := (Universe.Recorded.of_build hbuild).recordBins hnodup hrun
    rw [Nat.zero_add] at hall
    refine ⟨u₀, u, log, requests, hrequests, hperm,
      fun _ hrequest => (Universe.plans_of_mem_requests hrequest).1, hbuild, hrun, hall.keys,
      ?_, ?_⟩
    · intro hbins p
      rw [hall.keys, if_neg (by omega), hrequests, Universe.mem_flatMap_plans_requests]
    · refine (forall₂_and_mem hall.simulations).imp ?_
      rintro request c ⟨hrequest, ⟨fs, hfs, hlength, hvalues⟩, _⟩
      refine ⟨fs, hfs, hlength, flatMap_binSweeps hlength, ?_⟩
      intro i p hp hbins
      rw [hall.get?_of_mem hbins hrequest (List.mem_of_getElem? hp), hvalues i p hp]
  case empty =>
    intro hzero hbins p others hplans
    rw [outcome_calculatePlans]
    rcases hbuild : (Universe.build sampler.engine plans config.equilibriumSweeps seed).outcome
      with reason | u
    · rfl
    · obtain ⟨request, rest, ps, hcons, hfirst⟩ :=
        Universe.requests_eq_cons hplans config.equilibriumSweeps seed
      have hall := Universe.Recorded.of_build hbuild
      have hfirst_nodup : request.plans.Nodup :=
        (List.nodup_flatMap.mp hnodup).1 request (by rw [hrequests, hcons]; simp)
      rw [hcons] at hall
      obtain ⟨bins, hbins⟩ := Nat.exists_eq_succ_of_ne_zero (by omega : config.bins ≠ 0)
      have hfailed := hall.recordBins_of_no_sweeps hfirst hfirst_nodup bins
      rw [← Nat.succ_eq_add_one, ← hbins] at hfailed
      simp only [bind, Except.bind, hzero]
      change (Universe.recordBins sampler.simulation config.bins 0 config.bins u
        BinnedResults.empty).2.map Prod.snd = _
      rw [hfailed]
      rfl
  case succeeds => exact fun htotal hpos => calculatePlans_total htotal plans hpos entropy

/-! ### A run on two walks -/

/-- The synthetic sampler that is not told to fail **never fails**. -/
theorem Synthetic.total_sampler (random : Bool) :
    (sampler (W := W) ⟨random, none⟩).Total :=
  fun _ => ⟨_, rfl⟩

/-- A wavefunction as a walk over its own configurations. -/
instance Wavefunction.walkPlan : WalkPlan Wavefunction where
  wavefunction := id
  describe w := toString w.species ++ " species"

/-- The density of the first species on a site of a line. -/
def lineDensity (x : Int) : BasicOperator :=
  ⟨[Hop.density (Site.ofCell [x]) 0], none, by simp, by simp, by simp⟩

/-- A line of two sites with a number of species. -/
def twoSites (species : Nat) : Wavefunction :=
  ⟨⟨[2], 1⟩, species⟩

/-- Plans that measure one density on two walks and another one on the first alone. -/
def sharedDensity : List (MeasurementPlan Wavefunction) :=
  [⟨twoSites 1, .basic (lineDensity 0)⟩, ⟨twoSites 2, .basic (lineDensity 0)⟩,
    ⟨twoSites 1, .basic (lineDensity 1)⟩]

/-- A run of three bins gives values to the three plans. Those of the second plan of the first walk
are the means of three bins among the fourteen sweeps of that walk. Without sweeps in its bins the
run fails at its first plan. -/
theorem calculatePlans_bins_exact_sharedDensity :
    (∃ results : BinnedResults (BasicPlan Wavefunction) Float,
      (calculatePlans (Synthetic.sampler ⟨true, none⟩).engine sharedDensity ⟨2, 3, 4, some 5⟩ 0).2 =
          .ok results ∧
        (∀ p, p ∈ results.bins.keys ↔ p ∈ [⟨twoSites 1, lineDensity 0⟩,
          ⟨twoSites 2, lineDensity 0⟩, ⟨twoSites 1, lineDensity 1⟩]) ∧
        ∃ fs last, (Synthetic.sampler ⟨true, none⟩).Sweeps ⟨.ofSeed 5 0, 0, 0, 0⟩ fs last ∧
          fs.length = 14 ∧
          results.get? ⟨twoSites 1, lineDensity 1⟩ = some ([0, 1, 2].map
            (binMean ⟨2, 3, 4, some 5⟩ fs 1 ⟨twoSites 1, lineDensity 1⟩))) ∧
    (calculatePlans (Synthetic.sampler ⟨true, none⟩).engine sharedDensity ⟨2, 3, 0, some 5⟩ 0).2 =
      .error (.noEstimate ⟨twoSites 1, lineDensity 0⟩ 0) := by
  set sampler := Synthetic.sampler (W := Wavefunction) ⟨true, none⟩
  have htotal : sampler.Total := Synthetic.total_sampler true
  obtain ⟨recorded, -, succeeds⟩ :=
    calculatePlans_bins_exact sampler sharedDensity ⟨2, 3, 4, some 5⟩ 0
  obtain ⟨-, empty, -⟩ := calculatePlans_bins_exact sampler sharedDensity ⟨2, 3, 0, some 5⟩ 0
  have hplans : allBasicPlans sharedDensity = [⟨twoSites 1, lineDensity 0⟩,
    ⟨twoSites 2, lineDensity 0⟩, ⟨twoSites 1, lineDensity 1⟩] := by decide
  refine ⟨?bins, ?noSweeps⟩
  case bins =>
    obtain ⟨results, hresults⟩ := succeeds htotal (by decide)
    obtain ⟨_, _, _, _, rfl, -, -, -, -, -, hkeys, hsimulations⟩ := recorded results hresults
    have hfirst : (Universe.requests sharedDensity 2 5)[0]? = some {
        walk := twoSites 1
        lattice := (twoSites 1).lattice
        plans := [⟨twoSites 1, lineDensity 0⟩, ⟨twoSites 1, lineDensity 1⟩]
        equilibriumSweeps := 2
        stream := .ofSeed 5 0 } := by
      rw [Universe.getElem?_requests]
      rfl
    obtain ⟨c, -, fs, hfs, hlength, -, hvalues⟩ := exists_getElem?_of_forall₂ hsimulations hfirst
    refine ⟨results, hresults, fun p => ?_, fs, c.source, hfs, hlength,
      hvalues 1 _ rfl (by decide)⟩
    rw [hkeys (by decide), ← mem_allBasicPlans, hplans]
  case noSweeps =>
    obtain ⟨u, hbuild⟩ := Universe.build_total
      fun request (_ : request ∈ Universe.requests sharedDensity 2 5) =>
        Sampler.create_total htotal request
    rw [empty rfl (by decide) _ _ hplans]
    simp only [Option.getD_some, hbuild]

end LatticeObservables
