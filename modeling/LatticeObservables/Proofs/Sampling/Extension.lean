import LatticeObservables.Proofs.Sampling.Freshness

/-!
# Adding Plans to a Run

Plans that are added behind others do not change what is recorded for those. The walks that are
there already keep their numbers, so their simulations are asked for with the streams they had;
the plans that are there already keep their places in their groups; and what a simulation
estimates for a plan depends on its stream, on the plan and on its place, but not on the plans
around it (`Engine.Positional`).

## Main statements

* `Universe.getElem?_requests_append`: a request keeps its number and all of its data, and its
  plans stay in front.
* `Engine.Accumulates.positional`: simulations that draw without regard to their plans are
  positional.
* `Universe.Replayed.record`: what a run has recorded is what each simulation estimates when it is
  run alone.
* `calculatePlans_append_unchanged`: two runs, one with plans behind those of the other.
-/

namespace LatticeObservables

variable {W S R : Type}

/-! ### Simulations on their own -/

/-- One **round** of a simulation: a reset and an advance that succeeds. -/
def Simulation.round (model : Simulation W S R) (sweeps : Nat) (s : S) :
    Except (SimulationError W) S :=
  (model.advance sweeps (model.reset s)).2.map fun _ =>
    (model.advance sweeps (model.reset s)).1

/-- A round succeeds exactly when its advance does. -/
theorem Simulation.round_eq_ok {model : Simulation W S R} {sweeps : Nat} {s s' : S} :
    model.round sweeps s = .ok s' ↔ model.advance sweeps (model.reset s) = (s', .ok ()) := by
  rw [round]
  rcases model.advance sweeps (model.reset s) with ⟨t, e | _⟩ <;> simp [Except.map]

namespace Engine

/-- The simulation of a request **after a number of rounds**, each with its own number of
sweeps. -/
def replay (engine : Engine W S R) (request : Request W) (rounds : List Nat) :
    Except (SimulationError W) S :=
  engine.create request >>= fun s => rounds.foldlM (fun s sweeps => engine.round sweeps s) s

/-- The last round is made with the simulation after the rounds before it. -/
theorem replay_concat_eq_ok {engine : Engine W S R} {request : Request W} {rounds : List Nat}
    {sweeps : Nat} {s : S} :
    engine.replay request (rounds ++ [sweeps]) = .ok s ↔
      ∃ t, engine.replay request rounds = .ok t ∧
        engine.advance sweeps (engine.reset t) = (s, .ok ()) := by
  simp only [replay, bind_eq_ok, List.foldlM_append, List.foldlM_cons, List.foldlM_nil,
    ← Simulation.round_eq_ok]
  constructor
  · rintro ⟨s₀, hcreate, t, ht, s', hs', hs⟩
    obtain rfl := Except.ok.inj hs
    exact ⟨t, ⟨s₀, hcreate, ht⟩, hs'⟩
  · rintro ⟨t, ⟨s₀, hcreate, ht⟩, hs⟩
    exact ⟨s₀, hcreate, t, ht, s, hs, rfl⟩

/-- A simulation that is replayed is in a state that it **can be in**. -/
theorem reaches_of_replay {engine : Engine W S R} {request : Request W} {rounds : List Nat} {s : S}
    (h : engine.replay request rounds = .ok s) : engine.Reaches request s := by
  induction rounds using List.reverseRecOn generalizing s with
  | nil =>
      obtain ⟨s₀, hcreate, hs⟩ := bind_eq_ok.mp h
      obtain rfl := Except.ok.inj hs
      exact .create hcreate
  | append_singleton rounds sweeps ih =>
      obtain ⟨t, ht, hadvance⟩ := replay_concat_eq_ok.mp h
      have hnext := (ih ht).reset.advance sweeps
      rwa [hadvance] at hnext

/-- An engine whose simulations are **positional**: of two that were asked for with the same data
but for the plans, and that went through the same rounds, both estimate the same for a plan that
both have at the same place. -/
def Positional [DecidableEq W] (engine : Engine W S R) : Prop :=
  ∀ {request : Request W} {plans : List (BasicPlan W)} {rounds : List Nat} {sweeps : Nat} {s t : S},
    engine.replay request (rounds ++ [sweeps]) = .ok s →
      engine.replay { request with plans := plans } (rounds ++ [sweeps]) = .ok t →
        request.plans.Nodup → plans.Nodup → ∀ (i : Nat) p, request.plans[i]? = some p →
          plans[i]? = some p → engine.recent? s p = engine.recent? t p

/-- An engine whose simulations **draw without regard to their plans**: what they draw from
starts, changes and gives samples in the same way, whatever plans were asked for. -/
structure DrawsApart {σ : Type} (engine : Engine W S R) (source : S → σ)
    (taken : Nat → S → List (Sweep W R)) : Prop where
  create : ∀ {request : Request W} {plans s t}, engine.create request = .ok s →
    engine.create { request with plans := plans } = .ok t → source s = source t
  reset : ∀ {s t}, source s = source t → source (engine.reset s) = source (engine.reset t)
  advance : ∀ {s t} n, source s = source t →
    source (engine.advance n s).1 = source (engine.advance n t).1
  taken : ∀ {s t} n, source s = source t → taken n s = taken n t

/-- After the same rounds there is the same to draw from. -/
theorem DrawsApart.source_eq_of_replay {σ : Type} {engine : Engine W S R} {source : S → σ}
    {taken : Nat → S → List (Sweep W R)} (h : engine.DrawsApart source taken)
    {request : Request W} {plans : List (BasicPlan W)} {rounds : List Nat} {s t : S}
    (hs : engine.replay request rounds = .ok s)
    (ht : engine.replay { request with plans := plans } rounds = .ok t) : source s = source t := by
  induction rounds using List.reverseRecOn generalizing s t with
  | nil =>
      obtain ⟨s₀, hs₀, hs⟩ := bind_eq_ok.mp hs
      obtain ⟨t₀, ht₀, ht⟩ := bind_eq_ok.mp ht
      obtain rfl := Except.ok.inj hs
      obtain rfl := Except.ok.inj ht
      exact h.create hs₀ ht₀
  | append_singleton rounds sweeps ih =>
      obtain ⟨s₁, hs₁, hs⟩ := replay_concat_eq_ok.mp hs
      obtain ⟨t₁, ht₁, ht⟩ := replay_concat_eq_ok.mp ht
      have hnext := h.advance sweeps (h.reset (ih hs₁ ht₁))
      rwa [hs, ht] at hnext

/-- Simulations that accumulate samples and **draw without regard to their plans** are
positional. -/
theorem Accumulates.positional {σ : Type} [DecidableEq W] [Scalar R] {engine : Engine W S R}
    {kept : S → List (RunningEstimate R)} {source : S → σ} {taken : Nat → S → List (Sweep W R)}
    (h : engine.Accumulates kept taken) (hdraws : engine.DrawsApart source taken) :
    engine.Positional := by
  intro request plans rounds sweeps s t hs ht hnodup hnodup' i p hp hp'
  obtain ⟨s₁, hs₁, hs⟩ := replay_concat_eq_ok.mp hs
  obtain ⟨t₁, ht₁, ht⟩ := replay_concat_eq_ok.mp ht
  have hsource := hdraws.reset (hdraws.source_eq_of_replay hs₁ ht₁)
  have hestimate := h.recent?_of_advance hnodup (reaches_of_replay hs₁) hs hp
  have hestimate' := h.recent?_of_advance hnodup' (reaches_of_replay ht₁) ht hp'
  rw [hestimate, hestimate', hdraws.taken sweeps hsource]

end Engine

/-! ### Samplers -/

namespace Sampler

variable {σ : Type} [Scalar R] {sampler : Sampler W σ R}

/-- What a chain draws from changes in an advance **as if it had no plans**. -/
theorem source_advance (n : Nat) {c d : Chain W σ R} (h : c.source = d.source) :
    (Chain.advance sampler n c).1.source = (Chain.advance sampler n d).1.source := by
  induction n generalizing c d with
  | zero => exact h
  | succ n ih =>
      rw [Chain.advance, Chain.advance, h]
      cases sampler.sweep d.source with
      | error reason => exact h
      | ok next => exact ih rfl

/-- What a chain draws from when it is created is what **equilibration** has left. -/
theorem source_of_create [DecidableEq W] {request : Request W} {c : Chain W σ R}
    (h : sampler.engine.create request = .ok c) :
    c.source =
      (Chain.advance sampler request.equilibriumSweeps (sampler.fresh request)).1.source := by
  rw [create_eq] at h
  cases houtcome : (Chain.advance sampler request.equilibriumSweeps (sampler.fresh request)).2 with
  | error e =>
      rw [houtcome] at h
      cases h
  | ok _ =>
      rw [houtcome] at h
      obtain rfl := Except.ok.inj h
      rfl

/-- A sampler whose start does not depend on the plans **draws without regard to them**. -/
theorem drawsApart_engine [DecidableEq W] (sampler : Sampler W σ R)
    (hstart : ∀ (request : Request W) plans,
      sampler.start { request with plans := plans } = sampler.start request) :
    sampler.engine.DrawsApart Chain.source fun n c => sampler.taken n c.source where
  create := by
    intro request plans c d hc hd
    rw [source_of_create hc, source_of_create hd]
    exact source_advance _ (hstart request plans).symm
  reset := id
  advance := fun n h => source_advance n h
  taken := by
    intro c d n h
    rw [h]

/-- The simulations of a sampler whose start does not depend on the plans are **positional**. -/
theorem positional_engine [DecidableEq W] (sampler : Sampler W σ R)
    (hstart : ∀ (request : Request W) plans,
      sampler.start { request with plans := plans } = sampler.start request) :
    sampler.engine.Positional :=
  sampler.accumulates_engine.positional (sampler.drawsApart_engine hstart)

end Sampler

/-! ### Requests with more plans -/

variable [DecidableEq W]

/-- With plans added behind others, the request with a number is for the **same walk and stream**,
and its plans stay in front. -/
theorem Universe.getElem?_requests_append [WalkPlan W] (plans others : List (MeasurementPlan W))
    {equilibriumSweeps : Nat} {seed : UInt64} {k : Nat} {request : Request W}
    (h : (requests plans equilibriumSweeps seed)[k]? = some request) :
    ∃ more, (requests (plans ++ others) equilibriumSweeps seed)[k]? =
      some { request with plans := request.plans ++ more } := by
  obtain ⟨new, hnew⟩ := allBasicPlans_append plans others
  rw [getElem?_requests, entries_partitionByWalk, List.getElem?_map] at h
  obtain ⟨entry, hentry, rfl⟩ := Option.map_eq_some_iff.mp h
  obtain ⟨w, hw, rfl⟩ := Option.map_eq_some_iff.mp hentry
  have hlt := (List.getElem?_eq_some_iff.mp hw).1
  refine ⟨new.filter (·.walk = w), ?_⟩
  rw [getElem?_requests, entries_partitionByWalk, List.getElem?_map, hnew, List.map_append,
    firstSeen_append, List.getElem?_append_left hlt, hw, Option.map_some, Option.map_some,
    List.filter_append]

/-! ### Runs -/

/-- The state of a run **after `n` bins**, told from each simulation on its own: it is in the state
that it reaches alone after as many rounds, and each value of each of its plans is what it
estimates alone after the round of that bin. -/
structure Universe.Replayed (engine : Engine W S R) (sweeps : Nat) (requests : List (Request W))
    (n : Nat) (u : Universe S) (results : BinnedResults (BasicPlan W) R) : Prop where
  simulations : List.Forall₂
    (fun request s => engine.replay request (List.replicate n sweeps) = .ok s)
    requests u.simulations
  values : ∀ request ∈ requests, ∀ p ∈ request.plans,
    ((results.get? p).getD []).length = n ∧
      ∀ b value, ((results.get? p).getD [])[b]? = some value →
        ∃ s, engine.replay request (List.replicate b sweeps ++ [sweeps]) = .ok s ∧
          engine.recent? s p = some value

namespace Universe.Replayed

variable {engine : Engine W S R} {sweeps : Nat} {requests : List (Request W)}

/-- A run begins with simulations that were **created and not run**. -/
theorem zero {u : Universe S} (h : List.Forall₂ (Met engine) requests u.simulations) :
    Replayed engine sweeps requests 0 u BinnedResults.empty where
  simulations := by
    refine h.imp ?_
    intro request s hcreate
    exact bind_eq_ok.mpr ⟨s, hcreate, rfl⟩
  values := by
    intro request _ p _
    refine ⟨rfl, ?_⟩
    intro b value hvalue
    have hnone : ([] : List (Complex R))[b]? = some value := hvalue
    simp at hnone

/-- **One bin** is one round of each simulation, and its values are estimated after that round. -/
theorem record (hkeeps : engine.KeepsPlans) (hnodup : (requests.flatMap Request.plans).Nodup)
    {n : Nat} {u u' : Universe S} {results : BinnedResults (BasicPlan W) R}
    {bin : OrderedMap (BasicPlan W) (Complex R)} (h : Replayed engine sweeps requests n u results)
    (hbin : iterate engine.toSimulation sweeps u = (u', .ok bin)) :
    Replayed engine sweeps requests (n + 1) u' (results.record bin) := by
  obtain ⟨hiterated, -, hvalues⟩ := iterate_eq_ok hbin
  have hreplayed : List.Forall₂
      (fun request s => engine.replay request (List.replicate n sweeps ++ [sweeps]) = .ok s)
      requests u'.simulations := by
    refine forall₂_trans h.simulations hiterated ?_
    rintro request s s' hs ⟨hadvance, -⟩
    exact Engine.replay_concat_eq_ok.mpr ⟨s, hs, hadvance⟩
  have hplans : u'.simulations.flatMap engine.plans = requests.flatMap Request.plans :=
    flatMap_plans_eq (hreplayed.imp fun _ _ hs => hkeeps _ _ (Engine.reaches_of_replay hs))
  refine ⟨by rwa [List.replicate_succ'], ?_⟩
  intro request hrequest p hp
  obtain ⟨s', hs', hreplay⟩ := exists_of_mem_right hreplayed.flip hrequest
  obtain ⟨s, -, -, hsome⟩ := exists_of_mem_right hiterated hs'
  have hmem : p ∈ engine.plans s' := by
    rwa [hkeeps request s' (Engine.reaches_of_replay hreplay)]
  obtain ⟨value, hvalue⟩ := Option.isSome_iff_exists.mp (hsome p hmem)
  have hread : bin.get? p = some value := (hvalues (hplans ▸ hnodup) s' hs' p hmem).trans hvalue
  obtain ⟨hlength, hbefore⟩ := h.values request hrequest p hp
  rw [BinnedResults.get?_record, hread, Option.getD_some]
  refine ⟨by rw [List.length_append, hlength, List.length_singleton], ?_⟩
  intro b value' hvalue'
  rcases Nat.lt_or_ge b n with hb | hb
  · rw [List.getElem?_append_left (by rwa [hlength])] at hvalue'
    exact hbefore b value' hvalue'
  · -- Behind the values of the bins before there is only that of this bin.
    rw [List.getElem?_append_right (by rwa [hlength]), hlength,
      List.getElem?_singleton] at hvalue'
    split at hvalue'
    next hzero =>
      obtain rfl : b = n := by omega
      obtain rfl := Option.some.inj hvalue'
      exact ⟨s', hreplay, hvalue⟩
    · cases hvalue'

/-- Two runs whose simulations are positional have recorded the **same values** for a plan, if one
asked for its walk with the same data and with more plans behind. -/
theorem values_eq_of_positional (hpositional : engine.Positional) {requests' : List (Request W)}
    {n : Nat} {u u' : Universe S} {results results' : BinnedResults (BasicPlan W) R}
    (h : Replayed engine sweeps requests n u results)
    (h' : Replayed engine sweeps requests' n u' results') {request : Request W}
    {more : List (BasicPlan W)} (hrequest : request ∈ requests)
    (hrequest' : { request with plans := request.plans ++ more } ∈ requests')
    (hnodup : (request.plans ++ more).Nodup) {p : BasicPlan W} (hp : p ∈ request.plans) :
    (results'.get? p).getD [] = (results.get? p).getD [] := by
  obtain ⟨hlength, hvalues⟩ := h.values request hrequest p hp
  obtain ⟨hlength', hvalues'⟩ := h'.values _ hrequest' p (List.mem_append_left more hp)
  refine List.ext_getElem (hlength'.trans hlength.symm) ?_
  intro b hb' hb
  obtain ⟨s, hs, hestimate⟩ := hvalues b _ (List.getElem?_eq_getElem hb)
  obtain ⟨t, ht, hestimate'⟩ := hvalues' b _ (List.getElem?_eq_getElem hb')
  obtain ⟨i, hi⟩ := List.getElem?_of_mem hp
  have hi' : (request.plans ++ more)[i]? = some p := by
    rwa [List.getElem?_append_left (List.getElem?_eq_some_iff.mp hi).1]
  have hsame := hpositional hs ht (hnodup.sublist (List.sublist_append_left _ _)) hnodup i p hi hi'
  rw [hestimate, hestimate'] at hsame
  exact (Option.some.inj hsame).symm

end Universe.Replayed

/-- A run that succeeds has recorded what its simulations estimate **on their own**. -/
theorem replayed_of_calculatePlans [WalkPlan W] {engine : Engine W S R}
    (hkeeps : engine.KeepsPlans) {plans : List (MeasurementPlan W)} {config : RunConfig}
    {entropy : UInt64} {results : BinnedResults (BasicPlan W) R}
    (h : (calculatePlans engine plans config entropy).2 = .ok results) :
    ∃ u, Universe.Replayed engine config.sweepsPerBin
      (Universe.requests plans config.equilibriumSweeps (config.seed.getD entropy))
      config.bins u results :=
  calculatePlans_invariant (fun _ => Universe.Replayed.zero)
    (fun _ _ _ _ _ hn hbin =>
      Universe.Replayed.record hkeeps (Universe.nodup_requests_plans _ _ _) hn hbin) h

/-- **Adding plans never changes earlier results.** Take an engine whose simulations keep the plans
that they were asked for and are positional, and two runs with one configuration, and with the
same entropy if that fixes no seed: one of some plans, and one of these with any plans behind
them. If both succeed, each basic plan of the plans in front has the same values in both, one for
each bin. -/
theorem calculatePlans_append_unchanged [WalkPlan W] {engine : Engine W S R}
    (hkeeps : engine.KeepsPlans) (hpositional : engine.Positional)
    {plans others : List (MeasurementPlan W)} {config : RunConfig} {entropy : UInt64}
    {results extended : BinnedResults (BasicPlan W) R}
    (h : (calculatePlans engine plans config entropy).2 = .ok results)
    (hextended : (calculatePlans engine (plans ++ others) config entropy).2 = .ok extended) :
    ∀ plan ∈ plans, ∀ p ∈ plan.basicPlans,
      extended.get? p = results.get? p ∧
        (1 ≤ config.bins →
          ∃ values, results.get? p = some values ∧ values.length = config.bins) := by
  intro plan hplan p hp
  obtain ⟨u, hmeasured⟩ := measured_of_calculatePlans hkeeps h
  obtain ⟨u', hmeasured'⟩ := measured_of_calculatePlans hkeeps hextended
  rcases Nat.eq_zero_or_pos config.bins with hzero | hpos
  · have hnone : results.get? p = none := OrderedMap.get?_eq_none_iff.mpr (by
      rw [hmeasured.keys, if_pos hzero]
      exact List.not_mem_nil)
    have hnone' : extended.get? p = none := OrderedMap.get?_eq_none_iff.mpr (by
      rw [hmeasured'.keys, if_pos hzero]
      exact List.not_mem_nil)
    exact ⟨hnone'.trans hnone.symm, fun hbins => by omega⟩
  · obtain ⟨values, hget, hlength⟩ :=
      hmeasured.full p ((hmeasured.mem_keys hpos).mpr ⟨plan, hplan, hp⟩)
    obtain ⟨values', hget', -⟩ := hmeasured'.full p
      ((hmeasured'.mem_keys hpos).mpr ⟨plan, List.mem_append_left others hplan, hp⟩)
    obtain ⟨v, hreplayed⟩ := replayed_of_calculatePlans hkeeps h
    obtain ⟨v', hreplayed'⟩ := replayed_of_calculatePlans hkeeps hextended
    -- The walk of the plan is asked for in both runs, and in the longer one with more plans.
    obtain ⟨request, hrequest, hmem⟩ := List.mem_flatMap.mp
      ((Universe.requests_plans_perm plans config.equilibriumSweeps
        (config.seed.getD entropy)).mem_iff.mpr (mem_allBasicPlans.mpr ⟨plan, hplan, hp⟩))
    obtain ⟨k, hk⟩ := List.getElem?_of_mem hrequest
    obtain ⟨more, hmore⟩ := Universe.getElem?_requests_append plans others hk
    have hrequest' := List.mem_of_getElem? hmore
    have hnodup := (List.nodup_flatMap.mp (Universe.nodup_requests_plans (plans ++ others)
      config.equilibriumSweeps (config.seed.getD entropy))).1 _ hrequest'
    have hsame := hreplayed.values_eq_of_positional hpositional hreplayed' hrequest hrequest'
      hnodup hmem
    rw [hget, hget', Option.getD_some, Option.getD_some] at hsame
    exact ⟨by rw [hget, hget', hsame], fun _ => ⟨values, hget, hlength⟩⟩

/-- Plans that repeat an operator, that measure another one on a walk that is there, and that add a
walk. -/
def furtherDensities : List (MeasurementPlan Wavefunction) :=
  [⟨twoSites 2, .basic (lineDensity 0)⟩, ⟨twoSites 2, .basic (lineDensity 1)⟩,
    ⟨twoSites 3, .basic (lineDensity 0)⟩]

/-- Plans of all three kinds leave the random samples of the plans before them as they were. -/
theorem calculatePlans_append_unchanged_sharedDensity :
    ∃ results extended : BinnedResults (BasicPlan Wavefunction) Float,
      (calculatePlans (Synthetic.sampler ⟨true, none⟩).engine sharedDensity ⟨2, 3, 4, some 5⟩ 0).2 =
          .ok results ∧
        (calculatePlans (Synthetic.sampler ⟨true, none⟩).engine
          (sharedDensity ++ furtherDensities) ⟨2, 3, 4, some 5⟩ 0).2 = .ok extended ∧
        extended.get? ⟨twoSites 2, lineDensity 0⟩ = results.get? ⟨twoSites 2, lineDensity 0⟩ ∧
        ∃ values, results.get? ⟨twoSites 2, lineDensity 0⟩ = some values ∧ values.length = 3 := by
  set sampler := Synthetic.sampler (W := Wavefunction) ⟨true, none⟩
  have htotal : sampler.Total := Synthetic.total_sampler true
  have hsweeps : 1 ≤ (RunConfig.mk 2 3 4 (some 5)).sweepsPerBin := by decide
  obtain ⟨results, hresults⟩ := calculatePlans_total htotal sharedDensity hsweeps 0
  obtain ⟨extended, hextended⟩ :=
    calculatePlans_total htotal (sharedDensity ++ furtherDensities) hsweeps 0
  obtain ⟨hsame, hvalues⟩ := calculatePlans_append_unchanged sampler.keepsPlans_engine
    (sampler.positional_engine fun _ _ => rfl) hresults hextended
    ⟨twoSites 2, .basic (lineDensity 0)⟩ (by decide) ⟨twoSites 2, lineDensity 0⟩ (by decide)
  exact ⟨results, extended, hresults, hextended, hsame, hvalues (by decide)⟩

end LatticeObservables
