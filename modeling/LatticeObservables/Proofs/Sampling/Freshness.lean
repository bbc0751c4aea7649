import LatticeObservables.Proofs.Sampling.Coverage

/-!
# Iterating Again After a Failure

An iteration that fails leaves some simulations advanced, one advanced in part and the others
untouched, and the universe can be iterated again. Nothing of what was left is in the estimates
of a later iteration: it resets every simulation before it advances it, and a reset clears the
recent sum and the recent count of every estimate, whatever they were.

This holds for every engine whose simulations keep one running estimate for each plan and add
one sample to each in every sweep (`Engine.Accumulates`), as those of a sampler do
(`Sampler.accumulates_engine`). How an advance fails, and whether a later one recovers, is left
to the engine.

## Main statements

* `Engine.Accumulates.recent?_of_advance`: what is read after a reset and an advance is the mean
  over the samples of that advance.
* `Universe.reaches_after`: no iteration brings a simulation into a state that it cannot be in.
* `Universe.iterations_stay_fresh`: what an iteration returns and leaves behind, after any number
  of iterations before it.
-/

namespace LatticeObservables

variable {W S R : Type}

/-! ### Simulations that accumulate samples -/

/-- An engine whose simulations **accumulate samples**: in every state that it can be in, a
simulation has the plans of its request and keeps one running estimate for each. A reset resets
them all. An advance, completed or not, adds to the estimate at each position the samples that it
takes for the plan there, and one that is completed takes as many as it has sweeps. What is read
for a plan is the recent value of its estimate. -/
structure Engine.Accumulates [Scalar R] (engine : Engine W S R)
    (kept : S → List (RunningEstimate R)) (taken : Nat → S → List (Sweep W R)) : Prop where
  keepsPlans : engine.KeepsPlans
  paired : ∀ {request s}, engine.Reaches request s → (kept s).length = request.plans.length
  reset : ∀ {request s}, engine.Reaches request s →
    kept (engine.reset s) = (kept s).map RunningEstimate.reset
  advance : ∀ {request s}, engine.Reaches request s → ∀ (n i : Nat) p e,
    request.plans[i]? = some p → (kept s)[i]? = some e →
      (kept (engine.advance n s).1)[i]? =
        some (((taken n s).map fun f => f i p).foldl RunningEstimate.add e)
  complete : ∀ {request s}, engine.Reaches request s → ∀ n,
    (engine.advance n s).2 = .ok () → (taken n s).length = n
  read : ∀ {request s}, engine.Reaches request s → request.plans.Nodup → ∀ (i : Nat) p e,
    request.plans[i]? = some p → (kept s)[i]? = some e → engine.recent? s p = e.recent?

/-- An average that exists is the sum divided by the count. -/
theorem RunningEstimate.average?_of_isSome [Scalar R] {sum : Complex R} {count : Nat}
    (h : (average? sum count).isSome) :
    average? sum count = some (sum / (Scalar.ofCount count : R)) := by
  rw [average?] at h ⊢
  split at h
  next hpos => rw [if_pos hpos]
  · simp at h

/-- What is read after a reset and an advance is the **mean over the samples of that advance**,
whatever the estimates were before. -/
theorem Engine.Accumulates.recent?_of_advance [Scalar R] {engine : Engine W S R}
    {kept : S → List (RunningEstimate R)} {taken : Nat → S → List (Sweep W R)}
    (h : engine.Accumulates kept taken) {request : Request W} (hnodup : request.plans.Nodup)
    {s s' : S} (hs : engine.Reaches request s) {n : Nat}
    (hadvance : engine.advance n (engine.reset s) = (s', .ok ())) {i : Nat} {p : BasicPlan W}
    (hp : request.plans[i]? = some p) :
    engine.recent? s' p = RunningEstimate.average?
      (Complex.sum ((taken n (engine.reset s)).map fun f => f i p)) n := by
  have hi : i < (kept s).length := by
    have hlt := (List.getElem?_eq_some_iff.mp hp).1
    rwa [h.paired hs]
  have he : (kept (engine.reset s))[i]? = some ((kept s)[i]).reset := by
    rw [h.reset hs, List.getElem?_map, List.getElem?_eq_getElem hi, Option.map_some]
  have hadded := h.advance hs.reset n i p _ hp he
  have hs' : engine.Reaches request s' := by
    have hnext := hs.reset.advance n
    rwa [hadvance] at hnext
  rw [hadvance] at hadded
  rw [h.read hs' hnodup i p _ hp hadded, RunningEstimate.recent?_foldl_add_reset,
    List.length_map, h.complete hs.reset n (by rw [hadvance])]

/-- A simulation that took part in an iteration has taken **one sample in each sweep**, and
estimates their mean for each of its plans. -/
theorem Engine.Accumulates.recent?_of_iterated [DecidableEq W] [Scalar R] {engine : Engine W S R}
    {kept : S → List (RunningEstimate R)} {taken : Nat → S → List (Sweep W R)}
    (h : engine.Accumulates kept taken) {request : Request W} (hnodup : request.plans.Nodup)
    {s s' : S} (hs : engine.Reaches request s) {n : Nat}
    (hiterated : Universe.Iterated engine.toSimulation n s s') :
    (taken n (engine.reset s)).length = n ∧
      ∀ (i : Nat) p, (engine.plans s')[i]? = some p →
        engine.recent? s' p =
          some (Complex.sum ((taken n (engine.reset s)).map fun f => f i p) /
            (Scalar.ofCount n : R)) := by
  obtain ⟨hadvance, hsome⟩ := hiterated
  have hs' := hs.reset.advance n
  rw [hadvance] at hs'
  refine ⟨h.complete hs.reset n (by rw [hadvance]), ?_⟩
  intro i p hp
  have hestimate := hsome p (List.mem_of_getElem? hp)
  rw [h.keepsPlans request s' hs'] at hp
  rw [h.recent?_of_advance hnodup hs hadvance hp] at hestimate ⊢
  exact RunningEstimate.average?_of_isSome hestimate

/-! ### Samplers -/

namespace Sampler

variable {σ : Type}

/-- The samples that a number of sweeps **take**, up to the first sweep that fails. -/
def taken (sampler : Sampler W σ R) : Nat → σ → List (Sweep W R)
  | 0, _ => []
  | n + 1, s =>
    match sampler.sweep s with
    | .error _ => []
    | .ok (t, f) => f :: taken sampler n t

variable [Scalar R] {sampler : Sampler W σ R}

/-- An advance, **completed or not**, adds to each estimate the samples that it takes. -/
theorem getElem?_estimates_advance (n : Nat) {c : Chain W σ R} {i : Nat} {p : BasicPlan W}
    {e : RunningEstimate R} (hp : c.plans[i]? = some p) (he : c.estimates[i]? = some e) :
    (Chain.advance sampler n c).1.estimates[i]? =
      some (((sampler.taken n c.source).map fun f => f i p).foldl RunningEstimate.add e) := by
  induction n generalizing c e with
  | zero => exact he
  | succ n ih =>
      rw [Chain.advance, taken]
      cases hsweep : sampler.sweep c.source with
      | error reason => exact he
      | ok next =>
          obtain ⟨t, f⟩ := next
          exact ih (c := { c with estimates := c.addSamples f, source := t }) hp
            (Chain.getElem?_addSamples hp he)

/-- An advance that is completed takes one sample in each sweep. -/
theorem length_taken (n : Nat) {c : Chain W σ R} (h : (Chain.advance sampler n c).2 = .ok ()) :
    (sampler.taken n c.source).length = n := by
  induction n generalizing c with
  | zero => rfl
  | succ n ih =>
      rw [Chain.advance] at h
      rw [taken]
      cases hsweep : sampler.sweep c.source with
      | error reason =>
          rw [hsweep] at h
          simp at h
      | ok next =>
          obtain ⟨t, f⟩ := next
          rw [hsweep] at h
          rw [List.length_cons, ih (c := { c with estimates := c.addSamples f, source := t }) h]

/-- The simulations of a **sampler** accumulate the samples of its sweeps. -/
theorem accumulates_engine [DecidableEq W] (sampler : Sampler W σ R) :
    sampler.engine.Accumulates Chain.estimates fun n c => sampler.taken n c.source where
  keepsPlans := sampler.keepsPlans_engine
  paired := by
    intro request c hc
    obtain ⟨hplans, hpaired⟩ := serves_of_reaches hc
    rw [← hplans]
    exact hpaired
  reset := fun _ => rfl
  advance := by
    intro request c hc n i p e hp he
    rw [← (serves_of_reaches hc).1] at hp
    exact getElem?_estimates_advance n hp he
  complete := fun _ n h => length_taken n h
  read := by
    intro request c hc hnodup i p e hp he
    rw [← (serves_of_reaches hc).1] at hnodup hp
    exact Chain.recent?_eq hnodup hp he

end Sampler

/-! ### Estimates of a simulation -/

/-- The estimates of a simulation that lists no plan twice are those of its plans, in their
order. -/
theorem Simulation.entries_estimates [DecidableEq W] {model : Simulation W S R} {s : S}
    (h : (model.plans s).Nodup) :
    (model.estimates s).entries =
      (model.plans s).filterMap fun p => (model.recent? s p).map fun value => (p, value) := by
  refine OrderedMap.entries_ofList (List.Nodup.sublist ?_ h)
  generalize model.plans s = plans
  induction plans with
  | nil => simp
  | cons p rest ih =>
      cases hp : model.recent? s p with
      | none => simpa [hp] using ih.cons p
      | some value => simpa [hp] using ih

/-! ### Iterations in a row -/

namespace Universe

variable [DecidableEq W]

/-- The universe **after a number of iterations**, each with its own number of sweeps. An
iteration that fails leaves a universe behind as well. -/
def after (model : Simulation W S R) (calls : List Nat) (u : Universe S) : Universe S :=
  calls.foldl (fun u sweeps => (iterate model sweeps u).1) u

/-- An iteration, completed or not, leaves every simulation in a state that it **can be in**. -/
theorem reaches_iterate {engine : Engine W S R} {requests : List (Request W)} {u : Universe S}
    (h : List.Forall₂ engine.Reaches requests u.simulations) (sweeps : Nat) :
    List.Forall₂ engine.Reaches requests
      (iterate engine.toSimulation sweeps u).1.simulations := by
  refine forall₂_trans h (iterate_states engine.toSimulation sweeps u) ?_
  rintro request s s' hs (rfl | rfl)
  · exact hs
  · exact hs.reset.advance sweeps

/-- After **any number of iterations**, every simulation is in a state that it can be in. -/
theorem reaches_after {engine : Engine W S R} {requests : List (Request W)} {u : Universe S}
    (h : List.Forall₂ engine.Reaches requests u.simulations) (calls : List Nat) :
    List.Forall₂ engine.Reaches requests (after engine.toSimulation calls u).simulations := by
  induction calls generalizing u with
  | nil => exact h
  | cons sweeps rest ih => exact ih (reaches_iterate h sweeps)

/-- The entries of a map in which **each simulation's plans have what it estimates** are the
estimates of the simulations, one after the other. -/
theorem entries_eq_flatMap_estimates {model : Simulation W S R} {ss : List S}
    {m : OrderedMap (BasicPlan W) (Complex R)} (hnodup : (ss.flatMap model.plans).Nodup)
    (hkeys : m.keys = ss.flatMap model.plans)
    (hvalues : ∀ s ∈ ss, ∀ p ∈ model.plans s, m.get? p = model.recent? s p) :
    m.entries = ss.flatMap fun s => (model.estimates s).entries := by
  rw [OrderedMap.entries_eq_filterMap, hkeys, List.filterMap_flatMap]
  refine List.flatMap_congr ?_
  intro s hs
  rw [Simulation.entries_estimates ((List.nodup_flatMap.mp hnodup).1 s hs)]
  refine List.filterMap_congr ?_
  intro p hp
  rw [hvalues s hs p hp]

variable [Scalar R]

/-- An iteration with sweeps succeeds if every simulation **can be advanced**. -/
theorem exists_iterate_of_advance {engine : Engine W S R} {kept : S → List (RunningEstimate R)}
    {taken : Nat → S → List (Sweep W R)} (h : engine.Accumulates kept taken)
    {requests : List (Request W)} (hnodup : ∀ request ∈ requests, request.plans.Nodup)
    {u : Universe S} (hu : List.Forall₂ engine.Reaches requests u.simulations) {sweeps : Nat}
    (hpos : 0 < sweeps)
    (hadvance : ∀ s ∈ u.simulations, (engine.advance sweeps (engine.reset s)).2 = .ok ()) :
    ∃ u' bin, iterate engine.toSimulation sweeps u = (u', .ok bin) := by
  have hiterated : ∀ s ∈ u.simulations, ∃ s', Iterated engine.toSimulation sweeps s s' := by
    intro s hs
    obtain ⟨request, hrequest, hreaches⟩ := exists_of_mem_right hu hs
    have hadvanced : engine.advance sweeps (engine.reset s) =
        ((engine.advance sweeps (engine.reset s)).1, .ok ()) := by rw [← hadvance s hs]
    refine ⟨_, hadvanced, ?_⟩
    intro p hp
    rw [h.keepsPlans request _ (hreaches.reset.advance sweeps)] at hp
    obtain ⟨i, hi⟩ := List.getElem?_of_mem hp
    rw [h.recent?_of_advance (hnodup request hrequest) hreaches hadvanced hi,
      RunningEstimate.average?, if_pos hpos, Option.isSome_some]
  obtain ⟨ss', bin, hbin⟩ := iterateFrom_total hiterated OrderedMap.empty
  exact ⟨⟨ss'⟩, bin, by simp [iterate, hbin]⟩

variable [WalkPlan W]

/-- **Iterations stay fresh across failures.** Take a universe that was built by an engine whose
simulations accumulate samples, after any iterations, some of which may have failed. If the next
one succeeds, its map has one entry for each plan of each simulation, and these are the plans
that were asked for. The value of a plan is the mean over exactly the samples that its simulation
took in this iteration, one in each sweep, and the map is the estimates of the simulations, one
after the other. If it fails, its failure is that of the first simulation that failed to advance
or had no estimate; every simulation before that one was reset and advanced by all sweeps, and
every simulation behind it is as it was. -/
theorem iterations_stay_fresh {engine : Engine W S R} {kept : S → List (RunningEstimate R)}
    {taken : Nat → S → List (Sweep W R)} (h : engine.Accumulates kept taken)
    {plans : List (MeasurementPlan W)} {equilibriumSweeps : Nat} {seed : UInt64} {u₀ : Universe S}
    (hbuild : (build engine plans equilibriumSweeps seed).outcome = .ok u₀) (calls : List Nat)
    (sweeps : Nat) :
    (∀ u' bin,
      iterate engine.toSimulation sweeps (after engine.toSimulation calls u₀) = (u', .ok bin) →
      bin.keys = u'.simulations.flatMap engine.plans ∧
        bin.keys.Perm (allBasicPlans plans) ∧
        List.Forall₂ (fun s s' =>
            engine.advance sweeps (engine.reset s) = (s', .ok ()) ∧
              (taken sweeps (engine.reset s)).length = sweeps ∧
              ∀ (i : Nat) p, (engine.plans s')[i]? = some p →
                bin.get? p =
                  some (Complex.sum ((taken sweeps (engine.reset s)).map fun f => f i p) /
                    (Scalar.ofCount sweeps : R)))
          (after engine.toSimulation calls u₀).simulations u'.simulations ∧
        bin.entries = u'.simulations.flatMap fun s => (engine.estimates s).entries) ∧
    (∀ u' e,
      iterate engine.toSimulation sweeps (after engine.toSimulation calls u₀) = (u', .error e) →
      ∃ done failed rest done',
        (after engine.toSimulation calls u₀).simulations = done ++ failed :: rest ∧
        List.Forall₂ (Iterated engine.toSimulation sweeps) done done' ∧
        Stopped engine.toSimulation sweeps failed e ∧
        u'.simulations = done' ++ (engine.advance sweeps (engine.reset failed)).1 :: rest) := by
  refine ⟨?succeeds, fun u' e hiterate => iterate_eq_error hiterate⟩
  case succeeds =>
    intro u' bin hiterate
    have hperm := requests_plans_perm plans equilibriumSweeps seed
    have hplansNodup := nodup_requests_plans plans equilibriumSweeps seed
    have hreaches := reaches_after ((build_eq_ok hbuild).imp fun _ _ => .create) calls
    have hreaches' := reaches_iterate hreaches sweeps
    rw [hiterate] at hreaches'
    -- No plan belongs to two simulations, so each has the value that its own one estimates.
    have hplans : u'.simulations.flatMap engine.plans =
        (requests plans equilibriumSweeps seed).flatMap Request.plans :=
      flatMap_plans_eq (hreaches'.imp h.keepsPlans)
    obtain ⟨hiterated, hkeys, hvalues⟩ := iterate_eq_ok hiterate
    rw [hplans, firstSeen_eq_self hplansNodup, ← hplans] at hkeys
    have hnodup : (u'.simulations.flatMap engine.plans).Nodup := hplans ▸ hplansNodup
    refine ⟨hkeys, ?_, ?_, entries_eq_flatMap_estimates hnodup hkeys (hvalues hnodup)⟩
    · rwa [hkeys, hplans]
    · have hread : List.Forall₂ (fun s s' =>
          (∀ p ∈ engine.plans s', bin.get? p = engine.recent? s' p) ∧
            Iterated engine.toSimulation sweeps s s')
          (after engine.toSimulation calls u₀).simulations u'.simulations :=
        ((List.forall₂_and_left _ _).mpr ⟨hvalues hnodup, hiterated.flip⟩).flip
      refine (forall₂_and_mem hread).imp ?_
      rintro s s' ⟨hs, hvalue, hiterated⟩
      obtain ⟨request, hrequest, hreach⟩ := exists_of_mem_right hreaches hs
      obtain ⟨hlength, hmean⟩ := h.recent?_of_iterated
        ((List.nodup_flatMap.mp hplansNodup).1 request hrequest) hreach hiterated
      refine ⟨hiterated.1, hlength, ?_⟩
      intro i p hp
      rw [hvalue p (List.mem_of_getElem? hp), hmean i p hp]

/-- An iteration without sweeps fails, and one with sweeps behind it has fresh estimates. -/
theorem iterations_stay_fresh_sharedDensity :
    ∃ u₀ u₁ u₂ bin,
      (build (Synthetic.sampler ⟨true, none⟩).engine sharedDensity 2 5).outcome = .ok u₀ ∧
      iterate (Synthetic.sampler ⟨true, none⟩).simulation 0 u₀ =
        (u₁, .error (.noEstimate ⟨twoSites 1, lineDensity 0⟩ 0)) ∧
      iterate (Synthetic.sampler ⟨true, none⟩).simulation 3 u₁ = (u₂, .ok bin) ∧
      bin.keys.Perm [⟨twoSites 1, lineDensity 0⟩, ⟨twoSites 2, lineDensity 0⟩,
        ⟨twoSites 1, lineDensity 1⟩] ∧
      bin.entries = u₂.simulations.flatMap fun c =>
        ((Synthetic.sampler ⟨true, none⟩).simulation.estimates c).entries := by
  set sampler := Synthetic.sampler (W := Wavefunction) ⟨true, none⟩
  have htotal : sampler.Total := Synthetic.total_sampler true
  have haccumulates := sampler.accumulates_engine
  obtain ⟨u₀, hbuild⟩ := build_total
    fun request (_ : request ∈ requests sharedDensity 2 5) => Sampler.create_total htotal request
  have hmet := build_eq_ok hbuild
  have hnodup : ∀ request ∈ requests sharedDensity 2 5, request.plans.Nodup :=
    (List.nodup_flatMap.mp (nodup_requests_plans sharedDensity 2 5)).1
  -- The first call has no sweep to estimate from.
  have hfails : (iterate sampler.simulation 0 u₀).2 =
      .error (.noEstimate ⟨twoSites 1, lineDensity 0⟩ 0) := by
    have hplans : allBasicPlans sharedDensity = ⟨twoSites 1, lineDensity 0⟩ ::
      [⟨twoSites 2, lineDensity 0⟩, ⟨twoSites 1, lineDensity 1⟩] := by decide
    obtain ⟨request, rest, ps, hrequests, hfirst⟩ := requests_eq_cons hplans 2 5
    rw [hrequests] at hmet hnodup
    obtain ⟨c, cs, hcreate, -, hsimulations⟩ := List.forall₂_cons_left_iff.mp hmet
    obtain ⟨hkept, hpaired, -⟩ := Sampler.create_eq_ok hcreate
    obtain ⟨simulations⟩ := u₀
    obtain rfl := hsimulations
    exact iterate_zero (hkept.trans hfirst) (hkept ▸ hnodup request List.mem_cons_self) hpaired
  -- The second one meets simulations that can be advanced.
  have hreaches := reaches_after (hmet.imp fun _ _ => .create) [0]
  obtain ⟨u₂, bin, hbin⟩ := exists_iterate_of_advance haccumulates hnodup hreaches
    (by decide : 0 < 3) (fun c _ => by
      obtain ⟨c', hc'⟩ := Chain.advance_total htotal 3 c.reset
      exact congrArg Prod.snd hc')
  obtain ⟨-, hperm, -, hentries⟩ :=
    (iterations_stay_fresh haccumulates hbuild [0] 3).1 u₂ bin hbin
  exact ⟨u₀, _, u₂, bin, hbuild, Prod.ext rfl hfails, hbin, hperm.trans (by decide), hentries⟩

end Universe

end LatticeObservables
