import Mathlib.Data.List.Forall2
import LatticeObservables.Proofs.Collection.OrderedMap
import LatticeObservables.Proofs.Outcome
import LatticeObservables.Sampling.Universe

/-!
# One Iteration of a Universe

What an iteration has done, for any engine. One that succeeds has reset and advanced every
simulation and read an estimate for each of its plans (`Universe.iterate_eq_ok`); when no
plan belongs to two simulations, the value of a plan is what its own simulation estimates. One
that fails was stopped by the first simulation that it could not advance or read, and has
touched none behind it (`Universe.iterate_eq_error`). A run is a construction followed by its
bins (`outcome_calculatePlans`).
-/

namespace LatticeObservables

namespace Universe

variable {W S R : Type}

/-! ### Iteration -/

variable [DecidableEq W]

/-- Reading that succeeds finds an **estimate for every plan** and puts it into the map. -/
theorem readEstimates_eq_ok {model : Simulation W S R} {sweeps : Nat} {s : S}
    {plans : List (BasicPlan W)} {m m' : OrderedMap (BasicPlan W) (Complex R)}
    (h : readEstimates model sweeps s plans m = .ok m') :
    (∀ p ∈ plans, (model.recent? s p).isSome) ∧
      m'.keys = firstSeen (m.keys ++ plans) ∧
      ∀ k, m'.get? k = if k ∈ plans then model.recent? s k else m.get? k := by
  induction plans generalizing m with
  | nil =>
      simp only [readEstimates, Except.ok.injEq] at h
      subst h
      refine ⟨by simp, ?_, by simp⟩
      rw [List.append_nil]
      exact (firstSeen_eq_self m.nodup).symm
  | cons p rest ih =>
      rw [readEstimates] at h
      split at h
      · simp at h
      next value hvalue =>
        obtain ⟨hsome, hkeys, hget⟩ := ih h
        refine ⟨?_, ?_, ?_⟩
        · rw [List.forall_mem_cons]
          exact ⟨by rw [hvalue, Option.isSome_some], hsome⟩
        · rw [hkeys, OrderedMap.insert, OrderedMap.keys_update_eq_firstSeen,
            firstSeen_firstSeen_append, List.append_assoc, List.singleton_append]
        · intro k
          rw [hget, OrderedMap.insert, OrderedMap.get?_update]
          by_cases hrest : k ∈ rest
          · simp [hrest]
          · by_cases hk : k = p
            · subst hk
              simp [hrest, hvalue]
            · simp [hrest, hk]

/-- Reading succeeds if every plan has an estimate. -/
theorem readEstimates_total {model : Simulation W S R} {s : S} {plans : List (BasicPlan W)}
    (h : ∀ p ∈ plans, (model.recent? s p).isSome) (sweeps : Nat)
    (m : OrderedMap (BasicPlan W) (Complex R)) :
    ∃ m', readEstimates model sweeps s plans m = .ok m' := by
  induction plans generalizing m with
  | nil => exact ⟨m, rfl⟩
  | cons p rest ih =>
      obtain ⟨hp, hrest⟩ := List.forall_mem_cons.mp h
      obtain ⟨value, hvalue⟩ := Option.isSome_iff_exists.mp hp
      obtain ⟨m', hm'⟩ := ih hrest (m.insert p value)
      exact ⟨m', by rw [readEstimates, hvalue]; exact hm'⟩

/-- A simulation that **took part in an iteration**: it was reset and advanced to `s'`, and
each of its plans has an estimate there. -/
def Iterated (model : Simulation W S R) (sweeps : Nat) (s s' : S) : Prop :=
  model.advance sweeps (model.reset s) = (s', .ok ()) ∧
    ∀ p ∈ model.plans s', (model.recent? s' p).isSome

/-- The simulations of an iteration that succeeds were **all reset, advanced and read**. The
keys are their plans in first-seen order, and a plan that belongs to one simulation only has
the value which that simulation estimates. -/
theorem iterateFrom_eq_ok {model : Simulation W S R} {sweeps : Nat} {ss ss' : List S}
    {m m' : OrderedMap (BasicPlan W) (Complex R)}
    (h : iterateFrom model sweeps ss m = (ss', .ok m')) :
    List.Forall₂ (Iterated model sweeps) ss ss' ∧
      m'.keys = firstSeen (m.keys ++ ss'.flatMap model.plans) ∧
      (∀ k, k ∉ ss'.flatMap model.plans → m'.get? k = m.get? k) ∧
      ((ss'.flatMap model.plans).Nodup →
        ∀ s' ∈ ss', ∀ p ∈ model.plans s', m'.get? p = model.recent? s' p) := by
  induction ss generalizing ss' m with
  | nil =>
      simp only [iterateFrom, Prod.mk.injEq, Except.ok.injEq] at h
      obtain ⟨rfl, rfl⟩ := h
      refine ⟨.nil, ?_, by simp, by simp⟩
      rw [List.flatMap_nil, List.append_nil]
      exact (firstSeen_eq_self m.nodup).symm
  | cons s rest ih =>
      rw [iterateFrom] at h
      rcases hadvance : model.advance sweeps (model.reset s) with ⟨t, reason | _⟩
      · simp [hadvance, Except.bind] at h
      · rcases hread : readEstimates model sweeps t (model.plans t) m with reason | n
        · simp [hadvance, hread, Except.bind] at h
        · rcases hothers : iterateFrom model sweeps rest n with ⟨ts, outcome⟩
          simp only [hadvance, Except.bind, hread, hothers, Prod.mk.injEq] at h
          obtain ⟨rfl, rfl⟩ := h
          obtain ⟨hsome, hkeys, hget⟩ := readEstimates_eq_ok hread
          obtain ⟨hrest, hkeys', hkept, hvalues⟩ := ih hothers
          refine ⟨.cons ⟨hadvance, hsome⟩ hrest, ?_, ?_, ?_⟩
          · rw [hkeys', hkeys, firstSeen_firstSeen_append, List.flatMap_cons,
              List.append_assoc]
          · intro k hk
            rw [List.flatMap_cons, List.mem_append, not_or] at hk
            rw [hkept k hk.2, hget, if_neg hk.1]
          · intro hnodup
            rw [List.flatMap_cons, List.nodup_append] at hnodup
            obtain ⟨_, hnodup', hdisjoint⟩ := hnodup
            rw [List.forall_mem_cons]
            refine ⟨?_, hvalues hnodup'⟩
            intro p hp
            -- The simulations behind this one do not have the plan, so they keep its value.
            have hp' : p ∉ ts.flatMap model.plans := fun hmem => hdisjoint p hp p hmem rfl
            rw [hkept p hp', hget, if_pos hp]

/-- What an **iteration that succeeds** has done: all simulations took part in it, its keys are
their plans in first-seen order, and a plan that belongs to one simulation only has the value
which that simulation estimates. -/
theorem iterate_eq_ok {model : Simulation W S R} {sweeps : Nat} {u u' : Universe S}
    {bin : OrderedMap (BasicPlan W) (Complex R)} (h : iterate model sweeps u = (u', .ok bin)) :
    List.Forall₂ (Iterated model sweeps) u.simulations u'.simulations ∧
      bin.keys = firstSeen (u'.simulations.flatMap model.plans) ∧
      ((u'.simulations.flatMap model.plans).Nodup →
        ∀ s' ∈ u'.simulations, ∀ p ∈ model.plans s', bin.get? p = model.recent? s' p) := by
  rcases hiterate : iterateFrom model sweeps u.simulations OrderedMap.empty with ⟨ss', outcome⟩
  simp only [iterate, hiterate, Prod.mk.injEq] at h
  obtain ⟨rfl, rfl⟩ := h
  obtain ⟨hiterated, hkeys, -, hvalues⟩ := iterateFrom_eq_ok hiterate
  exact ⟨hiterated, hkeys, hvalues⟩

/-- An iteration succeeds if every simulation can take part in it. -/
theorem iterateFrom_total {model : Simulation W S R} {sweeps : Nat} {ss : List S}
    (h : ∀ s ∈ ss, ∃ s', Iterated model sweeps s s')
    (m : OrderedMap (BasicPlan W) (Complex R)) :
    ∃ ss' m', iterateFrom model sweeps ss m = (ss', .ok m') := by
  induction ss generalizing m with
  | nil => exact ⟨[], m, rfl⟩
  | cons s rest ih =>
      obtain ⟨⟨t, hadvance, hsome⟩, hrest⟩ := List.forall_mem_cons.mp h
      obtain ⟨n, hn⟩ := readEstimates_total hsome sweeps m
      obtain ⟨ts, m', hm'⟩ := ih hrest n
      refine ⟨t :: ts, m', ?_⟩
      simp [iterateFrom, hadvance, Except.bind, hn, hm']

/-! ### Iterations that fail -/

/-- Reading that fails names the **first plan without an estimate**. -/
theorem readEstimates_eq_error {model : Simulation W S R} {sweeps : Nat} {s : S}
    {plans : List (BasicPlan W)} {m : OrderedMap (BasicPlan W) (Complex R)}
    {e : SimulationError W} (h : readEstimates model sweeps s plans m = .error e) :
    ∃ p, plans.find? (fun p => (model.recent? s p).isNone) = some p ∧
      e = .noEstimate p sweeps := by
  induction plans generalizing m with
  | nil => simp [readEstimates] at h
  | cons p rest ih =>
      rw [readEstimates] at h
      split at h
      next hnone =>
        refine ⟨p, ?_, (Except.error.inj h).symm⟩
        rw [List.find?_cons_of_pos (by rw [hnone, Option.isNone_none])]
      next value hvalue =>
        obtain ⟨q, hq, rfl⟩ := ih h
        refine ⟨q, ?_, rfl⟩
        rwa [List.find?_cons_of_neg (by simp [hvalue])]

/-- A simulation that **stopped an iteration** with a failure: after its reset it either failed
to advance, or it advanced to a state in which some plan is the first without an estimate. -/
inductive Stopped (model : Simulation W S R) (sweeps : Nat) (s : S) : SimulationError W → Prop
  | advance {e : SimulationError W} :
      (model.advance sweeps (model.reset s)).2 = .error e → Stopped model sweeps s e
  | read {s' : S} {p : BasicPlan W} : model.advance sweeps (model.reset s) = (s', .ok ()) →
      (model.plans s').find? (fun p => (model.recent? s' p).isNone) = some p →
        Stopped model sweeps s (.noEstimate p sweeps)

/-- An iteration that fails has been **stopped by the first simulation** that failed to advance
or had no estimate. The ones before it took part, and the ones behind it are untouched. -/
theorem iterateFrom_eq_error {model : Simulation W S R} {sweeps : Nat} {ss ss' : List S}
    {m : OrderedMap (BasicPlan W) (Complex R)} {e : SimulationError W}
    (h : iterateFrom model sweeps ss m = (ss', .error e)) :
    ∃ done failed rest done', ss = done ++ failed :: rest ∧
      List.Forall₂ (Iterated model sweeps) done done' ∧ Stopped model sweeps failed e ∧
      ss' = done' ++ (model.advance sweeps (model.reset failed)).1 :: rest := by
  induction ss generalizing ss' m with
  | nil => simp [iterateFrom] at h
  | cons s rest ih =>
      rw [iterateFrom] at h
      rcases hadvance : model.advance sweeps (model.reset s) with ⟨t, reason | _⟩
      · simp only [hadvance, Except.bind, Prod.mk.injEq, Except.error.injEq] at h
        obtain ⟨rfl, rfl⟩ := h
        exact ⟨[], s, rest, [], rfl, .nil, .advance (by rw [hadvance]), by rw [hadvance]; rfl⟩
      · rcases hread : readEstimates model sweeps t (model.plans t) m with reason | n
        · simp only [hadvance, Except.bind, hread, Prod.mk.injEq, Except.error.injEq] at h
          obtain ⟨rfl, rfl⟩ := h
          obtain ⟨p, hp, rfl⟩ := readEstimates_eq_error hread
          exact ⟨[], s, rest, [], rfl, .nil, .read hadvance hp, by rw [hadvance]; rfl⟩
        · rcases hothers : iterateFrom model sweeps rest n with ⟨ts, outcome⟩
          simp only [hadvance, Except.bind, hread, hothers, Prod.mk.injEq] at h
          obtain ⟨rfl, rfl⟩ := h
          obtain ⟨hsome, -, -⟩ := readEstimates_eq_ok hread
          obtain ⟨done, failed, behind, done', rfl, hdone, hstopped, rfl⟩ := ih hothers
          exact ⟨s :: done, failed, behind, t :: done', rfl, .cons ⟨hadvance, hsome⟩ hdone,
            hstopped, rfl⟩

/-- What an **iteration that fails** has done: the simulations before the one that stopped it
took part, that one was reset and advanced as far as it went, and the ones behind it are
untouched. -/
theorem iterate_eq_error {model : Simulation W S R} {sweeps : Nat} {u u' : Universe S}
    {e : SimulationError W} (h : iterate model sweeps u = (u', .error e)) :
    ∃ done failed rest done', u.simulations = done ++ failed :: rest ∧
      List.Forall₂ (Iterated model sweeps) done done' ∧ Stopped model sweeps failed e ∧
      u'.simulations = done' ++ (model.advance sweeps (model.reset failed)).1 :: rest := by
  rcases hiterate : iterateFrom model sweeps u.simulations OrderedMap.empty with ⟨ss', outcome⟩
  simp only [iterate, hiterate, Prod.mk.injEq] at h
  obtain ⟨rfl, rfl⟩ := h
  exact iterateFrom_eq_error hiterate

/-- An iteration, **completed or not**, leaves each simulation as it was, or reset and advanced
as far as it went. -/
theorem iterate_states (model : Simulation W S R) (sweeps : Nat) (u : Universe S) :
    List.Forall₂ (fun s s' => s' = s ∨ s' = (model.advance sweeps (model.reset s)).1)
      u.simulations (iterate model sweeps u).1.simulations := by
  have hadvanced : ∀ s s', Iterated model sweeps s s' →
      s' = s ∨ s' = (model.advance sweeps (model.reset s)).1 := by
    rintro s s' ⟨hadvance, -⟩
    exact .inr (by rw [hadvance])
  rcases hiterate : iterate model sweeps u with ⟨u', e | bin⟩
  · obtain ⟨done, failed, rest, done', hbefore, hdone, -, hafter⟩ := iterate_eq_error hiterate
    rw [hbefore, hafter]
    exact List.rel_append (hdone.imp hadvanced)
      (.cons (.inr rfl) (List.forall₂_same.mpr fun _ _ => .inl rfl))
  · exact (iterate_eq_ok hiterate).1.imp hadvanced

end Universe

/-! ### Whole runs -/

/-- The outcome of a run is that of its construction followed by that of its bins. -/
theorem outcome_calculatePlans {W S R : Type} [DecidableEq W] [WalkPlan W]
    (engine : Engine W S R) (plans : List (MeasurementPlan W)) (config : RunConfig)
    (entropy : UInt64) :
    (calculatePlans engine plans config entropy).2 =
      (Universe.build engine plans config.equilibriumSweeps
        (config.seed.getD entropy)).outcome >>= fun u =>
          (Universe.recordBins engine.toSimulation config.bins config.sweepsPerBin config.bins u
            BinnedResults.empty).2.map Prod.snd := by
  simp only [calculatePlans]
  rcases (Universe.build engine plans config.equilibriumSweeps
    (config.seed.getD entropy)).outcome with reason | u
  · rfl
  · simp only [bind, Except.bind]
    rcases Universe.recordBins engine.toSimulation config.bins config.sweepsPerBin config.bins u
      BinnedResults.empty with ⟨log, reason | ⟨v, results⟩⟩
    · rfl
    · rfl

/-- A run that succeeds has built a universe and recorded all of its bins. -/
theorem calculatePlans_eq_ok {W S R : Type} [DecidableEq W] [WalkPlan W] {engine : Engine W S R}
    {plans : List (MeasurementPlan W)} {config : RunConfig} {entropy : UInt64}
    {results : BinnedResults (BasicPlan W) R} :
    (calculatePlans engine plans config entropy).2 = .ok results ↔
      ∃ u₀ u log,
        (Universe.build engine plans config.equilibriumSweeps
          (config.seed.getD entropy)).outcome = .ok u₀ ∧
        Universe.recordBins engine.toSimulation config.bins config.sweepsPerBin config.bins u₀
          BinnedResults.empty = (log, .ok (u, results)) := by
  rw [outcome_calculatePlans, bind_eq_ok]
  constructor
  · rintro ⟨u₀, hbuild, hrun⟩
    rcases hbins : Universe.recordBins engine.toSimulation config.bins config.sweepsPerBin
      config.bins u₀ BinnedResults.empty with ⟨log, reason | ⟨u, results'⟩⟩
    · simp [hbins, Except.map] at hrun
    · simp only [hbins, Except.map, Except.ok.injEq] at hrun
      subst hrun
      exact ⟨u₀, u, log, hbuild, hbins⟩
  · rintro ⟨u₀, u, log, hbuild, hbins⟩
    exact ⟨u₀, hbuild, by rw [hbins]; rfl⟩

end LatticeObservables
