import LatticeObservables.Proofs.Collection.Related
import LatticeObservables.Proofs.Sampling.Construction
import LatticeObservables.Proofs.Sampling.Iteration

/-!
# Recording Bins

What a run keeps of its bins. A bin appends one value to each of its plans and to no other
(`BinnedResults.get?_record`), and what one bin preserves, all bins of a run do
(`Universe.recordBins_invariant`, `calculatePlans_invariant`). If the simulations of an engine
keep the plans they were created with (`Engine.KeepsPlans`), a run has after `n` bins `n` values
for each plan that was asked for, and for no other (`Universe.Measured`).
-/

namespace LatticeObservables

/-! ### Recording one bin -/

namespace BinnedResults

variable {P R : Type} [DecidableEq P]

/-- A bin appends the plans that are new to it. -/
theorem keys_record (results : BinnedResults P R) (bin : OrderedMap P (Complex R)) :
    (results.record bin).bins.keys = firstSeen (results.bins.keys ++ bin.keys) :=
  OrderedMap.keys_foldl_update Prod.fst
    (fun (e : P × Complex R) values => values.getD [] ++ [e.2]) bin.entries results.bins

/-- A bin of the same plans as the bins before leaves the plans as they are. -/
theorem keys_record_of_same {results : BinnedResults P R} {bin : OrderedMap P (Complex R)}
    {plans : List P} {n : Nat} (hplans : plans.Nodup)
    (hresults : results.bins.keys = if n = 0 then [] else plans) (hbin : bin.keys = plans) :
    (results.record bin).bins.keys = plans := by
  rw [keys_record, hresults, hbin]
  split
  · rw [List.nil_append, firstSeen_eq_self hplans]
  · rw [firstSeen_append_of_subset fun p hp => hp, firstSeen_eq_self hplans]

/-- A bin appends **its value** to the values of a plan, and to no other plan's. -/
theorem get?_record (results : BinnedResults P R) (bin : OrderedMap P (Complex R)) (p : P) :
    (results.record bin).get? p =
      match bin.get? p with
      | none => results.get? p
      | some value => some ((results.get? p).getD [] ++ [value]) := by
  have hget := OrderedMap.get?_foldl_update Prod.fst
    (fun (e : P × Complex R) values => values.getD [] ++ [e.2]) bin.entries results.bins p
  rw [get?, record, hget, OrderedMap.filter_entries]
  cases bin.get? p <;> rfl

/-- Every plan of the results has **a value in each of `n` bins**. -/
def Full (results : BinnedResults P R) (n : Nat) : Prop :=
  ∀ p ∈ results.bins.keys, ∃ values, results.get? p = some values ∧ values.length = n

end BinnedResults

/-! ### Lists of simulations -/

/-- Simulations that have the plans of their requests have them all together too. -/
theorem flatMap_plans_eq {W S : Type} {plans : S → List (BasicPlan W)}
    {requests : List (Request W)} {simulations : List S}
    (h : List.Forall₂ (fun request s => plans s = request.plans) requests simulations) :
    simulations.flatMap plans = requests.flatMap Request.plans := by
  induction h with
  | nil => rfl
  | cons hplans _ ih => rw [List.flatMap_cons, List.flatMap_cons, hplans, ih]

/-! ### Recording all bins -/

/-- What **one iteration and its recording** preserve, from a number of bins to the next, a
whole run preserves. -/
theorem Universe.recordBins_invariant {W S R : Type} [DecidableEq W] {model : Simulation W S R}
    {sweeps : Nat} {invariant : Nat → Universe S → BinnedResults (BasicPlan W) R → Prop}
    (hstep : ∀ n u u' results bin, invariant n u results →
      iterate model sweeps u = (u', .ok bin) → invariant (n + 1) u' (results.record bin))
    {bins remaining n : Nat} {u u' : Universe S} {results results' : BinnedResults (BasicPlan W) R}
    {log : List (Event W)} (h : invariant n u results)
    (hrun : recordBins model bins sweeps remaining u results = (log, .ok (u', results'))) :
    invariant (n + remaining) u' results' := by
  induction remaining generalizing n u results log with
  | zero =>
      simp only [recordBins, Prod.mk.injEq, Except.ok.injEq] at hrun
      obtain ⟨_, rfl, rfl⟩ := hrun
      exact h
  | succ remaining ih =>
      rw [recordBins] at hrun
      split at hrun
      · simp at hrun
      next v bin hbin =>
        simp only [Prod.mk.injEq] at hrun
        obtain ⟨_, hrest⟩ := hrun
        have hall := ih (hstep n u v results bin h hbin) (Prod.ext rfl hrest)
        rw [Nat.add_assoc, Nat.add_comm 1] at hall
        exact hall

/-! ### Engines that keep their plans -/

variable {W S R : Type}

/-- The states that the simulation of a request **can be in**: those that it is created in and
those that it is reset or advanced to. An advance that fails leaves a state as well. -/
inductive Engine.Reaches (engine : Engine W S R) (request : Request W) : S → Prop
  | create {s : S} : engine.create request = .ok s → Reaches engine request s
  | reset {s : S} : Reaches engine request s → Reaches engine request (engine.reset s)
  | advance {s : S} (sweeps : Nat) :
      Reaches engine request s → Reaches engine request (engine.advance sweeps s).1

/-- An engine whose simulations always have **the plans they were created with**. -/
def Engine.KeepsPlans (engine : Engine W S R) : Prop :=
  ∀ request s, engine.Reaches request s → engine.plans s = request.plans

/-- The state of a run **after `n` bins**: every request has its simulation, and each plan that
was asked for has `n` values. -/
structure Universe.Measured [DecidableEq W] (engine : Engine W S R)
    (requests : List (Request W)) (n : Nat) (u : Universe S)
    (results : BinnedResults (BasicPlan W) R) : Prop where
  simulations : List.Forall₂ engine.Reaches requests u.simulations
  keys : results.bins.keys = if n = 0 then [] else requests.flatMap Request.plans
  full : results.Full n

namespace Universe.Measured

variable [DecidableEq W] {engine : Engine W S R} {requests : List (Request W)}

/-- Before its first bin a run has measured nothing. -/
theorem zero {u : Universe S} (h : List.Forall₂ (Met engine) requests u.simulations) :
    Measured engine requests 0 u BinnedResults.empty where
  simulations := h.imp fun _ _ hmet => .create hmet
  keys := rfl
  full := by
    intro p hp
    exact absurd hp List.not_mem_nil

/-- **One bin** gives every plan that was asked for one more value. -/
theorem record {n sweeps : Nat} {u u' : Universe S} {results : BinnedResults (BasicPlan W) R}
    {bin : OrderedMap (BasicPlan W) (Complex R)} (hkeeps : engine.KeepsPlans)
    (hnodup : (requests.flatMap Request.plans).Nodup)
    (h : Measured engine requests n u results)
    (hbin : iterate engine.toSimulation sweeps u = (u', .ok bin)) :
    Measured engine requests (n + 1) u' (results.record bin) := by
  obtain ⟨hiterated, hkeys, -⟩ := iterate_eq_ok hbin
  have hreaches : List.Forall₂ engine.Reaches requests u'.simulations := by
    refine forall₂_trans h.simulations hiterated ?_
    rintro request s s' hs ⟨hadvance, -⟩
    have hnext := hs.reset.advance sweeps
    rwa [hadvance] at hnext
  have hplans : u'.simulations.flatMap engine.plans = requests.flatMap Request.plans :=
    flatMap_plans_eq (hreaches.imp hkeeps)
  have hbinKeys : bin.keys = requests.flatMap Request.plans := by
    rw [hkeys, hplans, firstSeen_eq_self hnodup]
  have hnextKeys := BinnedResults.keys_record_of_same hnodup h.keys hbinKeys
  refine ⟨hreaches, by rw [hnextKeys, if_neg (Nat.succ_ne_zero n)], ?_⟩
  intro p hp
  have hread : p ∈ bin.keys := by rwa [hbinKeys, ← hnextKeys]
  obtain ⟨value, hvalue⟩ := Option.isSome_iff_exists.mp (OrderedMap.isSome_get?.mpr hread)
  refine ⟨(results.get? p).getD [] ++ [value], by rw [BinnedResults.get?_record, hvalue], ?_⟩
  have hbefore : ((results.get? p).getD []).length = n := by
    by_cases hmem : p ∈ results.bins.keys
    · obtain ⟨values, hget, hlength⟩ := h.full p hmem
      rw [hget, Option.getD_some, hlength]
    · -- A plan of the bin that has no values yet is new, which only the first bin can bring.
      have hzero : n = 0 := by
        by_contra hn
        rw [h.keys, if_neg hn, ← hbinKeys] at hmem
        exact hmem hread
      have hget : results.get? p = none := OrderedMap.get?_eq_none_iff.mpr hmem
      rw [hget, hzero]
      rfl
  rw [List.length_append, hbefore, List.length_singleton]

end Universe.Measured

/-- What holds of a universe when it is built, and what every bin preserves, holds after **a run**
that succeeds. -/
theorem calculatePlans_invariant [DecidableEq W] [WalkPlan W] {engine : Engine W S R}
    {plans : List (MeasurementPlan W)} {config : RunConfig} {entropy : UInt64}
    {results : BinnedResults (BasicPlan W) R}
    {invariant : Nat → Universe S → BinnedResults (BasicPlan W) R → Prop}
    (hzero : ∀ u : Universe S, List.Forall₂ (Met engine) (Universe.requests plans
      config.equilibriumSweeps (config.seed.getD entropy)) u.simulations →
        invariant 0 u BinnedResults.empty)
    (hstep : ∀ n u u' results bin, invariant n u results →
      Universe.iterate engine.toSimulation config.sweepsPerBin u = (u', .ok bin) →
        invariant (n + 1) u' (results.record bin))
    (h : (calculatePlans engine plans config entropy).2 = .ok results) :
    ∃ u, invariant config.bins u results := by
  obtain ⟨u₀, u, log, hbuild, hrun⟩ := calculatePlans_eq_ok.mp h
  have hall := Universe.recordBins_invariant hstep (hzero u₀ (Universe.build_eq_ok hbuild)) hrun
  rw [Nat.zero_add] at hall
  exact ⟨u, hall⟩

/-- A run that succeeds has measured **every basic plan in every bin**. -/
theorem measured_of_calculatePlans [DecidableEq W] [WalkPlan W] {engine : Engine W S R}
    (hkeeps : engine.KeepsPlans) {plans : List (MeasurementPlan W)} {config : RunConfig}
    {entropy : UInt64} {results : BinnedResults (BasicPlan W) R}
    (h : (calculatePlans engine plans config entropy).2 = .ok results) :
    ∃ u, Universe.Measured engine
      (Universe.requests plans config.equilibriumSweeps (config.seed.getD entropy))
      config.bins u results :=
  calculatePlans_invariant (fun _ => Universe.Measured.zero)
    (fun _ _ _ _ _ hn hbin =>
      Universe.Measured.record hkeeps (Universe.nodup_requests_plans _ _ _) hn hbin) h

end LatticeObservables
