import Mathlib.Data.List.Nodup
import Mathlib.Logic.Function.Iterate
import LatticeObservables.Proofs.Measurement.Partition

/-!
# The Construction of a Universe

There is one simulation for each walk. A construction asks for the simulations of the groups
one after the other, in their order (`Universe.getElem?_requests`). Either it makes every
request and all of them are met, or it ends with the first one that is not. That is so whatever
the factory remembers of the requests (`Universe.createAll_cases`), and therefore no request is
made twice and none beside them.

## Main statements

* `Universe.createAll_cases`: the two ways in which a construction ends.
* `Universe.nodup_streams`: no two simulations draw from one stream.
* `Universe.one_simulation_per_walk`: groups, requests and constructions.
-/

namespace LatticeObservables

variable {W S R F : Type}

/-! ### Streams -/

/-- What the states behind a first one put out, with the state after it in front. -/
theorem map_iterate_range {α β : Type} (step : α → α) (output : α → β) (state : α) (n : Nat) :
    (List.range (n + 1)).map (fun i => output (step^[i + 1] state)) =
      output (step state) :: (List.range n).map fun i => output (step^[i + 1] (step state)) := by
  rw [List.range_succ_eq_map, List.map_cons, List.map_map]
  rfl

/-- The words that a seed is stretched to are put out by the states that **follow the seed**. -/
theorem RandomStream.stretched_eq (n : Nat) (state : UInt64) :
    stretched n state = (List.range n).map fun i => stretchOutput (stretchStep^[i + 1] state) := by
  induction n generalizing state with
  | zero => rfl
  | succ n ih => rw [stretched, ih, map_iterate_range]

/-- Indices are different as words of 64 bits, as long as there are **enough words** for them. -/
theorem nodup_map_toUInt64_range {n : Nat} (h : n ≤ UInt64.size) :
    ((List.range n).map Nat.toUInt64).Nodup := by
  refine List.nodup_range.map_on fun i hi j hj hij => ?_
  rw [List.mem_range] at hi hj
  have hvalues := congrArg UInt64.toNat hij
  rwa [UInt64.toNat_ofNat_of_lt' (Nat.lt_of_lt_of_le hi h),
    UInt64.toNat_ofNat_of_lt' (Nat.lt_of_lt_of_le hj h)] at hvalues

/-! ### Requests in a row -/

/-- A factory **creates** simulations for requests, one request after the other, each in the state
that the request before it has left. -/
inductive Factory.Creates (factory : Factory F W S) : List (Request W) → F → List S → F → Prop
  | nil {state : F} : Creates factory [] state [] state
  | cons {request : Request W} {rest : List (Request W)} {state next last : F} {s : S}
      {simulations : List S} (hs : factory.create request state = (next, .ok s))
      (hrest : Creates factory rest next simulations last) :
      Creates factory (request :: rest) state (s :: simulations) last

/-- A request that is **met**: the engine creates a simulation for it. -/
def Met (engine : Engine W S R) (request : Request W) (s : S) : Prop :=
  engine.create request = .ok s

/-- A record of requests holds **those that were made**, behind what it held before. -/
theorem Engine.creates_recording {engine : Engine W S R} {requests made last : List (Request W)}
    {simulations : List S} (h : engine.recording.Creates requests made simulations last) :
    last = made ++ requests ∧ List.Forall₂ (Met engine) requests simulations := by
  induction h with
  | nil => exact ⟨(List.append_nil _).symm, .nil⟩
  | cons hs hrest ih =>
      obtain ⟨rfl, hcreate⟩ := Prod.mk.inj hs
      obtain ⟨rfl, hmet⟩ := ih
      exact ⟨(List.append_cons ..).symm, .cons hcreate hmet⟩

namespace Universe

/-- A request that is met is followed by the others, **in the state that it has left**. -/
theorem createAll_cons {factory : Factory F W S} {request : Request W} {state next : F} {s : S}
    (hs : factory.create request state = (next, .ok s)) (rest : List (Request W)) :
    createAll factory (request :: rest) state =
      ((createAll factory rest next).1,
        (createAll factory rest next).2.map fun u => ⟨s :: u.simulations⟩) := by
  rw [createAll, hs]

/-- A construction makes **every request**, or it ends with the **first one that is not met**
and has its failure. -/
theorem createAll_cases (factory : Factory F W S) (requests : List (Request W)) (state : F) :
    (∃ simulations last, factory.Creates requests state simulations last ∧
      createAll factory requests state = (last, .ok ⟨simulations⟩)) ∨
    (∃ done failed rest simulations before last e, requests = done ++ failed :: rest ∧
      factory.Creates done state simulations before ∧
      factory.create failed before = (last, .error e) ∧
      createAll factory requests state = (last, .error e)) := by
  induction requests generalizing state with
  | nil => exact .inl ⟨[], state, .nil, rfl⟩
  | cons request rest ih =>
      rcases hs : factory.create request state with ⟨next, e | s⟩
      · refine .inr ⟨[], request, rest, [], state, next, e, rfl, .nil, hs, ?_⟩
        rw [createAll, hs]
      · rcases ih next with ⟨simulations, last, hcreates, hrest⟩ |
          ⟨done, failed, others, simulations, before, last, e, rfl, hcreates, hfailed, hrest⟩
        · refine .inl ⟨s :: simulations, last, .cons hs hcreates, ?_⟩
          rw [createAll_cons hs, hrest]
          rfl
        · refine .inr ⟨request :: done, failed, others, s :: simulations, before, last, e, rfl,
            .cons hs hcreates, hfailed, ?_⟩
          rw [createAll_cons hs, hrest]
          rfl

variable [DecidableEq W] [WalkPlan W]

/-- The construction of an engine **has made** every request, or those up to the first one that is
not met. -/
theorem build_cases (engine : Engine W S R) (plans : List (MeasurementPlan W))
    (equilibriumSweeps : Nat) (seed : UInt64) :
    (∃ simulations, List.Forall₂ (Met engine) (requests plans equilibriumSweeps seed) simulations ∧
      build engine plans equilibriumSweeps seed =
        ⟨requests plans equilibriumSweeps seed, .ok ⟨simulations⟩⟩) ∨
    (∃ done failed rest simulations e,
      requests plans equilibriumSweeps seed = done ++ failed :: rest ∧
      List.Forall₂ (Met engine) done simulations ∧ engine.create failed = .error e ∧
      build engine plans equilibriumSweeps seed = ⟨done ++ [failed], .error e⟩) := by
  rcases createAll_cases engine.recording (requests plans equilibriumSweeps seed) [] with
    ⟨simulations, last, hcreates, hall⟩ |
    ⟨done, failed, rest, simulations, before, last, e, hsplit, hcreates, hfailed, hall⟩
  · obtain ⟨rfl, hmet⟩ := Engine.creates_recording hcreates
    refine .inl ⟨simulations, hmet, ?_⟩
    simp only [build, buildWith, hall, List.nil_append]
  · -- The record holds the request that failed as well.
    obtain ⟨hbefore, hmet⟩ := Engine.creates_recording hcreates
    obtain ⟨rfl, hcreate⟩ := Prod.mk.inj hfailed
    refine .inr ⟨done, failed, rest, simulations, e, hsplit, hmet, hcreate, ?_⟩
    simp only [build, buildWith, hall, hbefore, List.nil_append]

/-- A construction that succeeds has **created a simulation for every request**, in order. -/
theorem build_eq_ok {engine : Engine W S R} {plans : List (MeasurementPlan W)}
    {equilibriumSweeps : Nat} {seed : UInt64} {u : Universe S}
    (h : (build engine plans equilibriumSweeps seed).outcome = .ok u) :
    List.Forall₂ (Met engine) (requests plans equilibriumSweeps seed) u.simulations := by
  rcases build_cases engine plans equilibriumSweeps seed with ⟨simulations, hmet, hall⟩ |
    ⟨_, _, _, _, _, _, _, _, hall⟩
  · rw [hall] at h
    obtain rfl := Except.ok.inj h
    exact hmet
  · rw [hall] at h
    cases h

/-- A construction succeeds if every simulation can be created. -/
theorem build_total {engine : Engine W S R} {plans : List (MeasurementPlan W)}
    {equilibriumSweeps : Nat} {seed : UInt64}
    (h : ∀ request ∈ requests plans equilibriumSweeps seed, ∃ s, engine.create request = .ok s) :
    ∃ u, (build engine plans equilibriumSweeps seed).outcome = .ok u := by
  rcases build_cases engine plans equilibriumSweeps seed with ⟨simulations, _, hall⟩ |
    ⟨done, failed, rest, _, e, hsplit, _, hfailed, _⟩
  · exact ⟨⟨simulations⟩, by rw [hall]⟩
  · obtain ⟨s, hs⟩ := h failed (by simp [hsplit])
    rw [hfailed] at hs
    cases hs

/-! ### One simulation for each walk -/

/-- The request with the number `k` is for the walk and the group with that number, on the
lattice of the walk and with the **stream of that number**. -/
theorem getElem?_requests (plans : List (MeasurementPlan W)) (equilibriumSweeps : Nat)
    (seed : UInt64) (k : Nat) :
    (requests plans equilibriumSweeps seed)[k]? =
      (partitionByWalk plans).entries[k]?.map fun entry => {
        walk := entry.1
        lattice := (WalkPlan.wavefunction entry.1).lattice
        plans := entry.2
        equilibriumSweeps := equilibriumSweeps
        stream := RandomStream.ofSeed seed k.toUInt64 } := by
  rw [requests, List.getElem?_map, List.getElem?_zipIdx, Option.map_map, Nat.zero_add]
  rfl

/-- **No two simulations draw from one stream**, as long as there are numbers for their streams. -/
theorem nodup_streams (plans : List (MeasurementPlan W)) (equilibriumSweeps : Nat) (seed : UInt64)
    (h : (requests plans equilibriumSweeps seed).length ≤ UInt64.size) :
    ((requests plans equilibriumSweeps seed).map Request.stream).Nodup := by
  -- The numbers alone tell the streams apart: they are the indices of the groups.
  have hnumbers : ((requests plans equilibriumSweeps seed).map Request.stream).map
      RandomStream.number =
        (List.range (requests plans equilibriumSweeps seed).length).map Nat.toUInt64 := by
    calc ((requests plans equilibriumSweeps seed).map Request.stream).map RandomStream.number
        = ((partitionByWalk plans).entries.zipIdx.map Prod.snd).map Nat.toUInt64 := by
          rw [requests, List.map_map, List.map_map, List.map_map]
          rfl
      _ = (List.range (requests plans equilibriumSweeps seed).length).map Nat.toUInt64 := by
          rw [List.zipIdx_map_snd, requests, List.length_map, List.length_zipIdx,
            List.range_eq_range']
  exact .of_map RandomStream.number (hnumbers ▸ nodup_map_toUInt64_range h)

/-- **One simulation for each walk, with exactly its own plans.** The walks of a partition are
those of the basic plans, in first-seen order. A group is not empty and lists the basic plans of
its walk, each of them once, in first-seen order; every basic plan of every plan is in exactly
one group, so the order of the plans and repetitions among them do not matter for the groups as
sets. A construction asks for the groups in their order, each on the lattice of its walk, with
the number of sweeps that is given for equilibration and with the stream that has the number of
the group and the key of the seed, at its beginning; different groups have different streams.
Whatever the factory is and remembers, every request is made once, in the state that the one
before it has left, if all of them are met; otherwise the construction ends with the first one that
is not and has its failure. Of an engine it is known which requests these were. -/
theorem one_simulation_per_walk (engine : Engine W S R) (plans : List (MeasurementPlan W))
    (equilibriumSweeps : Nat) (seed : UInt64) :
    SeenOrder (partitionByWalk plans).keys
      ((plans.flatMap MeasurementPlan.basicPlans).map BasicPlan.walk) ∧
    (∀ walk group, (walk, group) ∈ (partitionByWalk plans).entries →
      group ≠ [] ∧ group.Nodup ∧
        SeenOrder group ((plans.flatMap MeasurementPlan.basicPlans).filter (·.walk = walk))) ∧
    (∀ plan ∈ plans, ∀ p ∈ plan.basicPlans,
      ∃! entry, entry ∈ (partitionByWalk plans).entries ∧ p ∈ entry.2) ∧
    (∀ others : List (MeasurementPlan W), (∀ plan, plan ∈ others ↔ plan ∈ plans) →
      (partitionByWalk others).keys.Perm (partitionByWalk plans).keys ∧
        ∀ walk group group', (walk, group) ∈ (partitionByWalk others).entries →
          (walk, group') ∈ (partitionByWalk plans).entries → group.Perm group') ∧
    ∃ requests : List (Request W),
      (∀ k : Nat, requests[k]? = (partitionByWalk plans).entries[k]?.map fun entry => {
        walk := entry.1
        lattice := (WalkPlan.wavefunction entry.1).lattice
        plans := entry.2
        equilibriumSweeps := equilibriumSweeps
        stream := {
          key := RandomStream.keyOfSeed seed
          number := k.toUInt64
          block := 0
          pending := [] } }) ∧
      (RandomStream.keyOfSeed seed = (List.range 8).map fun i =>
        RandomStream.stretchOutput (RandomStream.stretchStep^[i + 1] seed)) ∧
      (requests.length ≤ UInt64.size → (requests.map Request.stream).Nodup) ∧
      (∀ {F T : Type} (factory : Factory F W T) (state : F),
        (∃ simulations last, factory.Creates requests state simulations last ∧
          buildWith factory plans equilibriumSweeps seed state = (last, .ok ⟨simulations⟩)) ∨
        (∃ done failed rest simulations before last e, requests = done ++ failed :: rest ∧
          factory.Creates done state simulations before ∧
          factory.create failed before = (last, .error e) ∧
          buildWith factory plans equilibriumSweeps seed state = (last, .error e))) ∧
      ((∃ simulations, List.Forall₂ (Met engine) requests simulations ∧
          build engine plans equilibriumSweeps seed = ⟨requests, .ok ⟨simulations⟩⟩) ∨
        (∃ done failed rest simulations e, requests = done ++ failed :: rest ∧
          List.Forall₂ (Met engine) done simulations ∧ engine.create failed = .error e ∧
          build engine plans equilibriumSweeps seed = ⟨done ++ [failed], .error e⟩)) := by
  refine ⟨seenOrder_keys_partitionByWalk plans, ?groups, ?unique,
    fun others h => partitionByWalk_perm h, requests plans equilibriumSweeps seed,
    getElem?_requests plans equilibriumSweeps seed, RandomStream.stretched_eq 8 seed,
    nodup_streams plans equilibriumSweeps seed, fun factory => createAll_cases factory _,
    build_cases engine plans equilibriumSweeps seed⟩
  case groups =>
    intro walk group hentry
    have order := seenOrder_group hentry
    exact ⟨group_ne_nil hentry, order.nodup, order⟩
  case unique =>
    intro plan hplan p hp
    exact existsUnique_group (mem_allBasicPlans.mpr ⟨plan, hplan, hp⟩)

end Universe

end LatticeObservables
