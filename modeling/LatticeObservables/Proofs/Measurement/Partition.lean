import Mathlib.Data.List.Nodup
import LatticeObservables.Measurement.Plan
import LatticeObservables.Proofs.Collection.OrderedMap
import LatticeObservables.Sampling.Universe

/-!
# The Groups of a Partition

The partition of a list of plans, and the requests made of it, in terms of the basic plans
alone: the walks stand in first-seen order, and the group of a walk is the basic plans of
that walk, in first-seen order (`entries_partitionByWalk`). The groups together are the basic
plans, each of them once (`requests_plans_perm`).
-/

namespace LatticeObservables

variable {W : Type} [DecidableEq W]

/-- The basic plans of a list of plans are those of its members. -/
theorem mem_allBasicPlans {plans : List (MeasurementPlan W)} {p : BasicPlan W} :
    p ∈ allBasicPlans plans ↔ ∃ plan ∈ plans, p ∈ plan.basicPlans := by
  rw [allBasicPlans, mem_firstSeen, List.mem_flatMap]

/-- No basic plan is listed twice. -/
theorem nodup_allBasicPlans (plans : List (MeasurementPlan W)) : (allBasicPlans plans).Nodup :=
  nodup_firstSeen _

/-- Plans behind others **append** their basic plans, those that are new. -/
theorem allBasicPlans_append (plans others : List (MeasurementPlan W)) :
    ∃ more, allBasicPlans (plans ++ others) = allBasicPlans plans ++ more := by
  rw [allBasicPlans, List.flatMap_append, firstSeen_append]
  exact ⟨_, rfl⟩

/-- The walks of the groups are the walks of the basic plans, in first-seen order. -/
theorem keys_partitionByWalk (plans : List (MeasurementPlan W)) :
    (partitionByWalk plans).keys = firstSeen ((allBasicPlans plans).map BasicPlan.walk) := by
  rw [partitionByWalk]
  exact OrderedMap.keys_foldl_update BasicPlan.walk
    (fun p (group : Option (List (BasicPlan W))) => group.getD [] ++ [p]) _ OrderedMap.empty

/-- Collecting the elements of a list one by one gives the list. -/
theorem foldl_collect {α : Type} (l group : List α) :
    l.foldl (fun group a => some (group.getD [] ++ [a])) (some group) = some (group ++ l) := by
  induction l generalizing group with
  | nil => simp
  | cons a rest ih =>
      rw [List.foldl_cons, Option.getD_some, ih, List.append_assoc, List.singleton_append]

/-- The **group** of a walk is the list of its basic plans. -/
theorem get?_partitionByWalk (plans : List (MeasurementPlan W)) {w : W}
    (hw : w ∈ (partitionByWalk plans).keys) :
    (partitionByWalk plans).get? w = some ((allBasicPlans plans).filter (·.walk = w)) := by
  rw [keys_partitionByWalk, mem_firstSeen, List.mem_map] at hw
  obtain ⟨p, hp, hpw⟩ := hw
  have hmem : p ∈ (allBasicPlans plans).filter (·.walk = w) := by
    simp only [List.mem_filter, decide_eq_true_eq]
    exact ⟨hp, hpw⟩
  have hget := OrderedMap.get?_foldl_update BasicPlan.walk
    (fun p (group : Option (List (BasicPlan W))) => group.getD [] ++ [p])
    (allBasicPlans plans) OrderedMap.empty w
  rw [partitionByWalk, hget]
  cases hgroup : (allBasicPlans plans).filter (·.walk = w) with
  | nil =>
      rw [hgroup] at hmem
      exact absurd hmem List.not_mem_nil
  | cons q rest => exact foldl_collect rest [q]

/-- The **groups** of a partition: for each walk in first-seen order, its basic plans in
first-seen order. -/
theorem entries_partitionByWalk (plans : List (MeasurementPlan W)) :
    (partitionByWalk plans).entries =
      (firstSeen ((allBasicPlans plans).map BasicPlan.walk)).map fun w =>
        (w, (allBasicPlans plans).filter (·.walk = w)) := by
  rw [OrderedMap.entries_eq_map fun w hw => get?_partitionByWalk plans hw,
    keys_partitionByWalk]

/-- An entry of a partition is a walk of some basic plan with the basic plans of that walk. -/
theorem mem_entries_partitionByWalk {plans : List (MeasurementPlan W)} {w : W}
    {group : List (BasicPlan W)} :
    (w, group) ∈ (partitionByWalk plans).entries ↔
      (∃ p ∈ allBasicPlans plans, p.walk = w) ∧
        group = (allBasicPlans plans).filter (·.walk = w) := by
  rw [entries_partitionByWalk]
  simp only [List.mem_map, mem_firstSeen, Prod.mk.injEq]
  constructor
  · rintro ⟨_, hp, rfl, rfl⟩
    exact ⟨hp, rfl⟩
  · rintro ⟨hp, rfl⟩
    exact ⟨w, hp, rfl, rfl⟩

/-- The walks of a partition are in first-seen order. -/
theorem seenOrder_keys_partitionByWalk (plans : List (MeasurementPlan W)) :
    SeenOrder (partitionByWalk plans).keys
      ((plans.flatMap MeasurementPlan.basicPlans).map BasicPlan.walk) := by
  rw [keys_partitionByWalk, allBasicPlans, firstSeen_map_firstSeen]
  exact firstSeen_seenOrder _

/-- The plans of a group are the basic plans of its walk, in first-seen order. -/
theorem seenOrder_group {plans : List (MeasurementPlan W)} {w : W} {group : List (BasicPlan W)}
    (h : (w, group) ∈ (partitionByWalk plans).entries) :
    SeenOrder group ((plans.flatMap MeasurementPlan.basicPlans).filter (·.walk = w)) := by
  rw [(mem_entries_partitionByWalk.mp h).2, allBasicPlans, filter_firstSeen]
  exact firstSeen_seenOrder _

/-- A group is not empty. -/
theorem group_ne_nil {plans : List (MeasurementPlan W)} {w : W} {group : List (BasicPlan W)}
    (h : (w, group) ∈ (partitionByWalk plans).entries) : group ≠ [] := by
  obtain ⟨⟨p, hp, rfl⟩, rfl⟩ := mem_entries_partitionByWalk.mp h
  refine List.ne_nil_of_mem (a := p) ?_
  simp only [List.mem_filter, decide_eq_true_eq]
  exact ⟨hp, trivial⟩

/-- A basic plan is in **exactly one group**, that of its walk. -/
theorem existsUnique_group {plans : List (MeasurementPlan W)} {p : BasicPlan W}
    (hp : p ∈ allBasicPlans plans) :
    ∃! entry, entry ∈ (partitionByWalk plans).entries ∧ p ∈ entry.2 := by
  refine ⟨(p.walk, (allBasicPlans plans).filter (·.walk = p.walk)), ⟨?_, ?_⟩, ?_⟩
  · exact mem_entries_partitionByWalk.mpr ⟨⟨p, hp, rfl⟩, rfl⟩
  · simp only [List.mem_filter, decide_eq_true_eq]
    exact ⟨hp, trivial⟩
  · rintro ⟨w, group⟩ ⟨hentry, hmem⟩
    obtain ⟨-, rfl⟩ := mem_entries_partitionByWalk.mp hentry
    simp only [List.mem_filter, decide_eq_true_eq] at hmem
    rw [hmem.2]

/-- The order of plans and repetitions among them do not matter for their basic plans. -/
theorem allBasicPlans_perm {plans others : List (MeasurementPlan W)}
    (h : ∀ plan, plan ∈ others ↔ plan ∈ plans) :
    (allBasicPlans others).Perm (allBasicPlans plans) := by
  rw [List.perm_ext_iff_of_nodup (nodup_allBasicPlans others) (nodup_allBasicPlans plans)]
  intro p
  simp only [mem_allBasicPlans, h]

/-- The order of plans and repetitions among them do not matter for the walks and, **as sets,
for the groups**. -/
theorem partitionByWalk_perm {plans others : List (MeasurementPlan W)}
    (h : ∀ plan, plan ∈ others ↔ plan ∈ plans) :
    (partitionByWalk others).keys.Perm (partitionByWalk plans).keys ∧
      ∀ w group group', (w, group) ∈ (partitionByWalk others).entries →
        (w, group') ∈ (partitionByWalk plans).entries → group.Perm group' := by
  have hperm := allBasicPlans_perm h
  constructor
  · rw [keys_partitionByWalk, keys_partitionByWalk,
      List.perm_ext_iff_of_nodup (nodup_firstSeen _) (nodup_firstSeen _)]
    intro w
    rw [mem_firstSeen, mem_firstSeen]
    exact (hperm.map BasicPlan.walk).mem_iff
  · intro w group group' hgroup hgroup'
    obtain ⟨-, rfl⟩ := mem_entries_partitionByWalk.mp hgroup
    obtain ⟨-, rfl⟩ := mem_entries_partitionByWalk.mp hgroup'
    exact hperm.filter _

/-- Grouping a list without duplicates by a key rearranges it. -/
theorem groups_perm {α β : Type} [DecidableEq β] (key : α → β) {l : List α} (h : l.Nodup) :
    ((firstSeen (l.map key)).flatMap fun b => l.filter (key · = b)).Perm l := by
  have hnodup : ((firstSeen (l.map key)).flatMap fun b => l.filter (key · = b)).Nodup := by
    rw [List.nodup_flatMap]
    refine ⟨fun b _ => h.filter _, ?_⟩
    refine (nodup_firstSeen (l.map key)).imp ?_
    intro b c hbc a hb hc
    simp only [List.mem_filter, decide_eq_true_eq] at hb hc
    exact hbc (hb.2.symm.trans hc.2)
  rw [List.perm_ext_iff_of_nodup hnodup h]
  intro a
  simp only [List.mem_flatMap, mem_firstSeen, List.mem_map, List.mem_filter, decide_eq_true_eq]
  constructor
  · rintro ⟨_, _, ha, _⟩
    exact ha
  · intro ha
    exact ⟨key a, ⟨a, ha, rfl⟩, ha, rfl⟩

namespace Universe

variable [WalkPlan W]

/-- A request asks for the basic plans of its walk, and there are some. -/
theorem plans_of_mem_requests {plans : List (MeasurementPlan W)} {equilibriumSweeps : Nat}
    {seed : UInt64} {request : Request W} (h : request ∈ requests plans equilibriumSweeps seed) :
    request.plans = (allBasicPlans plans).filter (·.walk = request.walk) ∧
      request.plans ≠ [] ∧ request.equilibriumSweeps = equilibriumSweeps := by
  simp only [requests, List.mem_map, Prod.exists] at h
  obtain ⟨walk, group, index, hindex, rfl⟩ := h
  have hentry : (walk, group) ∈ (partitionByWalk plans).entries :=
    List.fst_mem_of_mem_zipIdx hindex
  exact ⟨(mem_entries_partitionByWalk.mp hentry).2, group_ne_nil hentry, rfl⟩

/-- The plans that are asked for, request by request, are the groups. -/
theorem map_plans_requests (plans : List (MeasurementPlan W)) (equilibriumSweeps : Nat)
    (seed : UInt64) :
    (requests plans equilibriumSweeps seed).map Request.plans =
      (firstSeen ((allBasicPlans plans).map BasicPlan.walk)).map fun w =>
        (allBasicPlans plans).filter (·.walk = w) := by
  have hgroups : (requests plans equilibriumSweeps seed).map Request.plans =
      (partitionByWalk plans).entries.map Prod.snd := by
    calc (requests plans equilibriumSweeps seed).map Request.plans
        = ((partitionByWalk plans).entries.zipIdx.map Prod.fst).map Prod.snd := by
          rw [requests, List.map_map, List.map_map]
          rfl
      _ = (partitionByWalk plans).entries.map Prod.snd := by rw [List.zipIdx_map_fst]
  rw [hgroups, entries_partitionByWalk, List.map_map]
  rfl

/-- The requests ask for **every basic plan once**. -/
theorem requests_plans_perm (plans : List (MeasurementPlan W)) (equilibriumSweeps : Nat)
    (seed : UInt64) :
    ((requests plans equilibriumSweeps seed).flatMap Request.plans).Perm
      (allBasicPlans plans) := by
  rw [List.flatMap_def, map_plans_requests, ← List.flatMap_def]
  exact groups_perm BasicPlan.walk (nodup_allBasicPlans plans)

/-- The requests ask for the basic plans of all plans. -/
theorem mem_flatMap_plans_requests {plans : List (MeasurementPlan W)} {equilibriumSweeps : Nat}
    {seed : UInt64} {p : BasicPlan W} :
    p ∈ (requests plans equilibriumSweeps seed).flatMap Request.plans ↔
      ∃ plan ∈ plans, p ∈ plan.basicPlans := by
  rw [(requests_plans_perm plans equilibriumSweeps seed).mem_iff, mem_allBasicPlans]

/-- The requests ask for no plan twice. -/
theorem nodup_requests_plans (plans : List (MeasurementPlan W)) (equilibriumSweeps : Nat)
    (seed : UInt64) : ((requests plans equilibriumSweeps seed).flatMap Request.plans).Nodup :=
  (requests_plans_perm plans equilibriumSweeps seed).nodup_iff.mpr (nodup_allBasicPlans plans)

end Universe

end LatticeObservables
