import Mathlib.Algebra.GroupWithZero.Nat
import LatticeObservables.Proofs.Sampling.Recording

/-!
# Results as a History

Bins are recorded one after the other, and each may have plans that the others do not have. What is
kept is the whole history: for each plan the values that the bins have for it, in their order
(`BinnedResults.get?_ofHistory`), under the plans in the order in which they were first seen
(`BinnedResults.keys_ofHistory`), and no value besides these (`BinnedResults.stored_ofHistory`).

The latest values and the statistics leave out plans without values. There is no such plan, because
a plan comes with its first value, so neither of them loses one
(`BinnedResults.ofHistory_faithful`).
-/

namespace LatticeObservables

/-- If changing a value adds one to **its weight**, updating a list of entries adds one to the
weight of all of them. -/
theorem OrderedMap.sum_updateEntries {κ ν : Type} [DecidableEq κ] (weight : ν → Nat)
    {f : Option ν → ν} (hnew : weight (f none) = 1)
    (hold : ∀ v, weight (f (some v)) = weight v + 1) (k : κ) (l : List (κ × ν)) :
    ((updateEntries k f l).map fun e => weight e.2).sum = (l.map fun e => weight e.2).sum + 1 := by
  induction l with
  | nil => simp [updateEntries, hnew]
  | cons e rest ih =>
      obtain ⟨j, v⟩ := e
      rw [updateEntries]
      split
      · simp only [List.map_cons, List.sum_cons, hold]
        omega
      · simp only [List.map_cons, List.sum_cons, ih]
        omega

namespace BinnedResults

variable {P R : Type} [DecidableEq P]

/-- The results after **a history of bins**. -/
def ofHistory (history : List (OrderedMap P (Complex R))) : BinnedResults P R :=
  history.foldl record empty

/-- The values that the bins of a history have for a plan, **in the order of the bins**. -/
def given (history : List (OrderedMap P (Complex R))) (p : P) : List (Complex R) :=
  history.filterMap (·.get? p)

/-- The number of values that are **stored** in results. -/
def stored (results : BinnedResults P R) : Nat :=
  (results.bins.entries.map fun e => e.2.length).sum

/-- The last bin of a history is recorded last. -/
theorem ofHistory_append_singleton (history : List (OrderedMap P (Complex R)))
    (bin : OrderedMap P (Complex R)) :
    ofHistory (history ++ [bin]) = (ofHistory history).record bin := by
  rw [ofHistory, List.foldl_append, List.foldl_cons, List.foldl_nil, ofHistory]

/-- A history gives a plan no values exactly if **no bin has the plan**. -/
theorem given_eq_nil_iff {history : List (OrderedMap P (Complex R))} {p : P} :
    given history p = [] ↔ ∀ bin ∈ history, p ∉ bin.keys := by
  simp only [given, List.filterMap_eq_nil_iff, OrderedMap.get?_eq_none_iff]

/-! ### One bin more -/

/-- A bin stores **one value for each of its plans**. -/
theorem stored_record (results : BinnedResults P R) (bin : OrderedMap P (Complex R)) :
    (results.record bin).stored = results.stored + bin.size := by
  have one (m : OrderedMap P (List (Complex R))) (e : P × Complex R) :
      stored ⟨m.update e.1 fun values => values.getD [] ++ [e.2]⟩ = stored ⟨m⟩ + 1 :=
    OrderedMap.sum_updateEntries List.length (by simp) (by simp) e.1 m.entries
  have all (entries : List (P × Complex R)) (m : OrderedMap P (List (Complex R))) :
      stored ⟨entries.foldl (fun m e => m.update e.1 fun values => values.getD [] ++ [e.2]) m⟩ =
        stored ⟨m⟩ + entries.length := by
    induction entries generalizing m with
    | nil => rfl
    | cons e rest ih =>
        rw [List.foldl_cons, ih, one, List.length_cons]
        omega
  exact all bin.entries results.bins

/-! ### All bins -/

/-- The results have **the values that the history gives**, and nothing for a plan that no bin
has. -/
theorem get?_ofHistory (history : List (OrderedMap P (Complex R))) (p : P) :
    (ofHistory history).get? p =
      if given history p = [] then none else some (given history p) := by
  induction history using List.reverseRecOn with
  | nil => rfl
  | append_singleton history bin ih =>
      rw [ofHistory_append_singleton, get?_record]
      cases hbin : bin.get? p with
      | none =>
          have hgiven : given (history ++ [bin]) p = given history p := by
            simp [given, List.filterMap_append, hbin]
          rw [hgiven]
          exact ih
      | some value =>
          have hgiven : given (history ++ [bin]) p = given history p ++ [value] := by
            simp [given, List.filterMap_append, hbin]
          have hbefore : ((ofHistory history).get? p).getD [] = given history p := by
            rw [ih]
            split
            next hnil => exact hnil.symm
            next => rfl
          simp [hgiven, hbefore]

/-- The plans of the results are those of the bins in **first-seen order**. -/
theorem keys_ofHistory (history : List (OrderedMap P (Complex R))) :
    (ofHistory history).bins.keys = firstSeen (history.flatMap OrderedMap.keys) := by
  induction history using List.reverseRecOn with
  | nil => rfl
  | append_singleton history bin ih =>
      rw [ofHistory_append_singleton, keys_record, ih, firstSeen_firstSeen_append,
        List.flatMap_append, List.flatMap_singleton]

/-- The results store **as many values as the bins have entries**. -/
theorem stored_ofHistory (history : List (OrderedMap P (Complex R))) :
    (ofHistory history).stored = (history.map OrderedMap.size).sum := by
  induction history using List.reverseRecOn with
  | nil => rfl
  | append_singleton history bin ih =>
      rw [ofHistory_append_singleton, stored_record, ih, List.map_append, List.sum_append,
        List.map_singleton, List.sum_singleton]

section Found

variable {history : List (OrderedMap P (Complex R))} {p : P} {values : List (Complex R)}

/-- The results have nothing for a plan exactly if **no bin has the plan**. -/
theorem get?_ofHistory_eq_none_iff :
    (ofHistory history).get? p = none ↔ ∀ bin ∈ history, p ∉ bin.keys := by
  rw [← given_eq_nil_iff, get?_ofHistory]
  by_cases hnil : given history p = []
  · simp [hnil]
  · simp [hnil]

/-- What the results have for a plan is **what the history gives**, and never an empty list. -/
theorem get?_ofHistory_eq_some_iff :
    (ofHistory history).get? p = some values ↔ given history p = values ∧ values ≠ [] := by
  rw [get?_ofHistory]
  constructor
  · intro h
    split at h
    next => cases h
    next hne =>
      obtain rfl := Option.some.inj h
      exact ⟨rfl, hne⟩
  · rintro ⟨rfl, hne⟩
    rw [if_neg hne]

end Found

end BinnedResults

/-! ### What is read from the results -/

/-- Bins **have statistics** if there are any, and these know how many there are. -/
theorem BinSummary.exists_ofBins? {R : Type} [Scalar R] {bins : List (Complex R)}
    (h : bins ≠ []) : ∃ summary, ofBins? bins = some summary ∧ summary.bins = bins.length := by
  rw [ofBins?, if_neg (by simpa using h)]
  split
  · exact ⟨_, rfl, rfl⟩
  · exact ⟨_, rfl, rfl⟩

namespace BinnedResults

variable {P R : Type} [DecidableEq P]

/-- **Binned results are a faithful history.** Whatever plans the recorded bins have, the values of
a plan are those of the bins that have it, in the order of these bins, and a plan that no bin has
has no values. The plans are listed once each, in the order in which they were first seen, and never
without values. The latest values and the statistics have the same plans in the same order: the last
of all the values of a plan, and the statistics of all of them, which know how many they are. As
many values are stored as the bins have entries. -/
theorem ofHistory_faithful [Scalar R] (history : List (OrderedMap P (Complex R))) :
    (∀ p, (ofHistory history).get? p = none ↔ ∀ bin ∈ history, p ∉ bin.keys) ∧
    (∀ p values, (ofHistory history).get? p = some values →
      values = history.filterMap (·.get? p)) ∧
    SeenOrder (ofHistory history).bins.keys (history.flatMap OrderedMap.keys) ∧
    (ofHistory history).mostRecent.keys = (ofHistory history).bins.keys ∧
    (ofHistory history).summarize.keys = (ofHistory history).bins.keys ∧
    (∀ p values, (p, values) ∈ (ofHistory history).bins.entries →
      values ≠ [] ∧ (ofHistory history).get? p = some values ∧
      (∃ value, (ofHistory history).mostRecent.get? p = some value ∧
        values.getLast? = some value) ∧
      ∃ summary, (ofHistory history).summarize.get? p = some summary ∧
        BinSummary.ofBins? values = some summary ∧ summary.bins = values.length) ∧
    ((ofHistory history).bins.entries.map fun e => e.2.length).sum =
      (history.map OrderedMap.size).sum := by
  have hgiven {p : P} {values : List (Complex R)} (h : (ofHistory history).get? p = some values) :=
    get?_ofHistory_eq_some_iff.mp h
  have hlatest {p : P} {values : List (Complex R)} (h : (ofHistory history).get? p = some values) :
      ∃ value, values.getLast? = some value :=
    ⟨_, List.getLast?_eq_some_getLast (hgiven h).2⟩
  have hsummary {p : P} {values : List (Complex R)}
      (h : (ofHistory history).get? p = some values) :=
    BinSummary.exists_ofBins? (hgiven h).2
  refine ⟨fun p => get?_ofHistory_eq_none_iff, fun p values h => (hgiven h).1.symm, ?order,
    ?latest, ?statistics, ?entries, stored_ofHistory history⟩
  case order =>
    rw [keys_ofHistory]
    exact firstSeen_seenOrder _
  case latest =>
    refine OrderedMap.keys_filterMapValues fun p values h => ?_
    obtain ⟨value, hvalue⟩ := hlatest h
    rw [hvalue, Option.isSome_some]
  case statistics =>
    refine OrderedMap.keys_filterMapValues fun p values h => ?_
    obtain ⟨summary, hsome, -⟩ := hsummary h
    rw [hsome, Option.isSome_some]
  case entries =>
    intro p values hmem
    have hget : (ofHistory history).get? p = some values := OrderedMap.get?_eq_some_iff.mpr hmem
    obtain ⟨value, hvalue⟩ := hlatest hget
    obtain ⟨summary, hsome, hcount⟩ := hsummary hget
    refine ⟨(hgiven hget).2, hget, ⟨value, ?_, hvalue⟩, summary, ?_, hsome, hcount⟩
    · rw [mostRecent, OrderedMap.get?_filterMapValues, ← get?, hget, Option.bind_some, hvalue]
    · rw [summarize, OrderedMap.get?_filterMapValues, ← get?, hget, Option.bind_some, hsome]

end BinnedResults

end LatticeObservables
