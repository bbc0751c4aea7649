import Mathlib.Data.List.DropRight
import LatticeObservables.Sampling.Estimate

/-!
# Recent and Cumulative Averages

Values are added to a running estimate, and resets come between them at any time. The estimate keeps
two tallies of this history (`RunningEstimate.IsTally`): a step that adds a value extends both by
it, and a reset empties one and leaves the other alone. So the recent average is that of the values
since the last reset, the cumulative one that of all values, and resets make no difference to the
latter (`RunningEstimate.ofHistory_averages`).
-/

namespace LatticeObservables

namespace RunningEstimate

variable {R : Type}

/-- **One step** in the history of a running estimate. -/
inductive Step (R : Type)
  | add (value : Complex R)
  | reset

/-- The value that a step adds. -/
def Step.added? : Step R → Option (Complex R)
  | add value => some value
  | reset => none

/-- **All values** that a history adds. -/
def added (history : List (Step R)) : List (Complex R) :=
  history.filterMap Step.added?

/-- The values that a history adds **after its last reset**. -/
def addedSinceReset (history : List (Step R)) : List (Complex R) :=
  added (history.rtakeWhile fun step => step.added?.isSome)

/-! ### What a history adds -/

theorem added_concat_add (history : List (Step R)) (value : Complex R) :
    added (history ++ [.add value]) = added history ++ [value] := by
  simp [added, Step.added?]

theorem added_concat_reset (history : List (Step R)) :
    added (history ++ [.reset]) = added history := by
  simp [added, Step.added?]

theorem addedSinceReset_concat_add (history : List (Step R)) (value : Complex R) :
    addedSinceReset (history ++ [.add value]) = addedSinceReset history ++ [value] := by
  rw [addedSinceReset, List.rtakeWhile_concat_pos _ _ _ rfl, added_concat_add, addedSinceReset]

theorem addedSinceReset_concat_reset (history : List (Step R)) :
    addedSinceReset (history ++ [.reset]) = [] := by
  rw [addedSinceReset, List.rtakeWhile_concat_neg _ _ _ (by simp [Step.added?])]
  rfl

/-- Without a reset all values are recent. -/
theorem addedSinceReset_of_no_reset {history : List (Step R)} (h : .reset ∉ history) :
    addedSinceReset history = added history := by
  have hadds : ∀ step ∈ history, step.added?.isSome := by
    rintro (value | _) hmem
    · rfl
    · exact absurd hmem h
  rw [addedSinceReset, List.rtakeWhile_eq_self_iff.mpr hadds]

variable [Scalar R]

/-! ### Tallies -/

/-- The **average** of values: their sum from left to right, divided by their number. There is none
of no values. -/
def averageOf? (values : List (Complex R)) : Option (Complex R) :=
  if values = [] then none
  else some (Complex.sum values / (Scalar.ofCount values.length : R))

/-- A sum and a count are the **tally** of some values. -/
structure IsTally (sum : Complex R) (count : Nat) (values : List (Complex R)) : Prop where
  sum_eq : sum = Complex.sum values
  count_eq : count = values.length

namespace IsTally

variable {sum : Complex R} {count : Nat} {values : List (Complex R)}

/-- Nothing is the tally of no values. -/
theorem nil : IsTally (Complex.zero : Complex R) 0 [] :=
  ⟨rfl, rfl⟩

/-- A tally is continued with **one more value** behind those that it has. -/
theorem concat (h : IsTally sum count values) (value : Complex R) :
    IsTally (sum + value) (count + 1) (values ++ [value]) where
  sum_eq := by
    rw [h.sum_eq, Complex.sum, Complex.sum, List.foldl_append, List.foldl_cons, List.foldl_nil]
  count_eq := by
    rw [h.count_eq, List.length_append, List.length_singleton]

/-- The recent tally of an estimate is continued with **all values that are added**. -/
theorem foldl_add {e : RunningEstimate R} (h : IsTally e.recentSum e.recentCount values)
    (more : List (Complex R)) :
    IsTally (more.foldl add e).recentSum (more.foldl add e).recentCount (values ++ more) := by
  induction more generalizing e values with
  | nil => rwa [List.append_nil]
  | cons value rest ih =>
      rw [List.foldl_cons, List.append_cons]
      exact ih (h.concat value)

/-- What is read from a tally is **the average** of its values. -/
theorem average?_eq (h : IsTally sum count values) : average? sum count = averageOf? values := by
  rw [average?, averageOf?, h.sum_eq, h.count_eq]
  by_cases hnil : values = []
  · rw [if_pos hnil, hnil, List.length_nil, if_neg (Nat.lt_irrefl 0)]
  · rw [if_neg hnil, if_pos (List.length_pos_iff.mpr hnil)]

end IsTally

/-! ### Whole histories -/

/-- An estimate after a step. -/
def after (e : RunningEstimate R) : Step R → RunningEstimate R
  | .add value => e.add value
  | .reset => e.reset

/-- The estimate that **a history** leaves of the fresh one. -/
def ofHistory (history : List (Step R)) : RunningEstimate R :=
  history.foldl after fresh

/-- An estimate keeps **two tallies**: of the values since the last reset and of all of them. -/
theorem isTally_ofHistory (history : List (Step R)) :
    IsTally (ofHistory history).recentSum (ofHistory history).recentCount
        (addedSinceReset history) ∧
      IsTally (ofHistory history).cumulativeSum (ofHistory history).cumulativeCount
        (added history) := by
  induction history using List.reverseRecOn with
  | nil => exact ⟨.nil, .nil⟩
  | append_singleton history step ih =>
      obtain ⟨recent, cumulative⟩ := ih
      rw [ofHistory, List.foldl_append, List.foldl_cons, List.foldl_nil, ← ofHistory]
      cases step with
      | add value =>
          rw [addedSinceReset_concat_add, added_concat_add]
          exact ⟨recent.concat value, cumulative.concat value⟩
      | reset =>
          rw [addedSinceReset_concat_reset, added_concat_reset]
          exact ⟨.nil, cumulative⟩

/-- **Recent and cumulative averages are kept apart.** After any history of values and resets the
counts are the numbers of the values since the last reset and of all values. The recent average is
that of the former, the cumulative average that of the latter, each summed from left to right from
zero, and there is none if there are no such values. Histories that add the same values have the
same cumulative average wherever their resets are, and before the first reset the two averages are
the same. -/
theorem ofHistory_averages (history : List (Step R)) :
    (ofHistory history).cumulativeCount = (added history).length ∧
    (ofHistory history).recentCount = (addedSinceReset history).length ∧
    (ofHistory history).recent? = averageOf? (addedSinceReset history) ∧
    (ofHistory history).cumulative? = averageOf? (added history) ∧
    (∀ other, added other = added history →
      (ofHistory other).cumulativeCount = (ofHistory history).cumulativeCount ∧
      (ofHistory other).cumulative? = (ofHistory history).cumulative?) ∧
    (.reset ∉ history →
      (ofHistory history).recentCount = (ofHistory history).cumulativeCount ∧
      (ofHistory history).recent? = (ofHistory history).cumulative?) := by
  obtain ⟨recent, cumulative⟩ := isTally_ofHistory history
  refine ⟨cumulative.count_eq, recent.count_eq, recent.average?_eq, cumulative.average?_eq,
    ?resets, ?unreset⟩
  case resets =>
    intro other hadded
    obtain ⟨-, others⟩ := isTally_ofHistory other
    rw [hadded] at others
    exact ⟨others.count_eq.trans cumulative.count_eq.symm,
      others.average?_eq.trans cumulative.average?_eq.symm⟩
  case unreset =>
    intro hreset
    rw [addedSinceReset_of_no_reset hreset] at recent
    exact ⟨recent.count_eq.trans cumulative.count_eq.symm,
      recent.average?_eq.trans cumulative.average?_eq.symm⟩

end RunningEstimate

end LatticeObservables
