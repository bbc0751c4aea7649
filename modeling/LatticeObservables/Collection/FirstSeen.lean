/-!
# First-Seen Order

`firstSeen` drops from a list every element that occurred before, so what is left stands in
the order in which it was first seen. It keeps the members (`mem_firstSeen`), it leaves no
duplicate (`nodup_firstSeen`), and it leaves a list without duplicates as it is
(`firstSeen_eq_self`).
-/

namespace LatticeObservables

variable {α : Type} [DecidableEq α]

/-- The distinct elements of a list in **first-seen order**. -/
def firstSeen : List α → List α
  | [] => []
  | a :: rest => a :: (firstSeen rest).filter (· ≠ a)

/-- Nothing is lost and nothing is invented. -/
@[simp] theorem mem_firstSeen {a : α} {l : List α} : a ∈ firstSeen l ↔ a ∈ l := by
  induction l with
  | nil => simp [firstSeen]
  | cons b rest ih =>
      by_cases h : a = b
      · simp [firstSeen, h]
      · simp [firstSeen, h, ih]

/-- No element is left twice. -/
theorem nodup_firstSeen (l : List α) : (firstSeen l).Nodup := by
  induction l with
  | nil => simp [firstSeen]
  | cons b rest ih =>
      simp only [firstSeen, List.nodup_cons]
      exact ⟨by simp, ih.filter _⟩

/-- A list without duplicates is left as it is. -/
theorem firstSeen_eq_self {l : List α} (h : l.Nodup) : firstSeen l = l := by
  induction l with
  | nil => rfl
  | cons b rest ih =>
      obtain ⟨hb, hrest⟩ := List.nodup_cons.mp h
      rw [firstSeen, ih hrest, List.filter_eq_self.mpr]
      intro a ha
      simp only [ne_eq, decide_not, Bool.not_eq_eq_eq_not, Bool.not_true, decide_eq_false_iff_not]
      rintro rfl
      exact hb ha

end LatticeObservables
