import Mathlib.Data.List.Basic
import Mathlib.Data.List.Forall2
import Mathlib.Data.List.Induction
import LatticeObservables.Collection.FirstSeen

/-!
# First-Seen Order

What it means that a list is in the first-seen order of another (`SeenOrder`): it has the same
members, and they stand in the order of their first positions there. `firstSeen` puts a list
in that order (`firstSeen_seenOrder`). Deduplicating again after an append, a map or a filter
changes nothing that deduplicating once at the end would not.
-/

namespace LatticeObservables

variable {α : Type} [DecidableEq α]

/-- A list is in the **first-seen order** of another: it has the same members, and they stand
in the order of their first positions in the other one. -/
structure SeenOrder (order l : List α) : Prop where
  mem_iff : ∀ a, a ∈ order ↔ a ∈ l
  increasing : order.Pairwise fun a b => l.idxOf a < l.idxOf b

/-- In first-seen order nothing stands twice. -/
theorem SeenOrder.nodup {order l : List α} (h : SeenOrder order l) : order.Nodup := by
  refine h.increasing.imp ?_
  rintro a b hlt rfl
  exact Nat.lt_irrefl _ hlt

/-- What is seen first is put in **first-seen order**. -/
theorem firstSeen_seenOrder (l : List α) : SeenOrder (firstSeen l) l where
  mem_iff := fun _ => mem_firstSeen
  increasing := by
    induction l with
    | nil => exact .nil
    | cons b rest ih =>
        rw [firstSeen, List.pairwise_cons]
        constructor
        · intro a ha
          have hba : b ≠ a := by
            rintro rfl
            simp at ha
          rw [List.idxOf_cons_self, List.idxOf_cons_ne rest hba]
          exact Nat.succ_pos _
        · refine (ih.filter _).imp_of_mem ?_
          intro a c ha hc hlt
          have ne_of_mem {d : α} (hd : d ∈ (firstSeen rest).filter (· ≠ b)) : b ≠ d := by
            rintro rfl
            simp at hd
          rw [List.idxOf_cons_ne rest (ne_of_mem ha), List.idxOf_cons_ne rest (ne_of_mem hc)]
          exact Nat.succ_lt_succ hlt

/-! ### Appending -/

/-- Behind a list, an element is seen first exactly when it is not in the list. -/
theorem firstSeen_append_singleton (l : List α) (a : α) :
    firstSeen (l ++ [a]) = if a ∈ l then firstSeen l else firstSeen l ++ [a] := by
  induction l with
  | nil => simp [firstSeen]
  | cons b rest ih =>
      by_cases hb : a = b
      · subst hb
        by_cases ha : a ∈ rest <;> simp [firstSeen, ih, ha]
      · by_cases ha : a ∈ rest <;> simp [firstSeen, ih, ha, hb]

/-- Behind a list, what is seen first is what the list **has not shown** yet. -/
theorem firstSeen_append (l t : List α) :
    firstSeen (l ++ t) = firstSeen l ++ (firstSeen t).filter (· ∉ l) := by
  induction l with
  | nil => simp [firstSeen]
  | cons b rest ih =>
      have hfilter : ((firstSeen t).filter (· ∉ rest)).filter (· ≠ b) =
          (firstSeen t).filter (· ∉ b :: rest) := by
        rw [List.filter_filter]
        refine List.filter_congr ?_
        intro a _
        simp [List.mem_cons, not_or]
      rw [List.cons_append, firstSeen, ih, List.filter_append, hfilter, firstSeen,
        List.cons_append]

/-- What was seen before can be deduplicated first. -/
theorem firstSeen_firstSeen_append (l t : List α) :
    firstSeen (firstSeen l ++ t) = firstSeen (l ++ t) := by
  induction t using List.reverseRecOn with
  | nil => simpa using firstSeen_eq_self (nodup_firstSeen l)
  | append_singleton t a ih =>
      rw [← List.append_assoc, ← List.append_assoc, firstSeen_append_singleton,
        firstSeen_append_singleton, ih]
      simp only [List.mem_append, mem_firstSeen]

/-- What is appended can be deduplicated first too. -/
theorem firstSeen_append_firstSeen (l t : List α) :
    firstSeen (l ++ firstSeen t) = firstSeen (l ++ t) := by
  rw [firstSeen_append, firstSeen_append, firstSeen_eq_self (nodup_firstSeen t)]

/-- What was seen before adds nothing. -/
theorem firstSeen_append_of_subset {l t : List α} (h : ∀ a ∈ t, a ∈ l) :
    firstSeen (l ++ t) = firstSeen l := by
  induction t using List.reverseRecOn with
  | nil => rw [List.append_nil]
  | append_singleton t a ih =>
      have ha : a ∈ l ++ t := List.mem_append_left t (h a (by simp))
      rw [← List.append_assoc, firstSeen_append_singleton, if_pos ha]
      exact ih fun b hb => h b (List.mem_append_left _ hb)

/-! ### Mapping and filtering -/

/-- A list can be deduplicated before its elements are mapped. -/
theorem firstSeen_map_firstSeen {β : Type} [DecidableEq β] (f : α → β) (l : List α) :
    firstSeen ((firstSeen l).map f) = firstSeen (l.map f) := by
  induction l using List.reverseRecOn with
  | nil => rfl
  | append_singleton l a ih =>
      rw [firstSeen_append_singleton, List.map_append, List.map_singleton,
        firstSeen_append_singleton]
      by_cases ha : a ∈ l
      · rw [if_pos ha, if_pos (List.mem_map_of_mem ha), ih]
      · have hmem : f a ∈ (firstSeen l).map f ↔ f a ∈ l.map f := by
          simp only [List.mem_map, mem_firstSeen]
        rw [if_neg ha, List.map_append, List.map_singleton, firstSeen_append_singleton, ih]
        simp only [hmem]

/-- A list can be deduplicated before it is filtered. -/
theorem filter_firstSeen (p : α → Bool) (l : List α) :
    (firstSeen l).filter p = firstSeen (l.filter p) := by
  induction l with
  | nil => rfl
  | cons a rest ih =>
      have swap : ((firstSeen rest).filter (· ≠ a)).filter p =
          (firstSeen (rest.filter p)).filter (· ≠ a) := by
        rw [← ih, List.filter_comm]
      by_cases hp : p a
      · rw [firstSeen, List.filter_cons_of_pos hp, List.filter_cons_of_pos hp, firstSeen, swap]
      · -- What is filtered out is not there to be seen again.
        have absent : ∀ b ∈ firstSeen (rest.filter p), decide (b ≠ a) = true := by
          intro b hb
          rw [decide_eq_true_iff]
          rintro rfl
          exact hp (List.mem_filter.mp (mem_firstSeen.mp hb)).2
        rw [firstSeen, List.filter_cons_of_neg hp, List.filter_cons_of_neg hp, swap,
          List.filter_eq_self.mpr absent]

/-- If related things are told apart on both sides, what is seen first in related lists is related
too. -/
theorem forall₂_firstSeen {β : Type} [DecidableEq β] {p : α → β → Prop}
    (hp : ∀ a a' b b', p a b → p a' b' → (a = a' ↔ b = b')) {l : List α} {m : List β}
    (h : List.Forall₂ p l m) : List.Forall₂ p (firstSeen l) (firstSeen m) := by
  induction h with
  | nil => exact .nil
  | cons hab _ ih =>
      refine .cons hab (List.rel_filter ?_ ih)
      intro a' b' hab'
      simp only [decide_eq_true_eq, ne_eq, hp _ _ _ _ hab' hab]

end LatticeObservables
