import Mathlib.Data.List.Forall2

/-!
# Lists Related Element by Element

Two lists are related by `List.Forall₂` if their elements are, position by position. This is how
a list of things that were made is tied to the list of what they were made of. Related lists
exist if every element has something it is related to (`exists_forall₂`), and the things made of
different things are different if each can be made of one thing only (`nodup_of_forall₂`).
-/

namespace LatticeObservables

variable {α β γ : Type} {p : α → β → Prop} {l : List α} {m : List β}

/-- If every element is related to something, the list is related to some list. -/
theorem exists_forall₂ (h : ∀ a ∈ l, ∃ b, p a b) : ∃ m, List.Forall₂ p l m := by
  induction l with
  | nil => exact ⟨[], .nil⟩
  | cons a rest ih =>
      obtain ⟨⟨b, hb⟩, hrest⟩ := List.forall_mem_cons.mp h
      obtain ⟨m, hm⟩ := ih hrest
      exact ⟨b :: m, .cons hb hm⟩

/-- Relations between lists that stand in a row give one between the outer ones. -/
theorem forall₂_trans {q : β → γ → Prop} {r : α → γ → Prop} {n : List γ}
    (hp : List.Forall₂ p l m) (hq : List.Forall₂ q m n) (h : ∀ a b c, p a b → q b c → r a c) :
    List.Forall₂ r l n := by
  induction hp generalizing n with
  | nil =>
      cases hq
      exact .nil
  | cons hab _ ih =>
      cases hq with
      | cons hbc hrest => exact .cons (h _ _ _ hab hbc) (ih hrest)

/-- The elements that are related are elements of the list. -/
theorem forall₂_and_mem (h : List.Forall₂ p l m) :
    List.Forall₂ (fun a b => a ∈ l ∧ p a b) l m :=
  (List.forall₂_and_left (p := (· ∈ l)) l m).mpr ⟨fun _ ha => ha, h⟩

/-- Every element of a related list is related to one of the elements. -/
theorem exists_of_mem_right (h : List.Forall₂ p l m) {b : β} (hb : b ∈ m) : ∃ a ∈ l, p a b := by
  induction h with
  | nil => exact absurd hb List.not_mem_nil
  | cons hab _ ih =>
      rcases List.mem_cons.mp hb with rfl | hb
      · exact ⟨_, List.mem_cons_self, hab⟩
      · obtain ⟨a, ha, hab⟩ := ih hb
        exact ⟨a, List.mem_cons_of_mem _ ha, hab⟩

/-- Where one of two related lists has an element, the other one has **an element related to
it**. -/
theorem exists_getElem?_of_forall₂ (h : List.Forall₂ p l m) {i : Nat} {a : α}
    (ha : l[i]? = some a) : ∃ b, m[i]? = some b ∧ p a b := by
  induction h generalizing i with
  | nil => simp at ha
  | cons hab _ ih =>
      cases i with
      | zero =>
          obtain rfl := Option.some.inj ha
          exact ⟨_, rfl, hab⟩
      | succ i => exact ih ha

/-- What is related to different things is different, if it is related to one thing only. -/
theorem nodup_of_forall₂ (hp : ∀ a a' b, p a b → p a' b → a = a') (h : List.Forall₂ p l m)
    (hl : l.Nodup) : m.Nodup := by
  induction h with
  | nil => exact .nil
  | cons hab hrest ih =>
      obtain ⟨ha, hl⟩ := List.nodup_cons.mp hl
      refine List.nodup_cons.mpr ⟨?_, ih hl⟩
      intro hb
      obtain ⟨a', ha', hab'⟩ := exists_of_mem_right hrest hb
      exact ha (hp _ _ _ hab hab' ▸ ha')

/-- If related things are told apart on both sides, a thing **stands as often** in the one list as
what it is related to does in the other one. -/
theorem count_of_forall₂ [DecidableEq α] [DecidableEq β]
    (hp : ∀ a a' b b', p a b → p a' b' → (a = a' ↔ b = b')) (h : List.Forall₂ p l m) {a : α} {b : β}
    (hab : p a b) : m.count b = l.count a := by
  induction h with
  | nil => rfl
  | cons hfirst _ ih => simp only [List.count_cons, beq_iff_eq, ih, hp _ _ _ _ hfirst hab]

end LatticeObservables
