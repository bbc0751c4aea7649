import Mathlib.Data.List.TakeDrop
import Mathlib.Data.Nat.Init
import LatticeObservables.Lattice.Site

/-!
# Texts That Can Be Read

Values are written one behind the other, without lengths. A text can be taken apart again if it is
known of each value where its text ends: no digit follows a number, and no list goes on behind its
bracket. `Legible stop write` says that the text of a value, with nothing behind it or something
that begins with a character of `stop`, determines both the value and what is behind it. Ways to
write values are put together from legible ones, and what is legible is written differently for
different values (`Legible.injective`).

## Main statements

* `Legible.append`, `Legible.option`, `Legible.bracketed`, `Legible.parenthesized`: texts of pairs,
  of what may be absent, and of lists in brackets.
* `legible_nat`, `legible_int`: numbers in front of anything but a digit.
-/

namespace LatticeObservables

/-- A text that **goes on with** characters of one kind: there is none, or it begins with such a
character. -/
def GoesOn (stop : Char → Prop) (rest : List Char) : Prop :=
  ∀ c ∈ rest.head?, stop c

/-- A way to write values is **legible** in front of characters of one kind: in front of them, a
text determines the value that it is the text of and where it ends. -/
def Legible {α : Type} (stop : Char → Prop) (write : α → String) : Prop :=
  ∀ a b r s, GoesOn stop r → GoesOn stop s →
    (write a).toList ++ r = (write b).toList ++ s → a = b ∧ r = s

/-- A text that **begins** with a character of one kind. -/
def Begins (kind : Char → Prop) (s : String) : Prop :=
  ∃ c cs, s.toList = c :: cs ∧ kind c

section Rest

variable {stop : Char → Prop} {c : Char} {rest : List Char}

theorem goesOn_nil : GoesOn stop [] := by
  simp [GoesOn]

theorem goesOn_cons_iff : GoesOn stop (c :: rest) ↔ stop c := by
  simp [GoesOn]

/-- What begins a text begins all that it begins. -/
theorem Begins.append {s : String} (h : Begins stop s) (t : String) : Begins stop (s ++ t) := by
  obtain ⟨c, cs, hcons, hc⟩ := h
  exact ⟨c, cs ++ t.toList, by rw [String.toList_append, hcons, List.cons_append], hc⟩

/-- A list in square brackets begins with one. -/
theorem begins_bracketed (parts : List String) : Begins (· = '[') (bracketed parts) := by
  have opening : Begins (· = '[') "[" := ⟨'[', [], rfl, rfl⟩
  exact (opening.append _).append _

/-- A text that begins with one kind of characters begins with more kinds. -/
theorem Begins.mono {stop' : Char → Prop} {s : String} (h : Begins stop s)
    (hstop : ∀ c, stop c → stop' c) : Begins stop' s := by
  obtain ⟨c, cs, hcons, hc⟩ := h
  exact ⟨c, cs, hcons, hstop c hc⟩

end Rest

namespace Legible

variable {α β : Type} {stop stop' : Char → Prop} {write : α → String} {write' : β → String}

/-- Different values have **different texts**. -/
theorem injective (h : Legible stop write) : Function.Injective write := fun a b hab =>
  (h a b [] [] goesOn_nil goesOn_nil (by rw [hab])).1

/-- What is legible in front of more is legible in front of less. -/
theorem mono (h : Legible stop write) (hstop : ∀ c, stop' c → stop c) : Legible stop' write :=
  fun a b r s hr hs => h a b r s (fun c hc => hstop c (hr c hc)) fun c hc => hstop c (hs c hc)

/-- A value is legible if it is written as **what determines it**. -/
theorem of_eq (h : Legible stop write) {f : β → α} (hf : Function.Injective f)
    (heq : ∀ b, write' b = write (f b)) : Legible stop write' := by
  intro a b r s hr hs htext
  rw [heq, heq] at htext
  obtain ⟨hvalue, hrest⟩ := h (f a) (f b) r s hr hs htext
  exact ⟨hf hvalue, hrest⟩

/-- A text stays legible behind a fixed one. -/
theorem behind (before : String) (h : Legible stop write) :
    Legible stop fun a => before ++ write a := by
  intro a b r s hr hs htext
  simp only [String.toList_append, List.append_assoc, List.append_cancel_left_eq] at htext
  exact h a b r s hr hs htext

/-- Two texts, **one behind the other**, are legible if the second one ends the first. -/
theorem append (h : Legible stop write) (h' : Legible stop' write')
    (hends : ∀ b r, GoesOn stop' r → GoesOn stop ((write' b).toList ++ r)) :
    Legible stop' fun p : α × β => write p.1 ++ write' p.2 := by
  rintro ⟨a, b⟩ ⟨c, d⟩ r s hr hs htext
  simp only [String.toList_append, List.append_assoc] at htext
  obtain ⟨rfl, hmore⟩ := h a c _ _ (hends b r hr) (hends d s hs) htext
  obtain ⟨rfl, hrest⟩ := h' b d r s hr hs hmore
  exact ⟨rfl, hrest⟩

/-- A text that something fixed ends is legible **in front of anything**. -/
theorem closed (h : Legible stop write) (close : String) {c : Char} {cs : List Char}
    (hclose : close.toList = c :: cs) (hc : stop c) :
    Legible (fun _ => True) fun a => write a ++ close := by
  intro a b r s _ _ htext
  simp only [String.toList_append, List.append_assoc, hclose, List.cons_append] at htext
  obtain ⟨hvalue, hrest⟩ := h a b _ _ (goesOn_cons_iff.mpr hc) (goesOn_cons_iff.mpr hc) htext
  exact ⟨hvalue, List.append_cancel_left (List.cons.inj hrest).2⟩

/-- What may be **absent** is legible in front of what it does not begin with. -/
theorem option (h : Legible stop write) (before : String) {c : Char} {cs : List Char}
    (hbefore : before.toList = c :: cs) :
    Legible (fun d => stop d ∧ d ≠ c) fun o : Option α => o.elim "" fun a => before ++ write a := by
  have absent {r : List Char} (hr : GoesOn (fun d => stop d ∧ d ≠ c) r) (a : α) (s : List Char) :
      r ≠ (before ++ write a).toList ++ s := by
    rintro rfl
    rw [String.toList_append, hbefore, List.cons_append, List.cons_append, goesOn_cons_iff] at hr
    exact hr.2 rfl
  have present : Legible (fun d => stop d ∧ d ≠ c) fun a => before ++ write a :=
    (h.mono fun _ hd => hd.1).behind before
  intro o o' r s hr hs htext
  cases o with
  | none =>
      cases o' with
      | none => exact ⟨rfl, htext⟩
      | some b => exact absurd htext (absent hr b s)
  | some a =>
      cases o' with
      | none => exact absurd htext.symm (absent hs a r)
      | some b =>
          obtain ⟨rfl, hrest⟩ := present a b r s hr hs htext
          exact ⟨rfl, hrest⟩

/-! ### Lists -/

/-- What follows the first element of a list in brackets. -/
def moreItems (write : α → String) (close : Char) : List α → List Char → List Char
  | [], rest => close :: rest
  | a :: others, rest => ',' :: ' ' :: ((write a).toList ++ moreItems write close others rest)

/-- A list in brackets is its first element and what follows. -/
theorem commaSeparated_cons (write : α → String) (close : Char) (a : α) (l : List α)
    (rest : List Char) :
    (commaSeparated ((a :: l).map write)).toList ++ close :: rest =
      (write a).toList ++ moreItems write close l rest := by
  induction l generalizing a with
  | nil => simp [commaSeparated, moreItems]
  | cons b l ih =>
      have hmore := ih b
      simp only [commaSeparated, List.map_cons, String.toList_intercalate] at hmore ⊢
      rw [List.intercalate_cons_cons, List.append_assoc, List.append_assoc, hmore]
      rfl

section List

variable {close : Char} (hcomma : stop ',') (hclose : stop close)
include hcomma hclose

/-- An element ends in front of what follows it. -/
theorem goesOn_moreItems (l : List α) (rest : List Char) :
    GoesOn stop (moreItems write close l rest) := by
  cases l with
  | nil => exact goesOn_cons_iff.mpr hclose
  | cons a l => exact goesOn_cons_iff.mpr hcomma

/-- What follows the first element determines **the other elements** and where the list ends. -/
theorem moreItems_inj (h : Legible stop write) (hne : close ≠ ',') {l m : List α} {r s : List Char}
    (htext : moreItems write close l r = moreItems write close m s) : l = m ∧ r = s := by
  induction l generalizing m with
  | nil =>
      cases m with
      | nil => exact ⟨rfl, (List.cons.inj htext).2⟩
      | cons b m => exact absurd (List.cons.inj htext).1 hne
  | cons a l ih =>
      cases m with
      | nil => exact absurd (List.cons.inj htext).1.symm hne
      | cons b m =>
          obtain ⟨rfl, hmore⟩ := h a b _ _ (goesOn_moreItems hcomma hclose l r)
            (goesOn_moreItems hcomma hclose m s) (List.cons.inj (List.cons.inj htext).2).2
          obtain ⟨rfl, hrest⟩ := ih hmore
          exact ⟨rfl, hrest⟩

/-- A list in brackets determines **its elements** and where it ends, if elements are legible in
front of commas and of the bracket that closes it, and none of them begins with this bracket. -/
theorem commaSeparated_inj (h : Legible stop write) (hne : close ≠ ',')
    (hbegins : ∀ a, Begins (· ≠ close) (write a)) {l m : List α} {r s : List Char}
    (htext : (commaSeparated (l.map write)).toList ++ close :: r =
      (commaSeparated (m.map write)).toList ++ close :: s) : l = m ∧ r = s := by
  have hempty (a : α) (l : List α) (r s : List Char) :
      (commaSeparated ((a :: l).map write)).toList ++ close :: r ≠ close :: s := by
    obtain ⟨c, cs, hc, hcne⟩ := hbegins a
    rw [commaSeparated_cons, hc]
    exact fun heq => hcne (List.cons.inj heq).1
  cases l with
  | nil =>
      cases m with
      | nil => exact ⟨rfl, (List.cons.inj htext).2⟩
      | cons b m => exact absurd htext.symm (hempty b m s r)
  | cons a l =>
      cases m with
      | nil => exact absurd htext (hempty a l r s)
      | cons b m =>
          rw [commaSeparated_cons, commaSeparated_cons] at htext
          obtain ⟨rfl, hmore⟩ := h a b _ _ (goesOn_moreItems hcomma hclose l r)
            (goesOn_moreItems hcomma hclose m s) htext
          obtain ⟨rfl, hrest⟩ := moreItems_inj hcomma hclose h hne hmore
          exact ⟨rfl, hrest⟩

end List

section Brackets

variable (h : Legible stop write) (hcomma : stop ',')
include h hcomma

/-- Lists in **square brackets** are legible in front of anything. -/
theorem bracketed (hclose : stop ']') (hbegins : ∀ a, Begins (· ≠ ']') (write a)) :
    Legible (fun _ => True) fun l : List α => LatticeObservables.bracketed (l.map write) := by
  intro l m r s _ _ htext
  simp only [LatticeObservables.bracketed, String.toList_append, List.append_assoc,
    List.append_cancel_left_eq] at htext
  exact commaSeparated_inj hcomma hclose h (by decide) hbegins htext

/-- Lists in **round brackets** are legible in front of anything. -/
theorem parenthesized (hclose : stop ')') (hbegins : ∀ a, Begins (· ≠ ')') (write a)) :
    Legible (fun _ => True) fun l : List α => LatticeObservables.parenthesized (l.map write) := by
  intro l m r s _ _ htext
  simp only [LatticeObservables.parenthesized, String.toList_append, List.append_assoc,
    List.append_cancel_left_eq] at htext
  exact commaSeparated_inj hcomma hclose h (by decide) hbegins htext

end Brackets

end Legible

/-! ### Numbers -/

/-- Characters that do not continue a number. -/
def NoDigit (c : Char) : Prop :=
  ¬ c.isDigit

instance (c : Char) : Decidable (NoDigit c) :=
  inferInstanceAs (Decidable (¬ _))

/-- The digits of a number are split off from what ends it. -/
theorem span_toDigits (n : Nat) {rest : List Char} (hrest : GoesOn NoDigit rest) :
    (Nat.toDigits 10 n ++ rest).span Char.isDigit = (Nat.toDigits 10 n, rest) := by
  have hdigits : ∀ c ∈ Nat.toDigits 10 n, c.isDigit := fun c hc =>
    Nat.isDigit_of_mem_toDigits (by decide) (by decide) hc
  have hstop : rest.takeWhile Char.isDigit = [] ∧ rest.dropWhile Char.isDigit = rest := by
    cases rest with
    | nil => exact ⟨rfl, rfl⟩
    | cons c cs =>
        have hc : ¬ c.isDigit := goesOn_cons_iff.mp hrest
        exact ⟨List.takeWhile_cons_of_neg hc, List.dropWhile_cons_of_neg hc⟩
  rw [List.span_eq_takeWhile_dropWhile, List.takeWhile_append_of_pos hdigits,
    List.dropWhile_append_of_pos hdigits, hstop.1, hstop.2, List.append_nil]

/-- The digits of a number determine it and where they end. -/
theorem toDigits_append_inj {m n : Nat} {r s : List Char} (hr : GoesOn NoDigit r)
    (hs : GoesOn NoDigit s) (h : Nat.toDigits 10 m ++ r = Nat.toDigits 10 n ++ s) :
    m = n ∧ r = s := by
  have hsplit := span_toDigits m hr
  rw [h, span_toDigits n hs] at hsplit
  obtain ⟨hdigits, rfl⟩ := Prod.mk.inj hsplit
  refine ⟨?_, rfl⟩
  rw [← Nat.ofDigitChars_ten_toDigits (n := m), ← hdigits, Nat.ofDigitChars_ten_toDigits]

/-- There is a digit in front of whatever follows the digits of a number. -/
theorem exists_toDigits_eq_cons (n : Nat) :
    ∃ c cs, Nat.toDigits 10 n = c :: cs ∧ c.isDigit := by
  obtain ⟨c, cs, hcons⟩ := List.exists_cons_of_ne_nil (Nat.toDigits_ne_nil (b := 10) (n := n))
  exact ⟨c, cs, hcons,
    Nat.isDigit_of_mem_toDigits (by decide) (by decide) (hcons ▸ List.mem_cons_self)⟩

/-- **Natural numbers** are legible where no digit follows. -/
theorem legible_nat : Legible NoDigit (toString : Nat → String) := by
  intro m n r s hr hs htext
  rw [Nat.toString_eq_repr, Nat.toString_eq_repr, Nat.toList_repr, Nat.toList_repr] at htext
  exact toDigits_append_inj hr hs htext

/-- The text of an integer: its digits, and a minus before those of a negative one. -/
theorem toList_toString_int (n : Int) :
    (toString n).toList =
      if 0 ≤ n then Nat.toDigits 10 n.toNat else '-' :: Nat.toDigits 10 (-n).toNat := by
  rw [Int.toString_eq_repr, Int.repr_eq_if]
  split
  · exact Nat.toList_repr
  · rw [String.toList_append, Nat.toList_repr]
    rfl

/-- An integer begins with a digit or a minus. -/
theorem begins_int (n : Int) : Begins (fun c => c.isDigit ∨ c = '-') (toString n) := by
  rw [Begins, toList_toString_int]
  split
  · obtain ⟨c, cs, hcons, hc⟩ := exists_toDigits_eq_cons n.toNat
    exact ⟨c, cs, hcons, .inl hc⟩
  · exact ⟨'-', _, rfl, .inr rfl⟩

/-- **Integers** are legible where no digit follows. -/
theorem legible_int : Legible NoDigit (toString : Int → String) := by
  have signs (m n : Nat) (r s : List Char) :
      Nat.toDigits 10 m ++ r ≠ ('-' :: Nat.toDigits 10 n) ++ s := by
    obtain ⟨c, cs, hcons, hc⟩ := exists_toDigits_eq_cons m
    intro h
    rw [hcons, List.cons_append] at h
    rw [(List.cons.inj h).1] at hc
    exact absurd hc (by decide)
  intro m n r s hr hs htext
  rw [toList_toString_int, toList_toString_int] at htext
  split_ifs at htext with hm hn hn
  · obtain ⟨hvalue, hrest⟩ := toDigits_append_inj hr hs htext
    exact ⟨by omega, hrest⟩
  · exact absurd htext (signs _ _ r s)
  · exact absurd htext.symm (signs _ _ s r)
  · obtain ⟨hvalue, hrest⟩ := toDigits_append_inj hr hs (List.cons.inj htext).2
    exact ⟨by omega, hrest⟩

end LatticeObservables
