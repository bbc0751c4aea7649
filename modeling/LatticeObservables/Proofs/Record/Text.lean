import LatticeObservables.Proofs.Arithmetic.Bounded
import LatticeObservables.Proofs.Text.Legible
import LatticeObservables.Record.JsonReader

/-!
# Reading the Text of a Value

A value without decimals is read back from its text. The text may stand in front of anything that
ends a value, so that the values inside lists and records are read by the same law, and the count
of values that the reader may still open is never met: a value takes no more of them than its text
has characters (`Json.ReadsBack`).

Integers are written however long they are, but read as integers only up to the ends of a 64-bit
word and as decimals beyond them (`Json.asRead`). The decimal still tells which integer was written.

## Main statements

* `Json.read?_render`: the text of a value without decimals is one JSON text, and read as the value.
* `Json.read?_render_of_inWord`: nothing is lost of integers that words hold.
* `Json.eq_of_render_eq`: the text determines the value, whatever integers are in it.
-/

namespace LatticeObservables

namespace Json

/-! ### What stands around a value -/

/-- A text that **ends a value** before it: there is none, or it begins with a comma or a closing
bracket. -/
inductive EndsValue : List Char → Prop
  | nil : EndsValue []
  | comma (tail : List Char) : EndsValue (',' :: tail)
  | bracket (tail : List Char) : EndsValue (']' :: tail)
  | brace (tail : List Char) : EndsValue ('\x7d' :: tail)

/-- A character that **begins a value**: it is no blank and closes nothing. -/
def BeginsValue (c : Char) : Prop :=
  c ∉ [' ', '\t', '\n', '\r', ']', '\x7d']

instance (c : Char) : Decidable (BeginsValue c) :=
  inferInstanceAs (Decidable (_ ∉ _))

/-- What begins with no blank is left as it is. -/
theorem skipBlanks_cons {c : Char} (hc : c ∉ [' ', '\t', '\n', '\r']) (cs : List Char) :
    skipBlanks (c :: cs) = c :: cs := by
  simp only [List.mem_cons, List.not_mem_nil, or_false, not_or] at hc
  simp [skipBlanks, hc]

/-- Nothing is skipped in front of a value. -/
theorem BeginsValue.skipBlanks_cons {c : Char} (hc : BeginsValue c) (cs : List Char) :
    skipBlanks (c :: cs) = c :: cs :=
  Json.skipBlanks_cons (fun hmem => hc (List.mem_append_left [']', '\x7d'] hmem)) cs

/-! ### Numbers -/

/-- No number but zero begins with the digit zero. -/
theorem head?_toDigits_ne {n : Nat} (hn : n ≠ 0) : (Nat.toDigits 10 n).head? ≠ some '0' := by
  induction n using Nat.strong_induction_on with
  | _ n ih =>
      rw [Nat.toDigits_eq_if (by decide)]
      split
      next hlt =>
        have hdigit : ∀ d < 10, d ≠ 0 → d.digitChar ≠ '0' := by decide
        simpa using hdigit n hlt hn
      next hlt =>
        rw [List.head?_append, Option.or_of_isSome (by simp)]
        exact ih (n / 10) (by omega) (by omega)

/-- No digit follows a value. -/
theorem EndsValue.goesOn {rest : List Char} (hrest : EndsValue rest) : GoesOn NoDigit rest := by
  cases hrest
  · exact goesOn_nil
  all_goals exact goesOn_cons_iff.mpr (by decide)

/-- The digits of a number are split off from what ends it. -/
theorem spanDigits_toDigits (n : Nat) {rest : List Char} (hrest : EndsValue rest) :
    spanDigits (Nat.toDigits 10 n ++ rest) = (Nat.toDigits 10 n, rest) :=
  span_toDigits n hrest.goesOn

/-- There is no power in what ends a number. -/
theorem powerTail?_of_endsValue {rest : List Char} (hrest : EndsValue rest) :
    powerTail? rest = some (none, rest) := by
  cases hrest <;> rfl

/-- The integers that a word of 64 bits holds, signed or not. -/
def InWord (n : Int) : Prop :=
  -2 ^ 63 ≤ n ∧ n < 2 ^ 64

instance (n : Int) : Decidable (InWord n) :=
  inferInstanceAs (Decidable (_ ∧ _))

/-- The bounds of a word, written out. -/
theorem inWord_iff {n : Int} : InWord n ↔ -2 ^ 63 ≤ n ∧ n < 2 ^ 64 :=
  Iff.rfl

/-- What the text of an integer **is read as**: a decimal, unless a word holds it. -/
def numberAsRead (n : Int) : Json :=
  if InWord n then integer n else decimal ⟨n < 0, n.natAbs, 0⟩

/-- The digits of a number are at least one, and no zero is put in front of them. -/
theorem noLeadingZero_toDigits (n : Nat) :
    ¬ (Nat.toDigits 10 n = [] ∨
      (Nat.toDigits 10 n).head? = some '0' ∧ Nat.toDigits 10 n ≠ ['0']) := by
  rintro (hnil | ⟨hzero, hmore⟩)
  · exact Nat.toDigits_ne_nil hnil
  · obtain rfl : n = 0 := not_not.mp fun hn => head?_toDigits_ne hn hzero
    exact hmore (Nat.toDigits_zero 10)

/-- No places follow a number that ends. -/
theorem EndsValue.ne_point {rest : List Char} (hrest : EndsValue rest) (tail : List Char) :
    rest ≠ '.' :: tail := by
  cases hrest <;> nofun

/-- What the reader asks of a size and a sign is whether a word holds the number. -/
theorem sizeFits_eq_inWord {negative : Bool} {n : Nat} (hn : negative → 0 < n) :
    (if negative then 0 < n && n ≤ twoPower 63 else n < twoPower 64) =
      decide (InWord (if negative then -n else n)) := by
  rw [Bool.eq_iff_iff, decide_eq_true_eq, inWord_iff, twoPower_eq, twoPower_eq]
  cases negative with
  | false =>
      simp only [Bool.false_eq_true, if_false, decide_eq_true_eq]
      omega
  | true =>
      have hpos := hn rfl
      simp only [if_true, Bool.and_eq_true, decide_eq_true_eq]
      omega

/-- Digits behind a sign are read as the number that they are the text of. -/
theorem numberTail?_toDigits {negative : Bool} {n : Nat} (hn : negative → 0 < n)
    {rest : List Char} (hrest : EndsValue rest) :
    numberTail? negative (Nat.toDigits 10 n ++ rest) =
      some (numberAsRead (if negative then -n else n), rest) := by
  have hplaces := hrest.ne_point
  have hvalue : digitsValue (Nat.toDigits 10 n) = n := Nat.ofDigitChars_ten_toDigits
  have hsign : decide ((if negative then -(n : Int) else n) < 0) = negative := by
    cases negative <;> simp_all
  have hsize : (if negative then -(n : Int) else n).natAbs = n := by
    cases negative <;> simp
  rw [numberTail?, spanDigits_toDigits n hrest]
  simp only [if_neg (noLeadingZero_toDigits n), Option.bind_eq_bind, Option.bind_some,
    powerTail?_of_endsValue hrest, Option.getD_none, List.append_nil, hvalue, Option.isNone_none,
    Bool.true_and, List.length_nil, sizeFits_eq_inWord hn, decide_eq_true_eq, numberAsRead, hsign,
    hsize]
  generalize (if negative then -(n : Int) else n) = k
  by_cases hk : InWord k
  · rw [if_pos hk, if_pos hk]
    rfl
  · rw [if_neg hk, if_neg hk]
    rfl

/-- A digit begins a value. -/
theorem beginsValue_of_isDigit {c : Char} (hc : c.isDigit) : BeginsValue c := by
  have hnone : [' ', '\t', '\n', '\r', ']', '\x7d'].all fun c => !c.isDigit := by decide
  intro hmem
  have hnot := List.all_eq_true.mp hnone c hmem
  rw [hc] at hnot
  cases hnot

/-- A digit is where a number starts. -/
theorem readValue?_of_isDigit {c : Char} (hc : c.isDigit) (fuel : Nat) (cs : List Char) :
    readValue? (fuel + 1) (c :: cs) = numberTail? false (c :: cs) := by
  rw [readValue?, (beginsValue_of_isDigit hc).skipBlanks_cons]
  split
  case h_8 => rfl
  all_goals
    next hcons =>
      rw [(List.cons.inj hcons).1] at hc
      exact absurd hc (by decide)

/-- An integer is read as what its text is read as. -/
theorem readValue?_integerText (fuel : Nat) (n : Int) {rest : List Char} (hrest : EndsValue rest) :
    readValue? (fuel + 1) (integerText n ++ rest) = some (numberAsRead n, rest) := by
  rw [integerText]
  split
  next hneg =>
    rw [List.cons_append, readValue?, skipBlanks_cons (by decide)]
    have hread := @numberTail?_toDigits true n.natAbs (by omega) rest hrest
    rwa [if_pos rfl, Int.ofNat_natAbs_of_nonpos hneg.le, Int.neg_neg] at hread
  next hneg =>
    obtain ⟨c, tail, hcons, hc⟩ := exists_toDigits_eq_cons n.natAbs
    have hread := @numberTail?_toDigits false n.natAbs (by simp) rest hrest
    rw [hcons, List.cons_append] at hread ⊢
    rw [readValue?_of_isDigit hc, hread, if_neg (by decide), Int.natAbs_of_nonneg (by omega)]

/-! ### Strings -/

/-- Inside quotes a character is written **in one of three forms**: as a letter behind a backslash,
by the number of a control character, or as it is. -/
theorem escaped_cases (c : Char) :
    (∃ letter, escapeLetter? letter = some c ∧ escaped c = ['\\', letter]) ∨
    (c.toNat < 32 ∧
      escaped c = ['\\', 'u', '0', '0', hexDigit (c.toNat / 16), hexDigit c.toNat]) ∨
    (c ≠ '"' ∧ c ≠ '\\' ∧ ¬ c.toNat < 32 ∧ escaped c = [c]) := by
  rw [escaped]
  split_ifs with quote backslash backspace tab line page return_ control
  · exact .inl ⟨'"', by rw [quote]; rfl, rfl⟩
  · exact .inl ⟨'\\', by rw [backslash]; rfl, rfl⟩
  · exact .inl ⟨'b', by rw [backspace]; rfl, rfl⟩
  · exact .inl ⟨'t', by rw [tab]; rfl, rfl⟩
  · exact .inl ⟨'n', by rw [line]; rfl, rfl⟩
  · exact .inl ⟨'f', by rw [page]; rfl, rfl⟩
  · exact .inl ⟨'r', by rw [return_]; rfl, rfl⟩
  · exact .inr (.inl ⟨control, rfl⟩)
  · exact .inr (.inr ⟨quote, backslash, control, rfl⟩)

/-- Two hexadecimal digits behind two zeros are the number of a control character. -/
theorem hexQuad?_hexDigit {n : Nat} (hn : n < 32) :
    hexQuad? '0' '0' (hexDigit (n / 16)) (hexDigit n) = some n := by
  have hall : ∀ n < 32, hexQuad? '0' '0' (hexDigit (n / 16)) (hexDigit n) = some n := by decide
  exact hall n hn

/-- A character is read from any of its forms. -/
theorem stringTail?_escaped (c : Char) (cs : List Char) :
    stringTail? (escaped c ++ cs) = (stringTail? cs).map fun (s, left) => (c :: s, left) := by
  obtain ⟨letter, hletter, hform⟩ | ⟨hcontrol, hform⟩ | ⟨hquote, hbackslash, hplain, hform⟩ :=
    escaped_cases c
  · have hu : letter ≠ 'u' := by
      rintro rfl
      cases hletter
    rw [hform, List.cons_append, List.singleton_append, stringTail?, hletter]
    · cases stringTail? cs <;> rfl
    · exact fun _ _ _ _ _ h _ => hu h
  · have hlow : ¬ (0xD800 ≤ c.toNat ∧ c.toNat < 0xDC00) := by omega
    have hhigh : ¬ (0xDC00 ≤ c.toNat ∧ c.toNat < 0xE000) := by omega
    simp only [hform, List.cons_append, List.nil_append, stringTail?, hexQuad?_hexDigit hcontrol,
      Option.bind_eq_bind, Option.bind_some, if_neg hlow, if_neg hhigh, Char.ofNat_toNat]
    cases stringTail? cs <;> rfl
  · rw [hform, List.singleton_append, stringTail?]
    · rw [if_neg (by simp [hplain, hbackslash])]
      cases stringTail? cs <;> rfl
    · exact hquote
    · exact fun _ _ _ _ _ h _ => hbackslash h
    · exact fun _ _ h _ => hbackslash h

/-- A string is read **up to the quote that closes it**. -/
theorem stringTail?_flatMap_escaped (cs rest : List Char) :
    stringTail? (cs.flatMap escaped ++ '"' :: rest) = some (cs, rest) := by
  induction cs with
  | nil => rfl
  | cons c cs ih => rw [List.flatMap_cons, List.append_assoc, stringTail?_escaped, ih]; rfl

/-! ### Values without decimals -/

mutual

/-- A value with its **numbers replaced**. -/
def mapNumbers (f : Int → Json) (g : Decimal → Json) : Json → Json
  | null => null
  | boolean b => boolean b
  | integer n => f n
  | decimal d => g d
  | text s => text s
  | list items => list (mapItems f g items)
  | record fields => record (mapFields f g fields)

/-- The items of a list with their numbers replaced. -/
def mapItems (f : Int → Json) (g : Decimal → Json) : List Json → List Json
  | [] => []
  | item :: rest => mapNumbers f g item :: mapItems f g rest

/-- The fields of a record with their numbers replaced. -/
def mapFields (f : Int → Json) (g : Decimal → Json) :
    List (String × Json) → List (String × Json)
  | [] => []
  | (name, value) :: rest => (name, mapNumbers f g value) :: mapFields f g rest

end

/-- What the text of a value without decimals **is read as**. -/
def asRead (v : Json) : Json :=
  v.mapNumbers numberAsRead decimal

/-- A value **without decimals** whose integers all have a property. -/
inductive Integral (p : Int → Prop) : Json → Prop
  | null : Integral p null
  | boolean (b : Bool) : Integral p (boolean b)
  | integer {n : Int} (h : p n) : Integral p (integer n)
  | text (s : String) : Integral p (text s)
  | list {items : List Json} (h : ∀ item ∈ items, Integral p item) : Integral p (list items)
  | record {fields : List (String × Json)} (h : ∀ field ∈ fields, Integral p field.2) :
    Integral p (record fields)

namespace Integral

attribute [simp] null boolean text

variable {p : Int → Prop}

@[simp] theorem integer_iff {n : Int} : (Json.integer n).Integral p ↔ p n :=
  ⟨fun | integer h => h, integer⟩

@[simp] theorem list_iff {items : List Json} :
    (Json.list items).Integral p ↔ ∀ item ∈ items, item.Integral p :=
  ⟨fun | list h => h, list⟩

@[simp] theorem record_iff {fields : List (String × Json)} :
    (Json.record fields).Integral p ↔ ∀ field ∈ fields, field.2.Integral p :=
  ⟨fun | record h => h, record⟩

end Integral

/-! ### Reading values -/

/-- A field is read up to where its value ends, and what stands there decides how it goes on. -/
theorem readFields?_quoted {fuel : Nat} {name : String} {value : Json} {cs rest : List Char}
    (hread : readValue? fuel cs = some (value, rest)) :
    (∀ more, rest = ',' :: more → readFields? (fuel + 1) (quoted name ++ ':' :: cs) =
      (readFields? fuel more).map fun (fields, left) => ((name, value) :: fields, left)) ∧
    (∀ more, rest = '\x7d' :: more → readFields? (fuel + 1) (quoted name ++ ':' :: cs) =
      some ([(name, value)], more)) := by
  constructor <;> rintro more rfl <;>
    rw [readFields?, quoted, List.cons_append, List.append_assoc, List.singleton_append,
      skipBlanks_cons (by decide)] <;>
    simp only [stringTail?_flatMap_escaped, Option.bind_eq_bind, Option.bind_some, hread,
      String.ofList_toList, skipBlanks_cons (c := ':') (by decide),
      skipBlanks_cons (c := ',') (by decide), skipBlanks_cons (c := '\x7d') (by decide)]
  · cases readFields? fuel more <;> rfl
  · rfl

/-- Items follow one another after a comma. -/
theorem itemChars_cons_cons (item next : Json) (others : List Json) :
    itemChars (item :: next :: others) = item.chars ++ ',' :: itemChars (next :: others) :=
  rfl

/-- Fields follow one another after a comma. -/
theorem fieldChars_cons_cons (name : String) (value : Json) (next : String × Json)
    (others : List (String × Json)) :
    fieldChars ((name, value) :: next :: others) =
      quoted name ++ ':' :: (value.chars ++ ',' :: fieldChars (next :: others)) :=
  rfl

/-- A value **is read back** from its text, whatever ends a value may follow, and no more values
are opened than there are characters. -/
structure ReadsBack (v : Json) : Prop where
  begins : ∃ c tail, v.chars = c :: tail ∧ BeginsValue c
  reads : ∀ fuel rest, v.chars.length ≤ fuel → EndsValue rest →
    readValue? fuel (v.chars ++ rest) = some (v.asRead, rest)

namespace ReadsBack

/-- The first character of a text opens its value. -/
theorem of_cons {v : Json} {c : Char} {tail : List Char} (hchars : v.chars = c :: tail)
    (hc : BeginsValue c)
    (hread : ∀ fuel rest, tail.length ≤ fuel → EndsValue rest →
      readValue? (fuel + 1) (c :: (tail ++ rest)) = some (v.asRead, rest)) :
    ReadsBack v where
  begins := ⟨c, tail, hchars, hc⟩
  reads := by
    rw [hchars]
    rintro (_ | fuel) rest hfuel hrest
    · exact absurd hfuel (by simp)
    · exact hread fuel rest (by simpa using hfuel) hrest

/-- The value `null` is read back. -/
theorem null : ReadsBack null :=
  .of_cons rfl (by decide) fun _ _ _ _ => rfl

/-- A truth value is read back. -/
theorem boolean (b : Bool) : ReadsBack (boolean b) := by
  cases b with
  | true => exact .of_cons rfl (by decide) fun _ _ _ _ => rfl
  | false => exact .of_cons rfl (by decide) fun _ _ _ _ => rfl

/-- A string is read back. -/
theorem text (s : String) : ReadsBack (text s) := by
  refine .of_cons rfl (by decide) fun fuel rest _ _ => ?_
  rw [readValue?, skipBlanks_cons (by decide), List.append_assoc]
  simp only [List.singleton_append, stringTail?_flatMap_escaped, Option.bind_eq_bind,
    Option.bind_some, String.ofList_toList]
  rfl

/-- An integer is read back, possibly as a decimal. -/
theorem integer (n : Int) : ReadsBack (integer n) := by
  obtain ⟨c, tail, hcons, hdigit⟩ := exists_toDigits_eq_cons n.natAbs
  have hbegins : ∃ c tail, integerText n = c :: tail ∧ BeginsValue c := by
    rw [integerText]
    split
    · exact ⟨_, _, rfl, by decide⟩
    · exact ⟨_, _, hcons, beginsValue_of_isDigit hdigit⟩
  obtain ⟨c, tail, hchars, hc⟩ := hbegins
  refine .of_cons hchars hc fun fuel rest _ hrest => ?_
  rw [← List.cons_append, ← hchars, readValue?_integerText fuel n hrest]
  rfl

/-- Items that are read back one by one are read back **in a row**. -/
theorem items {items : List Json} (hne : items ≠ []) (hitems : ∀ item ∈ items, ReadsBack item)
    {fuel : Nat} (hfuel : (itemChars items).length < fuel) (rest : List Char) :
    readItems? fuel (itemChars items ++ ']' :: rest) =
      some (mapItems numberAsRead decimal items, rest) := by
  induction items generalizing fuel with
  | nil => exact absurd rfl hne
  | cons item others ih =>
      obtain ⟨hitem, hothers⟩ := List.forall_mem_cons.mp hitems
      obtain _ | fuel := fuel
      · exact absurd hfuel (by simp)
      · cases others with
        | nil =>
            have hread := hitem.reads fuel (']' :: rest) (Nat.le_of_lt_succ hfuel) (.bracket rest)
            rw [readItems?, itemChars, hread]
            rfl
        | cons next others =>
            have hlength : item.chars.length ≤ fuel ∧
                (itemChars (next :: others)).length < fuel := by
              simp only [itemChars, List.length_append, List.length_cons] at hfuel
              constructor <;> omega
            have hread := hitem.reads fuel (',' :: (itemChars (next :: others) ++ ']' :: rest))
              hlength.1 (.comma _)
            have hrow := ih (by simp) hothers hlength.2
            rw [readItems?, itemChars_cons_cons, List.append_assoc, List.cons_append, hread]
            simp only [Option.bind_eq_bind, Option.bind_some,
              skipBlanks_cons (c := ',') (by decide), hrow]
            rfl

/-- A list of values that are read back is read back. -/
theorem list {items : List Json} (hitems : ∀ item ∈ items, ReadsBack item) :
    ReadsBack (list items) := by
  refine .of_cons rfl (by decide) fun fuel rest hfuel _ => ?_
  rw [readValue?, skipBlanks_cons (by decide), List.append_assoc, List.singleton_append]
  cases items with
  | nil => rfl
  | cons item others =>
      have hlength : (itemChars (item :: others)).length < fuel := by
        rw [List.length_append, List.length_singleton] at hfuel
        omega
      have hrow := ReadsBack.items (List.cons_ne_nil item others) hitems hlength rest
      obtain ⟨c, tail, hc, hbegins⟩ := (hitems item List.mem_cons_self).begins
      obtain ⟨more, hmore⟩ : ∃ more, itemChars (item :: others) ++ ']' :: rest = c :: more := by
        cases others <;> simp [itemChars, hc]
      rw [hmore] at hrow ⊢
      simp only [hbegins.skipBlanks_cons]
      split
      next hclose =>
        rw [(List.cons.inj hclose).1] at hbegins
        exact absurd hbegins (by decide)
      next =>
        rw [hrow]
        rfl

/-- Fields whose values are read back one by one are read back **in a row**. -/
theorem fields {fields : List (String × Json)} (hne : fields ≠ [])
    (hfields : ∀ field ∈ fields, ReadsBack field.2) {fuel : Nat}
    (hfuel : (fieldChars fields).length < fuel) (rest : List Char) :
    readFields? fuel (fieldChars fields ++ '\x7d' :: rest) =
      some (mapFields numberAsRead decimal fields, rest) := by
  induction fields generalizing fuel with
  | nil => exact absurd rfl hne
  | cons field others ih =>
      obtain ⟨name, value⟩ := field
      obtain ⟨hvalue, hothers⟩ := List.forall_mem_cons.mp hfields
      obtain _ | fuel := fuel
      · exact absurd hfuel (by simp)
      · cases others with
        | nil =>
            have hlength : value.chars.length ≤ fuel := by
              simp only [fieldChars, List.length_append, List.length_cons] at hfuel
              omega
            have hread := hvalue.reads fuel ('\x7d' :: rest) hlength (.brace rest)
            rw [fieldChars, List.append_assoc, List.cons_append,
              (readFields?_quoted hread).2 _ rfl]
            rfl
        | cons next others =>
            have hlength : value.chars.length ≤ fuel ∧
                (fieldChars (next :: others)).length < fuel := by
              simp only [fieldChars_cons_cons, List.length_append, List.length_cons] at hfuel
              constructor <;> omega
            have hread := hvalue.reads fuel
              (',' :: (fieldChars (next :: others) ++ '\x7d' :: rest)) hlength.1
              (.comma _)
            have hrow := ih (by simp) hothers hlength.2
            rw [fieldChars_cons_cons, List.append_assoc, List.cons_append, List.append_assoc,
              List.cons_append, (readFields?_quoted hread).1 _ rfl, hrow]
            rfl

/-- A record of values that are read back is read back. -/
theorem record {fields : List (String × Json)} (hfields : ∀ field ∈ fields, ReadsBack field.2) :
    ReadsBack (record fields) := by
  refine .of_cons rfl (by decide) fun fuel rest hfuel _ => ?_
  rw [readValue?, skipBlanks_cons (by decide), List.append_assoc, List.singleton_append]
  cases fields with
  | nil => rfl
  | cons field others =>
      have hlength : (fieldChars (field :: others)).length < fuel := by
        rw [List.length_append, List.length_singleton] at hfuel
        omega
      have hrow := ReadsBack.fields (List.cons_ne_nil field others) hfields hlength rest
      obtain ⟨more, hmore⟩ : ∃ more, fieldChars (field :: others) ++ '\x7d' :: rest =
          '"' :: more := by
        cases others <;> simp [fieldChars, quoted]
      rw [hmore] at hrow ⊢
      simp only [skipBlanks_cons (c := '"') (by decide)]
      split
      next hclose => cases hclose
      next =>
        rw [hrow]
        rfl

end ReadsBack

/-- Every value without decimals is read back. -/
theorem Integral.readsBack {p : Int → Prop} {v : Json} (hv : v.Integral p) : v.ReadsBack := by
  induction hv with
  | null => exact .null
  | boolean b => exact .boolean b
  | integer h => exact .integer _
  | text s => exact .text s
  | list _ ih => exact .list ih
  | record _ ih => exact .record ih

/-- **The text of a value without decimals is one JSON text**, which is read as the value. -/
theorem read?_render {p : Int → Prop} {v : Json} (hv : v.Integral p) :
    read? v.render = some v.asRead := by
  have hread := hv.readsBack.reads (v.chars.length + 1) [] (Nat.le_succ _) .nil
  rw [List.append_nil] at hread
  rw [read?, render, String.toList_ofList, hread]
  rfl

/-! ### What is lost -/

section Numbers

variable {f h : Int → Json} {g k : Decimal → Json} {p : Int → Prop}

/-- Items are taken one by one. -/
theorem mapItems_eq_map (items : List Json) : mapItems f g items = items.map (mapNumbers f g) := by
  induction items with
  | nil => rfl
  | cons item rest ih => rw [mapItems, ih, List.map_cons]

/-- Fields keep their names, and their values are taken one by one. -/
theorem mapFields_eq_map (fields : List (String × Json)) :
    mapFields f g fields = fields.map fun field => (field.1, mapNumbers f g field.2) := by
  induction fields with
  | nil => rfl
  | cons field rest ih => rw [mapFields, ih, List.map_cons]

mutual

/-- Numbers that are replaced twice are replaced once by what the second replacement makes of the
first one. -/
theorem mapNumbers_comp : ∀ v, mapNumbers h k (mapNumbers f g v) =
    mapNumbers (fun n => mapNumbers h k (f n)) (fun d => mapNumbers h k (g d)) v
  | null => rfl
  | boolean _ => rfl
  | integer _ => rfl
  | decimal _ => rfl
  | text _ => rfl
  | list items => congrArg list (mapItems_comp items)
  | record fields => congrArg record (mapFields_comp fields)

/-- Numbers in a list that are replaced twice. -/
theorem mapItems_comp : ∀ items, mapItems h k (mapItems f g items) =
    mapItems (fun n => mapNumbers h k (f n)) (fun d => mapNumbers h k (g d)) items
  | [] => rfl
  | item :: rest => congrArg₂ List.cons (mapNumbers_comp item) (mapItems_comp rest)

/-- Numbers in a record that are replaced twice. -/
theorem mapFields_comp : ∀ fields, mapFields h k (mapFields f g fields) =
    mapFields (fun n => mapNumbers h k (f n)) (fun d => mapNumbers h k (g d)) fields
  | [] => rfl
  | (name, value) :: rest =>
    congrArg₂ (fun value rest => (name, value) :: rest) (mapNumbers_comp value)
      (mapFields_comp rest)

end

/-- A replacement that keeps the integers of a value keeps the value. -/
theorem mapNumbers_eq_self (hkeep : ∀ n, p n → f n = integer n) {v : Json}
    (hv : v.Integral p) : mapNumbers f g v = v := by
  induction hv with
  | null => rfl
  | boolean b => rfl
  | integer hn => exact hkeep _ hn
  | text s => rfl
  | @list items _ ih =>
      rw [mapNumbers, mapItems_eq_map]
      exact congrArg list ((List.map_congr_left ih).trans (List.map_id' items))
  | @record fields _ ih =>
      have hfields : ∀ field ∈ fields, (field.1, mapNumbers f g field.2) = field :=
        fun field hfield => Prod.ext rfl (ih field hfield)
      rw [mapNumbers, mapFields_eq_map]
      exact congrArg record ((List.map_congr_left hfields).trans (List.map_id' fields))

end Numbers

/-- Nothing is lost of integers that words hold. -/
theorem asRead_of_inWord {v : Json} (hv : v.Integral InWord) : v.asRead = v :=
  mapNumbers_eq_self (fun _ hn => if_pos hn) hv

/-- A value whose integers words hold is **read back as it is**. -/
theorem read?_render_of_inWord {v : Json} (hv : v.Integral InWord) :
    read? v.render = some v := by
  rw [read?_render hv, asRead_of_inWord hv]

/-- The integer that a decimal without places is. -/
def wholeNumber (d : Decimal) : Json :=
  integer (if d.negative then -d.coefficient else d.coefficient)

/-- What an integer was written as is known from what it is read as. -/
theorem mapNumbers_numberAsRead (n : Int) :
    mapNumbers integer wholeNumber (numberAsRead n) = integer n := by
  rw [numberAsRead]
  split
  · rfl
  · rw [mapNumbers, wholeNumber]
    congr 1
    simp only [decide_eq_true_eq]
    omega

/-- The text of a value without decimals **determines the value**. -/
theorem eq_of_render_eq {p : Int → Prop} {v w : Json} (hv : v.Integral p) (hw : w.Integral p)
    (h : v.render = w.render) : v = w := by
  have hread : v.asRead = w.asRead := by
    rw [← Option.some_inj, ← read?_render hv, ← read?_render hw, h]
  have hback : ∀ {p : Int → Prop} {v : Json}, v.Integral p →
      v.asRead.mapNumbers integer wholeNumber = v := by
    intro p v hv
    rw [asRead, mapNumbers_comp, mapNumbers_eq_self (fun n _ => mapNumbers_numberAsRead n) hv]
  rw [← hback hv, hread, hback hw]

end Json

end LatticeObservables
