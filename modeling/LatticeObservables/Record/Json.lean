import LatticeObservables.Decimal

/-!
# JSON Values and Their Text

The data of JSON with the two kinds of number kept apart: an integer is a number written
without point and power that fits a 64-bit word, signed or not, and every other number is a
decimal. `Json.render` writes a value without blanks, the fields of a record in their
order.
-/

namespace LatticeObservables

/-- A **JSON value**. -/
inductive Json
  | null
  | boolean (value : Bool)
  | integer (value : Int)
  | decimal (value : Decimal)
  | text (value : String)
  | list (items : List Json)
  | record (fields : List (String × Json))

namespace Json

/-- The layout of decimals in JSON: digits in their places from `0.00001` up to sixteen
digits before the point, and a whole number keeps a point. A value midway between two
shortest decimals goes to the even one. -/
def numberLayout : Layout where
  tie := .toEven
  placed := fun p => -5 < p && p ≤ 16
  wholeTail := ['.', '0']

/-- A double as a JSON value. Infinities and values that are no number have none and
become `null`. -/
def ofFloat (x : Float) : Json :=
  match Decimal.shortest? numberLayout.tie x with
  | some d => decimal d
  | none => null

/-- A natural number as a JSON value. -/
def ofNat (n : Nat) : Json :=
  integer n

/-- An optional value: `null` when it is absent. -/
def ofOption {α : Type} (encode : α → Json) : Option α → Json
  | none => null
  | some a => encode a

/-! ### Text -/

/-- The last hexadecimal digit of a number. -/
def hexDigit (n : Nat) : Char :=
  Nat.digitChar (n % 16)

/-- A character inside quotes: the quote, the backslash and the control characters are
written as escapes. -/
def escaped (c : Char) : List Char :=
  if c = '"' then ['\\', '"']
  else if c = '\\' then ['\\', '\\']
  else if c = '\x08' then ['\\', 'b']
  else if c = '\t' then ['\\', 't']
  else if c = '\n' then ['\\', 'n']
  else if c = '\x0c' then ['\\', 'f']
  else if c = '\r' then ['\\', 'r']
  else if c.toNat < 32 then ['\\', 'u', '0', '0', hexDigit (c.toNat / 16), hexDigit c.toNat]
  else [c]

/-- A string in quotes. -/
def quoted (s : String) : List Char :=
  '"' :: (s.toList.flatMap escaped ++ ['"'])

/-- The digits of an integer, after a minus sign if it is negative. -/
def integerText (n : Int) : List Char :=
  if n < 0 then '-' :: Nat.toDigits 10 n.natAbs else Nat.toDigits 10 n.natAbs

mutual

/-- The characters of a value, without blanks. -/
def chars : Json → List Char
  | null => ['n', 'u', 'l', 'l']
  | boolean true => ['t', 'r', 'u', 'e']
  | boolean false => ['f', 'a', 'l', 's', 'e']
  | integer n => integerText n
  | decimal d => numberLayout.write d
  | text s => quoted s
  | list items => '[' :: (itemChars items ++ [']'])
  | record fields => '\x7b' :: (fieldChars fields ++ ['\x7d'])

/-- The characters of the items of a list, commas between them. -/
def itemChars : List Json → List Char
  | [] => []
  | [item] => chars item
  | item :: rest => chars item ++ ',' :: itemChars rest

/-- The characters of the fields of a record, commas between them. -/
def fieldChars : List (String × Json) → List Char
  | [] => []
  | [(name, value)] => quoted name ++ ':' :: chars value
  | (name, value) :: rest => quoted name ++ ':' :: (chars value ++ ',' :: fieldChars rest)

end

/-- The **text** of a value. -/
def render (value : Json) : String :=
  String.ofList value.chars

end Json

end LatticeObservables
