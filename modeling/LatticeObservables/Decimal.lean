import LatticeObservables.Arithmetic.Bounded

/-!
# Decimals of Doubles

How doubles are written as decimals and read from them, in exact arithmetic, so that nothing here
depends on how numbers are rounded elsewhere.

* A finite double is a sign and a size `significand * 2 ^ exponent`. The size is read from the
  bits of the double (`Binary.ofFloat?`) and written to them (`Binary.toFloat`), and the double
  nearest to a quotient of natural numbers is found by comparing natural numbers
  (`nearestDouble`).
* A decimal is a sign, a coefficient and a power of ten. It stands for the nearest double
  (`Decimal.toFloat`), and is written with every digit in its place (`Decimal.positional`) or
  with one digit before the point and a power of ten (`Decimal.scientific`).
* The reals that round to a double other than zero form an interval around it
  (`Binary.interval`). The shortest decimal of the double is found on the coarsest grid of
  powers of ten that meets this interval: of the at most two multiples next to the double that
  lie in it, the nearer one. A double midway between two such multiples is the only freedom
  left, and `Tie` says how it is used.
* A layout fixes what a format leaves open about the text of a number: which of two equally
  near decimals is meant, which sizes are written with every digit in its place, and what
  follows a whole number (`Layout.write`, `Layout.double?`). Digits that are asked for up to a
  fixed place instead of up to the last significant one are given by `fixedPlaces`.
-/

namespace LatticeObservables

/-! ### Binary fractions -/

/-- A **binary value** `significand * 2 ^ exponent`, the size of a finite double. -/
structure Binary where
  significand : Nat
  exponent : Int
  deriving DecidableEq

/-- The power `base ^ e` where `e` is positive, and one otherwise; a quotient of two such
powers is `base ^ e` for either sign. -/
def wholePower (base : Nat) (e : Int) : Nat :=
  Nat.pow base e.toNat

/-- The quotient rounded to the nearest natural number, a half to the even neighbour. -/
def nearestQuotient (n d : Nat) : Nat :=
  let q := n / d
  let r := n % d
  if 2 * r < d then q else if d < 2 * r then q + 1 else if q % 2 = 0 then q else q + 1

namespace Binary

/-- The size of a finite double, read from its bits; `none` for an infinity and for a
value that is not a number. -/
def ofFloat? (x : Float) : Option Binary :=
  let bits : Nat := x.toBits.toNat
  let fraction : Nat := bits % twoPower 52
  let power : Nat := bits / twoPower 52 % twoPower 11
  if power = 2047 then none
  else if power = 0 then some ⟨fraction, -1074⟩
  else some ⟨twoPower 52 + fraction, (power : Int) - 1075⟩

/-- The double of this size, which has at most 53 bits and, unless its exponent is the least
one, no fewer. A size that is too large becomes infinity. -/
def toFloat (b : Binary) : Float :=
  let bits :=
    if b.significand < twoPower 52 then b.significand
    else
      let power := (b.exponent + 1075).toNat
      if 2047 ≤ power then 2047 * twoPower 52
      else power * twoPower 52 + (b.significand - twoPower 52)
  Float.ofBits bits.toUInt64

/-- Ends of the interval of reals that round to the value, as multiples of
`2 ^ (exponent - 2)`. The neighbour below a power of two is only half as far away, except
at the bottom of the range. -/
def interval (b : Binary) : Nat × Nat :=
  let below := if b.significand = twoPower 52 ∧ -1074 < b.exponent then 1 else 2
  (4 * b.significand - below, 4 * b.significand + 2)

/-- The multiple of `2 ^ exponent` nearest to `n / d`. -/
def onGrid (n d : Nat) (exponent : Int) : Nat :=
  nearestQuotient (n * wholePower 2 (-exponent)) (d * wholePower 2 exponent)

/-- The binary value nearest to `n / d`, which is not zero. -/
def nearest (n d : Nat) : Binary :=
  -- `n / d` lies between the powers of two next to that with this exponent.
  let size : Int := (n.log2 : Int) - d.log2
  let isBelow := n * wholePower 2 (-size) < d * wholePower 2 size
  let exponent := max (size - 52 - if isBelow then 1 else 0) (-1074)
  let significand := onGrid n d exponent
  if significand = twoPower 53 then ⟨twoPower 52, exponent + 1⟩ else ⟨significand, exponent⟩

end Binary

/-- The **nearest double** to the quotient `n / d`. -/
def nearestDouble (n d : Nat) : Float :=
  if n = 0 then 0.0 else (Binary.nearest n d).toFloat

/-! ### Decimals -/

/-- The **decimal** `± coefficient * 10 ^ exponent`. -/
structure Decimal where
  negative : Bool
  coefficient : Nat
  exponent : Int
  deriving DecidableEq

namespace Decimal

/-- The decimal digits of the coefficient, most significant first. -/
def digits (d : Decimal) : List Char :=
  Nat.toDigits 10 d.coefficient

/-- The number of digits before the decimal point when every digit is written in its
place; negative when zeros follow the point. -/
def pointPosition (d : Decimal) : Int :=
  d.digits.length + d.exponent

/-- The double nearest to a decimal; the sign survives on a zero. Zeros and sizes far outside
the range of doubles are not computed with. -/
def toFloat (d : Decimal) : Float :=
  let size :=
    if d.coefficient = 0 ∨ d.pointPosition < -400 then 0.0
    else if 400 < d.pointPosition then 1.0 / 0.0
    else nearestDouble (d.coefficient * wholePower 10 d.exponent) (wholePower 10 (-d.exponent))
  if d.negative then -size else size

/-- The digits in their places, without a sign. A whole number is followed by `tail`. -/
def positional (d : Decimal) (tail : List Char) : List Char :=
  let digits := d.digits
  if 0 ≤ d.exponent then
    digits ++ List.replicate d.exponent.toNat '0' ++ tail
  else if 0 < d.pointPosition then
    let whole := d.pointPosition.toNat
    digits.take whole ++ '.' :: digits.drop whole
  else
    '0' :: '.' :: (List.replicate (-d.pointPosition).toNat '0' ++ digits)

/-- One digit, the point and the other digits, and the power of ten with its sign. -/
def scientific (d : Decimal) : List Char :=
  let mantissa :=
    match d.digits with
    | [] => ['0']
    | [c] => [c]
    | c :: rest => c :: '.' :: rest
  let power := d.pointPosition - 1
  mantissa ++ 'e' :: (if power < 0 then '-' else '+') :: Nat.toDigits 10 power.natAbs

end Decimal

/-! ### The shortest decimal -/

/-- What to do with a value midway between two decimals of the same length. -/
inductive Tie
  | toEven
  | up
  deriving DecidableEq

namespace Decimal

/-- The multiple of `10 ^ e` nearest to `b` among those that round to `b`, if there is one,
as the factor of `10 ^ e`. -/
def onGrid (tie : Tie) (b : Binary) (e : Int) : Option Nat :=
  -- In units of `2 ^ (exponent - 2)` the value is `4 * significand`, and one step of the
  -- grid is `step / scale`.
  let step := wholePower 10 e * wholePower 2 (2 - b.exponent)
  let scale := wholePower 10 (-e) * wholePower 2 (b.exponent - 2)
  let value := 4 * b.significand * scale
  let (low, high) := b.interval
  let inside (n : Nat) : Bool :=
    if b.significand % 2 = 0 then
      low * scale ≤ n * step && n * step ≤ high * scale
    else
      low * scale < n * step && n * step < high * scale
  let n := value / step
  let down := value - n * step
  let up := (n + 1) * step - value
  match inside n, inside (n + 1) with
  | false, false => none
  | true, false => some n
  | false, true => some (n + 1)
  | true, true =>
    if down < up then some n
    else if up < down then some (n + 1)
    else match tie with
      | .toEven => some (if n % 2 = 0 then n else n + 1)
      | .up => some (n + 1)

/-- The coarsest grid at or below `10 ^ top` with a multiple that rounds to `b`, among the
next `count` grids. -/
def coarsestGrid (tie : Tie) (b : Binary) : Nat → Int → Option (Nat × Int)
  | 0, _ => none
  | count + 1, top =>
    match onGrid tie b top with
    | some n => some (n, top)
    | none => coarsestGrid tie b count (top - 1)

/-- The **shortest decimal** that reads back as the double `x`; `none` if `x` is not
finite. Every double is a multiple of `10 ^ (-1074)`, so the search over the grids from
`10 ^ 309` down to there always ends with a hit. A hit is no multiple of ten, since the
next coarser grid would have had it. -/
def shortest? (tie : Tie) (x : Float) : Option Decimal := do
  let negative := decide (twoPower 63 ≤ x.toBits.toNat)
  let b ← Binary.ofFloat? x
  if b.significand = 0 then
    return ⟨negative, 0, 0⟩
  let (n, e) ← coarsestGrid tie b 1384 309
  return ⟨negative, n, e⟩

end Decimal

/-! ### Layouts -/

/-- A **layout** of decimal numbers. `placed p` says whether a number with `p` digits before
the point is written with every digit in its place, and `wholeTail` is written after whole
numbers. -/
structure Layout where
  tie : Tie
  placed : Int → Bool
  wholeTail : List Char

namespace Layout

/-- The text of a decimal in a layout. -/
def write (layout : Layout) (d : Decimal) : List Char :=
  let size :=
    if layout.placed d.pointPosition then d.positional layout.wholeTail else d.scientific
  if d.negative then '-' :: size else size

/-- The shortest text of a finite double in a layout. -/
def double? (layout : Layout) (x : Float) : Option (List Char) :=
  (Decimal.shortest? layout.tie x).map layout.write

/-- The layout of **plain numbers**: every digit in its place, and whole numbers without a
point. -/
def plain : Layout where
  tie := .up
  placed := fun _ => true
  wholeTail := []

end Layout

/-- The text of a double as a plain number, with names for the values that have no
digits. -/
def plainText (x : Float) : String :=
  match Layout.plain.double? x with
  | some text => String.ofList text
  | none => if x.isNaN then "NaN" else if x < 0 then "-inf" else "inf"

/-- The text of a finite non-negative double with `places` digits after the point, rounded
from its exact value. -/
def fixedPlaces (places : Nat) (x : Float) : String :=
  match Binary.ofFloat? x with
  | none => plainText x
  | some b =>
    let scaled := nearestQuotient
      (b.significand * wholePower 2 b.exponent * wholePower 10 places)
      (wholePower 2 (-b.exponent))
    let digits := Nat.toDigits 10 scaled
    let padded := List.replicate (places + 1 - digits.length) '0' ++ digits
    let whole := padded.length - places
    String.ofList (padded.take whole ++ '.' :: padded.drop whole)

end LatticeObservables
