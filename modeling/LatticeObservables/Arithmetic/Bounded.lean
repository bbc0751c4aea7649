/-!
# Arithmetic in Bounded Words

Integers in two's complement words of a given number of bits. `Fits` says which integers a
word holds, `bounded` lets such an integer pass and reports every other one, and
`signedReading` is the integer that a 64-bit pattern stands for. Sums, differences and whole
parts of fractions are computed through every integer that a common denominator brings with
it, each of them checked (`Fraction.combine`, `Fraction.wholePart`), so that the outcome says
whether the words were wide enough.
-/

namespace LatticeObservables

/-- What can stop a computation in bounded words. -/
inductive Fault
  | divisionByZero
  | overflow
  deriving DecidableEq

/-- The power of two with an exponent; there are `twoPower bits` words of `bits` bits. -/
def twoPower (exponent : Nat) : Nat :=
  Nat.pow 2 exponent

/-- The integers of a word of `bits` bits. -/
def Fits (bits : Nat) (n : Int) : Prop :=
  -(twoPower (bits - 1) : Int) ≤ n ∧ n < twoPower (bits - 1)

instance (bits : Nat) (n : Int) : Decidable (Fits bits n) :=
  inferInstanceAs (Decidable (_ ∧ _))

/-- An integer that has to fit a word of `bits` bits. -/
def bounded (bits : Nat) (n : Int) : Except Fault Int :=
  if Fits bits n then .ok n else .error .overflow

/-- The signed integer of a 64-bit pattern: the upper half of the patterns is negative. -/
def signedReading (pattern : Nat) : Int :=
  Int.bmod pattern (twoPower 64)

/-- Quotient and remainder with `0 ≤ remainder`, where the quotient has to fit a word of
64 bits. -/
def euclideanDivision (n d : Int) : Except Fault (Int × Int) :=
  if d = 0 then .error .divisionByZero
  else do
    let quotient ← bounded 64 (n / d)
    return (quotient, n % d)

namespace Fraction

/-- The fraction `n / d` in lowest terms with a positive denominator, both parts of which
have to fit words of 64 bits. -/
def ofParts (n d : Int) : Except Fault Rat :=
  if d = 0 then .error .divisionByZero
  else
    let reduced := Rat.divInt n d
    if Fits 64 reduced.num ∧ Fits 64 reduced.den then .ok reduced else .error .overflow

/-- The fraction whose numerator is `op` of the numerators of `a` and `b` over their least
common denominator. The common denominator, both scaled numerators and the result have to
fit words of `bits` bits. -/
def combine (bits : Nat) (op : Int → Int → Int) (a b : Rat) : Except Fault Rat :=
  if a.den = b.den then do
    let n ← bounded bits (op a.num b.num)
    return mkRat n a.den
  else do
    let common := Nat.lcm a.den b.den
    let _ ← bounded bits common
    let left ← bounded bits (a.num * (common / a.den))
    let right ← bounded bits (b.num * (common / b.den))
    let n ← bounded bits (op left right)
    return mkRat n common

/-- The largest integer not above `a`. Below zero it is the quotient, cut off towards zero,
of the numerator lowered by one less than the denominator. -/
def wholePart (bits : Nat) (a : Rat) : Except Fault Int :=
  if a < 0 then do
    let lowered ← bounded bits (a.num - a.den)
    let lowered ← bounded bits (lowered + 1)
    return lowered.tdiv a.den
  else
    return a.num.tdiv a.den

/-- What is left of `a` above its whole part. -/
def fractionalPart (bits : Nat) (a : Rat) : Except Fault Rat := do
  let whole ← wholePart bits a
  combine bits (· - ·) a whole

/-- The text of a fraction; the denominator of a whole number is left out. -/
def text (a : Rat) : String :=
  if a.den = 1 then toString a.num else toString a.num ++ "/" ++ toString a.den

end Fraction

end LatticeObservables
