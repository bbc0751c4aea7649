/-!
# Complex Values over a Scalar Type

Measured values are complex numbers. Everything that is computed from them is written over
a type of scalars (`Scalar`), so that one text serves both the doubles that a run computes
with and the exact numbers that statements are made about. The operations on complex values
act on the two parts separately and in a fixed order, which is what makes results over
doubles reproducible to the last bit.
-/

namespace LatticeObservables

/-- A type of **scalars**: the operations of a field, decimals such as `0.25`, counts, and
what is needed to judge the size of a number. `larger` prefers a number to what is not
one. -/
class Scalar (R : Type) extends Add R, Sub R, Mul R, Div R, Neg R, OfScientific R where
  ofCount : Nat → R
  sqrt : R → R
  magnitude : R → R
  larger : R → R → R
  atMost : R → R → Bool

/-- Doubles as scalars. -/
instance instScalarFloat : Scalar Float where
  ofCount n := n.toUInt64.toFloat
  sqrt := Float.sqrt
  magnitude := Float.abs
  larger a b := if a.isNaN then b else if b.isNaN then a else if a < b then b else a
  atMost a b := a ≤ b

/-- A **complex value**. -/
structure Complex (R : Type) where
  re : R
  im : R
  deriving DecidableEq

namespace Complex

variable {R : Type} [Scalar R]

/-- The value zero. -/
def zero : Complex R :=
  ⟨0.0, 0.0⟩

/-- The sum, part by part. -/
instance : Add (Complex R) where
  add z w := ⟨z.re + w.re, z.im + w.im⟩

/-- The difference, part by part. -/
instance : Sub (Complex R) where
  sub z w := ⟨z.re - w.re, z.im - w.im⟩

/-- The multiple by a scalar, part by part. -/
instance : HMul R (Complex R) (Complex R) where
  hMul a z := ⟨a * z.re, a * z.im⟩

/-- The quotient by a scalar, part by part. -/
instance : HDiv (Complex R) R (Complex R) where
  hDiv z a := ⟨z.re / a, z.im / a⟩

/-- The complex conjugate. -/
def conj (z : Complex R) : Complex R :=
  ⟨z.re, -z.im⟩

/-- The value plus its conjugate. -/
def addConj (z : Complex R) : Complex R :=
  z + z.conj

/-- The square of the absolute value. -/
def normSq (z : Complex R) : R :=
  z.re * z.re + z.im * z.im

/-- The sum of a list from left to right, starting from zero. -/
def sum (zs : List (Complex R)) : Complex R :=
  zs.foldl (· + ·) zero

/-- Whether the imaginary part is negligible: at most `1e-8` times the larger of one and
the size of the real part. -/
def isReal (z : Complex R) : Bool :=
  Scalar.atMost (Scalar.magnitude (z.im - 0.0))
    (1e-8 * Scalar.larger (Scalar.magnitude z.re) 1.0)

end Complex

end LatticeObservables
