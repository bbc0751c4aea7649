import LatticeObservables.Collection.OrderedMap
import LatticeObservables.Decimal
import LatticeObservables.Evaluation.Complex
import LatticeObservables.Operator.Composite

/-!
# Evaluating Observables

A measurement context holds the measured value of each basic operator, and the value of an
observable is put together from those (`Observable.evaluate`). The measurements are read in
a fixed order, and the first one that is missing is reported. Three things can be missing or
wrong, and `EvaluationError` names them. A value that should be real and is not is shown
with its digits in full (`complexText`).

The t-J-K Hamiltonian is evaluated in two steps. Its measured terms depend on no parameter
(`EnergyTerms`); the energy weighs them by couplings (`EnergyTerms.energy`), so that one
measurement serves any number of couplings. The couplings along the second dimension, `tperp`
and `Jperp`, are those along the first one unless they are given.
-/

namespace LatticeObservables

/-! ### Measured values -/

/-- The **measured values** of basic operators. -/
abbrev MeasurementContext (R : Type) := OrderedMap BasicOperator (Complex R)

/-- Why an observable **has no value**. -/
inductive EvaluationError (R : Type)
  | missingMeasurement (operator : BasicOperator)
  | notReal (value : Complex R)
  | missingCoupling (name : String)
  deriving DecidableEq

/-- The measured value of a basic operator. -/
def MeasurementContext.read {R : Type} (context : MeasurementContext R) (o : BasicOperator) :
    Except (EvaluationError R) (Complex R) :=
  match context.get? o with
  | some value => .ok value
  | none => .error (.missingMeasurement o)

/-- The text of a complex double: both parts as plain numbers, the sign of the imaginary
part between them. -/
def complexText (z : Complex Float) : String :=
  let part (x : Float) : String := plainText (if x < 0 then 0.0 - x else x)
  (if z.re < 0 then "-" else "") ++ part z.re ++ (if z.im < 0 then "-" else "+") ++
    part z.im ++ "i"

/-- The wording of a reason. -/
def EvaluationError.message : EvaluationError Float → String
  | .missingMeasurement o => "no measurement for basic operator " ++ o.text
  | .notReal value => "expected a real value, found " ++ complexText value
  | .missingCoupling name => "missing coupling parameter '" ++ name ++ "'"

/-! ### Couplings and energy -/

/-- The **couplings** of a Hamiltonian, each of which may be left open. -/
structure Couplings (R : Type) where
  t : Option R := none
  tperp : Option R := none
  J : Option R := none
  Jperp : Option R := none
  K : Option R := none
  deriving DecidableEq

/-- The measured **terms** of a t-J-K Hamiltonian and its divisors. -/
structure EnergyTerms (R : Type) where
  greenX : Complex R
  greenY : Complex R
  spinSpinX : Complex R
  spinSpinY : Complex R
  ringExchange : Complex R
  divX : R
  divY : R
  deriving DecidableEq

/-- What an observable **evaluates** to: a value, or terms to be weighed by couplings. -/
inductive Evaluation (R : Type)
  | value (value : Complex R)
  | terms (terms : EnergyTerms R)
  deriving DecidableEq

variable {R : Type}

/-- A coupling that has to be given. -/
def required (name : String) : Option R → Except (EvaluationError R) R
  | some value => .ok value
  | none => .error (.missingCoupling name)

variable [Scalar R]

/-- The **energy** per site. -/
def EnergyTerms.energy (terms : EnergyTerms R) (couplings : Couplings R) :
    Except (EvaluationError R) (Complex R) := do
  let t ← required "t" couplings.t
  let j ← required "J" couplings.J
  let k ← required "K" couplings.K
  let tperp := couplings.tperp.getD t
  let jperp := couplings.Jperp.getD j
  return (-t) * terms.greenX.addConj / terms.divX
    - tperp * terms.greenY.addConj / terms.divY
    + j * terms.spinSpinX / terms.divX
    + jperp * terms.spinSpinY / terms.divY
    + ((2.0 : R) * k) * terms.ringExchange.addConj / terms.divX / terms.divY

namespace Evaluation

/-- The final value under couplings, which are not looked at unless they are needed. -/
def underCouplings (e : Evaluation R) (couplings : Couplings R) :
    Except (EvaluationError R) (Complex R) :=
  match e with
  | value z => .ok z
  | terms t => t.energy couplings

/-- The final value without couplings. -/
def scalar : Evaluation R → Except (EvaluationError R) (Complex R)
  | value z => .ok z
  | terms _ => .error (.missingCoupling "t")

end Evaluation

/-! ### Values of observables -/

/-- The real part of a value whose imaginary part is negligible. -/
def realPart (z : Complex R) : Except (EvaluationError R) R :=
  if z.isReal then .ok z.re else .error (.notReal z)

/-- The sum of measured values, read and added from left to right. -/
def measuredSum (operators : List BasicOperator) (context : MeasurementContext R) :
    Except (EvaluationError R) (Complex R) :=
  operators.foldlM (fun total o => return total + (← context.read o)) Complex.zero

/-- The value of a spin correlation; that of two sites has to be real. -/
def SpinSpin.evaluate (o : SpinSpin) (context : MeasurementContext R) :
    Except (EvaluationError R) (Complex R) :=
  match o with
  | .sameSite up down => do
    let up ← context.read up
    let down ← context.read down
    return (0.75 : R) * (up + down)
  | .twoSites upUp downDown upDown downUp exchange => do
    let exchange ← context.read exchange
    let upUp ← context.read upUp
    let downDown ← context.read downDown
    let upDown ← context.read upDown
    let downUp ← context.read downUp
    let value := (-0.5 : R) * exchange.addConj + (0.25 : R) * upUp + (0.25 : R) * downDown
      - (0.25 : R) * upDown - (0.25 : R) * downUp
    return ⟨← realPart value, 0.0⟩

/-- The value of a density correlation. -/
def DensityDensity.evaluate (o : DensityDensity) (context : MeasurementContext R) :
    Except (EvaluationError R) (Complex R) :=
  measuredSum o.operators context

/-- The value of a singlet ring exchange. -/
def SingletRingExchange.evaluate (o : SingletRingExchange) (context : MeasurementContext R) :
    Except (EvaluationError R) (Complex R) :=
  return (0.5 : R) * (← measuredSum o.operators context)

/-- The value of a spin ring exchange. -/
def SpinRingExchange.evaluate (o : SpinRingExchange) (context : MeasurementContext R) :
    Except (EvaluationError R) (Complex R) := do
  let aligned ← measuredSum o.aligned context
  let mixed ← measuredSum o.mixed context
  return (aligned - mixed).addConj

/-- The measured terms of a Hamiltonian. -/
def TJKHamiltonian.evaluate (h : TJKHamiltonian) (context : MeasurementContext R) :
    Except (EvaluationError R) (EnergyTerms R) := do
  let greenX ← measuredSum h.hopsX.operators context
  let greenY ← measuredSum h.hopsY.operators context
  let spinSpinX ← h.spinSpinX.evaluate context
  let spinSpinY ← h.spinSpinY.evaluate context
  let ringExchange ← h.ring.evaluate context
  return {
    greenX := greenX
    greenY := greenY
    spinSpinX := spinSpinX
    spinSpinY := spinSpinY
    ringExchange := ringExchange
    divX := Scalar.ofCount h.divX
    divY := Scalar.ofCount h.divY }

/-- The **evaluation** of an observable in a context. -/
def Observable.evaluate (o : Observable) (context : MeasurementContext R) :
    Except (EvaluationError R) (Evaluation R) :=
  match o with
  | .basic o => return .value (← context.read o)
  | .densityDensity o => return .value (← o.evaluate context)
  | .spinSpin o => return .value (← o.evaluate context)
  | .singletRing o => return .value (← o.evaluate context)
  | .hamiltonian o => return .terms (← o.evaluate context)
  | .spinRing o => return .value (← o.evaluate context)

end LatticeObservables
