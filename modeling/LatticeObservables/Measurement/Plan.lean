import LatticeObservables.Collection.OrderedMap
import LatticeObservables.Operator.Composite

/-!
# Measurement Plans

A walk is one Markov chain over the configurations of a wavefunction. A measurement plan
asks for an observable on a walk, and is reduced to basic plans, one for each basic operator
of the observable. A plan is accepted only if all of them can be measured on the
wavefunction of the walk (`MeasurementPlan.build`).

The basic plans of any number of measurement plans, each of them once, are grouped by the
walk that they are measured on (`partitionByWalk`). Walks and the plans of a walk keep the
order in which they were first seen, so adding plans at the end changes neither the number
of a walk nor the place of a plan in its group.
-/

namespace LatticeObservables

/-! ### Plans -/

/-- Descriptions of **walks**. Equal descriptions mean the same walk, so that measurements
which share one are carried out together. `describe` is the text of a walk in a log. -/
class WalkPlan (W : Type) where
  wavefunction : W → Wavefunction
  describe : W → String

/-- A **basic plan**: measure one basic operator on a walk. -/
structure BasicPlan (W : Type) where
  walk : W
  operator : BasicOperator
  deriving DecidableEq

/-- A **measurement plan**: measure an observable on a walk. -/
structure MeasurementPlan (W : Type) where
  walk : W
  observable : Observable
  deriving DecidableEq

/-- Why a plan is **not accepted**: a basic operator does not fit the wavefunction. -/
structure PlanError where
  operator : BasicOperator
  deriving DecidableEq

/-- The wording of the reason. -/
def PlanError.message (e : PlanError) : String :=
  "invalid operator: " ++ e.operator.text ++ " is not valid for the walk's wavefunction"

variable {W : Type}

/-- The plan of a basic operator that fits the wavefunction of the walk. -/
def BasicPlan.build [WalkPlan W] (walk : W) (operator : BasicOperator) :
    Except PlanError (BasicPlan W) :=
  if operator.isValidFor (WalkPlan.wavefunction walk) then .ok ⟨walk, operator⟩
  else .error ⟨operator⟩

namespace MeasurementPlan

/-- The plan of an observable whose basic operators all fit the wavefunction of the walk.
The first one that does not is reported. -/
def build [WalkPlan W] (walk : W) (observable : Observable) :
    Except PlanError (MeasurementPlan W) :=
  match observable.basicOperators.find?
      fun o => !o.isValidFor (WalkPlan.wavefunction walk) with
  | some invalid => .error ⟨invalid⟩
  | none => .ok ⟨walk, observable⟩

/-- The **basic plans** that a plan is reduced to. -/
def basicPlans (p : MeasurementPlan W) : List (BasicPlan W) :=
  p.observable.basicOperators.map fun o => ⟨p.walk, o⟩

end MeasurementPlan

/-- A basic plan as the plan of its operator. -/
def BasicPlan.toPlan (p : BasicPlan W) : MeasurementPlan W :=
  ⟨p.walk, .basic p.operator⟩

/-! ### Partition by walk -/

variable [DecidableEq W]

/-- The basic plans of a list of plans, in first-seen order. -/
def allBasicPlans (plans : List (MeasurementPlan W)) : List (BasicPlan W) :=
  firstSeen (plans.flatMap MeasurementPlan.basicPlans)

/-- The basic plans **grouped by walk**. -/
def partitionByWalk (plans : List (MeasurementPlan W)) :
    OrderedMap W (List (BasicPlan W)) :=
  (allBasicPlans plans).foldl
    (fun groups p => groups.update p.walk fun group => group.getD [] ++ [p])
    OrderedMap.empty

end LatticeObservables
