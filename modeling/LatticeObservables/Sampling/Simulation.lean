import LatticeObservables.Collection.OrderedMap
import LatticeObservables.Evaluation.Complex
import LatticeObservables.Measurement.Plan
import LatticeObservables.Random.Stream

/-!
# Simulations

The part that a sampler has to play. A simulation of one walk advances in sweeps, keeps an
estimate for each of its plans, and counts its steps (`Simulation`); an engine creates it,
equilibrated, for a walk (`Engine`). A failed advance leaves a state behind as well.

What creates simulations may remember what it was asked for (`Factory`). An engine does not,
and is turned into a factory that does by a record of the requests (`Engine.recording`).
-/

namespace LatticeObservables

/-- Why a simulation **failed**. -/
inductive SimulationError (W : Type)
  | failed (reason : String)
  | noEstimate (plan : BasicPlan W) (sweeps : Nat)
  deriving DecidableEq

/-- The wording of a reason. -/
def SimulationError.message {W : Type} [WalkPlan W] : SimulationError W → String
  | .failed reason => "simulation failed: " ++ reason
  | .noEstimate plan sweeps =>
    "simulation failed: no estimate for " ++ plan.operator.text ++ " on " ++
      WalkPlan.describe plan.walk ++ " after " ++ toString sweeps ++ " sweeps"

/-- How **simulations** with states of type `S` behave. `advance` performs a number of sweeps
and updates every measurement, `reset` forgets the measurements since the last reset, and
`recent?` is the mean of the measurements of a plan since then. -/
structure Simulation (W S R : Type) where
  advance : Nat → S → S × Except (SimulationError W) Unit
  reset : S → S
  plans : S → List (BasicPlan W)
  recent? : S → BasicPlan W → Option (Complex R)
  stepsCompleted : S → Nat
  stepsAccepted : S → Nat
  stepsFullyRejected : S → Nat

/-- What an engine is **asked for**: a simulation of a walk for a list of plans, with its
lattice, its number of equilibration sweeps and its random stream. -/
structure Request (W : Type) where
  walk : W
  lattice : Lattice
  plans : List (BasicPlan W)
  equilibriumSweeps : Nat
  stream : RandomStream
  deriving DecidableEq

/-- An **engine**: simulations, and how one is created and equilibrated. -/
structure Engine (W S R : Type) extends Simulation W S R where
  create : Request W → Except (SimulationError W) S

/-- A **factory** with states of type `F`: how a simulation is created, and the state of the
factory after that, whether it was created or not. -/
structure Factory (F W S : Type) where
  create : Request W → F → F × Except (SimulationError W) S

/-- An engine as a factory that **records its requests**. -/
def Engine.recording {W S R : Type} (engine : Engine W S R) :
    Factory (List (Request W)) W S where
  create request made := (made ++ [request], engine.create request)

namespace Simulation

variable {W S R : Type}

/-- The recent estimate of every plan that has one. -/
def estimates [DecidableEq W] (model : Simulation W S R) (s : S) :
    OrderedMap (BasicPlan W) (Complex R) :=
  OrderedMap.ofList <|
    (model.plans s).filterMap fun p => (model.recent? s p).map fun value => (p, value)

end Simulation

end LatticeObservables
