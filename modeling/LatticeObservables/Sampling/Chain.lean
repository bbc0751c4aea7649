import LatticeObservables.Sampling.Estimate
import LatticeObservables.Sampling.Simulation

/-!
# Chains

A chain is the plainest simulation: it keeps one running estimate for each of its plans and
adds one sample to each of them in every sweep. Where the samples come from is the business
of a `Sampler`. A chain is created by sweeping as often as equilibration asks for and
resetting the estimates afterwards (`Sampler.engine`).
-/

namespace LatticeObservables

/-- A **sampler** with states of type `σ`. It starts in a state that the request for its
simulation decides. One sweep either fails with a reason, and then the state is what it was,
or gives the next state and a sample for each plan, which may depend on its position among
the plans. -/
structure Sampler (W σ R : Type) where
  sweep : σ → Except String (σ × (Nat → BasicPlan W → Complex R))
  start : Request W → σ
  stepsCompleted : σ → Nat
  stepsAccepted : σ → Nat
  stepsFullyRejected : σ → Nat

/-- The state of a **chain**: its plans, the estimate of each, and the state of its
sampler. -/
structure Chain (W σ R : Type) where
  plans : List (BasicPlan W)
  estimates : List (RunningEstimate R)
  source : σ

namespace Chain

variable {W σ R : Type} [Scalar R]

/-- Adds to each estimate the sample of its plan. -/
def addSamples (sample : Nat → BasicPlan W → Complex R) (c : Chain W σ R) :
    List (RunningEstimate R) :=
  (c.plans.zip c.estimates).mapIdx fun i (p, e) => e.add (sample i p)

/-- Performs sweeps until one fails. -/
def advance (sampler : Sampler W σ R) : Nat → Chain W σ R →
    Chain W σ R × Except (SimulationError W) Unit
  | 0, c => (c, .ok ())
  | n + 1, c =>
    match sampler.sweep c.source with
    | .error reason => (c, .error (.failed reason))
    | .ok (source, sample) =>
      advance sampler n { c with estimates := c.addSamples sample, source := source }

/-- Resets every estimate. -/
def reset (c : Chain W σ R) : Chain W σ R :=
  { c with estimates := c.estimates.map RunningEstimate.reset }

/-- The mean of the samples of a plan since the last reset. -/
def recent? [DecidableEq W] (c : Chain W σ R) (p : BasicPlan W) : Option (Complex R) :=
  (c.plans.zip c.estimates).lookup p |>.bind RunningEstimate.recent?

end Chain

namespace Sampler

variable {W σ R : Type} [DecidableEq W] [Scalar R]

/-- The simulations of a sampler. -/
def simulation (sampler : Sampler W σ R) : Simulation W (Chain W σ R) R where
  advance := Chain.advance sampler
  reset := Chain.reset
  plans := Chain.plans
  recent? := Chain.recent?
  stepsCompleted c := sampler.stepsCompleted c.source
  stepsAccepted c := sampler.stepsAccepted c.source
  stepsFullyRejected c := sampler.stepsFullyRejected c.source

/-- The **engine** of a sampler: a chain equilibrates first, and nothing of that is left in
its recent estimates. -/
def engine (sampler : Sampler W σ R) : Engine W (Chain W σ R) R where
  toSimulation := sampler.simulation
  create request :=
    let fresh : Chain W σ R := {
      plans := request.plans
      estimates := request.plans.map fun _ => RunningEstimate.fresh
      source := sampler.start request }
    let (c, advanced) := Chain.advance sampler request.equilibriumSweeps fresh
    advanced.map fun _ => c.reset

end Sampler

end LatticeObservables
