import LatticeObservables.Decimal
import LatticeObservables.Evaluation.Observable
import LatticeObservables.Measurement.Plan
import LatticeObservables.Sampling.Estimate
import LatticeObservables.Sampling.Simulation

/-!
# Universes of Simulations

A universe runs one simulation for each walk of a list of measurement plans. It is built by
asking a factory for the simulations in the order of the walks, each with its own random
stream (`Universe.requests`, `Universe.buildWith`); if they come from an engine, the requests
that were made are known as well (`Universe.build`). One iteration resets every simulation,
advances it, and reads the estimate of each of its plans (`Universe.iterate`); it stops at
the first simulation that fails and leaves the ones after it alone. `calculatePlans` records
a number of iterations as bins.

What a run reports of its progress is data (`Event`), with the level (`Event.level`) and the
wording (`Event.message`) of each report.
-/

namespace LatticeObservables

/-! ### Reports -/

/-- The **level** of a report. -/
inductive Level
  | debug
  | info
  | warn
  deriving DecidableEq

/-- What a run **reports**. -/
inductive Event (W : Type)
  /-- The plans need this many simulations, which share the seed. -/
  | simulationsNeeded (plans simulations : Nat) (seed : UInt64)
  | equilibrating (index plans sweeps : Nat)
  | binComplete (bin bins : Nat)
  | recorded (bins plans : Nat)
  /-- The simulation of the walk has made no step. -/
  | noSteps (walk : Option W)
  | acceptance (walk : Option W) (accepted fullyRejected completed : Nat)
  deriving DecidableEq

namespace Event

variable {W : Type}

/-- The level of a report. -/
def level : Event W → Level
  | simulationsNeeded .. | equilibrating .. | binComplete .. => .debug
  | recorded .. | acceptance .. => .info
  | noSteps _ => .warn

/-- The share of `count` in `total` in percent, with two places. -/
def percentage (count total : Nat) : String :=
  fixedPlaces 2 (100.0 * count.toUInt64.toFloat / total.toUInt64.toFloat) ++ "%"

/-- The text of the walk of a simulation, which has none if it has no plan. -/
def walkText [WalkPlan W] : Option W → String
  | none => "None"
  | some walk => "Some(" ++ WalkPlan.describe walk ++ ")"

/-- The wording of a report. -/
def message [WalkPlan W] : Event W → String
  | simulationsNeeded plans simulations seed =>
    toString plans ++ " measurement plans need " ++ toString simulations ++
      " simulations (seed " ++ toString seed.toNat ++ ")"
  | equilibrating index plans sweeps =>
    "equilibrating simulation " ++ toString index ++ " with " ++ toString plans ++
      " basic plans for " ++ toString sweeps ++ " sweeps"
  | binComplete bin bins => "bin " ++ toString bin ++ "/" ++ toString bins ++ " complete"
  | recorded bins plans =>
    "recorded " ++ toString bins ++ " bins for " ++ toString plans ++
      " basic measurement plans"
  | noSteps walk =>
    "simulation for " ++ walkText walk ++ " has not completed any steps"
  | acceptance walk accepted fullyRejected completed =>
    walkText walk ++ " had " ++ percentage accepted completed ++
      " of steps accepted (with " ++ percentage fullyRejected completed ++ " fully rejected)"

end Event

/-! ### Universes -/

/-- A **universe**: one simulation for each walk. -/
structure Universe (S : Type) where
  simulations : List S
  deriving DecidableEq

namespace Universe

variable {W S R F : Type}

/-! ### Construction -/

/-- What a factory is asked for: the simulation of each walk, with the stream of the seed
that has the walk's number. -/
def requests [DecidableEq W] [WalkPlan W] (plans : List (MeasurementPlan W))
    (equilibriumSweeps : Nat) (seed : UInt64) : List (Request W) :=
  (partitionByWalk plans).entries.zipIdx.map fun ((walk, group), index) => {
    walk := walk
    lattice := (WalkPlan.wavefunction walk).lattice
    plans := group
    equilibriumSweeps := equilibriumSweeps
    stream := RandomStream.ofSeed seed index.toUInt64 }

/-- Makes requests to a factory one after the other, up to the first that fails. -/
def createAll (factory : Factory F W S) :
    List (Request W) → F → F × Except (SimulationError W) (Universe S)
  | [], state => (state, .ok ⟨[]⟩)
  | request :: rest, state =>
    match factory.create request state with
    | (state, .error e) => (state, .error e)
    | (state, .ok s) =>
      let (state, others) := createAll factory rest state
      (state, others.map fun u => ⟨s :: u.simulations⟩)

/-- Builds the universe of a list of plans with the simulations of a factory. -/
def buildWith [DecidableEq W] [WalkPlan W] (factory : Factory F W S)
    (plans : List (MeasurementPlan W)) (equilibriumSweeps : Nat) (seed : UInt64) (state : F) :
    F × Except (SimulationError W) (Universe S) :=
  createAll factory (requests plans equilibriumSweeps seed) state

/-- The outcome of a **construction**: the requests that were made, and the universe or the
first failure. -/
structure Construction (W S : Type) where
  made : List (Request W)
  outcome : Except (SimulationError W) (Universe S)

/-- Builds the universe of a list of plans with the simulations of an engine. -/
def build [DecidableEq W] [WalkPlan W] (engine : Engine W S R)
    (plans : List (MeasurementPlan W)) (equilibriumSweeps : Nat) (seed : UInt64) :
    Construction W S :=
  let (made, outcome) := buildWith engine.recording plans equilibriumSweeps seed []
  ⟨made, outcome⟩

/-- What a construction reports. -/
def constructionLog [DecidableEq W] (plans : List (MeasurementPlan W)) (seed : UInt64)
    (construction : Construction W S) : List (Event W) :=
  .simulationsNeeded plans.length (partitionByWalk plans).size seed ::
    construction.made.zipIdx.map fun (request, index) =>
      .equilibrating index request.plans.length request.equilibriumSweeps

/-! ### Iteration -/

/-- Reads the estimates of plans of a simulation into a map. -/
def readEstimates [DecidableEq W] (model : Simulation W S R) (sweeps : Nat) (s : S) :
    List (BasicPlan W) → OrderedMap (BasicPlan W) (Complex R) →
      Except (SimulationError W) (OrderedMap (BasicPlan W) (Complex R))
  | [], estimates => .ok estimates
  | p :: rest, estimates =>
    match model.recent? s p with
    | none => .error (.noEstimate p sweeps)
    | some value => readEstimates model sweeps s rest (estimates.insert p value)

/-- Resets, advances and reads simulations one after the other. The states are returned
also when one fails. -/
def iterateFrom [DecidableEq W] (model : Simulation W S R) (sweeps : Nat) :
    List S → OrderedMap (BasicPlan W) (Complex R) →
      List S × Except (SimulationError W) (OrderedMap (BasicPlan W) (Complex R))
  | [], estimates => ([], .ok estimates)
  | s :: rest, estimates =>
    let (s, advanced) := model.advance sweeps (model.reset s)
    match advanced.bind fun _ => readEstimates model sweeps s (model.plans s) estimates with
    | .error e => (s :: rest, .error e)
    | .ok estimates =>
      let (rest, result) := iterateFrom model sweeps rest estimates
      (s :: rest, result)

/-- One **iteration**: the fresh estimate of every plan, or the first failure. -/
def iterate [DecidableEq W] (model : Simulation W S R) (sweeps : Nat) (u : Universe S) :
    Universe S × Except (SimulationError W) (OrderedMap (BasicPlan W) (Complex R)) :=
  let (simulations, result) := iterateFrom model sweeps u.simulations OrderedMap.empty
  (⟨simulations⟩, result)

/-- Reports how many steps each simulation accepted. -/
def acceptanceLog (model : Simulation W S R) (u : Universe S) : List (Event W) :=
  u.simulations.map fun s =>
    let walk := (model.plans s).head?.map BasicPlan.walk
    let completed := model.stepsCompleted s
    if completed = 0 then .noSteps walk
    else .acceptance walk (model.stepsAccepted s) (model.stepsFullyRejected s) completed

/-! ### Recording -/

/-- Records `remaining` more bins, of `bins` in all, reporting each one that is complete. -/
def recordBins [DecidableEq W] (model : Simulation W S R) (bins sweeps : Nat) :
    Nat → Universe S → BinnedResults (BasicPlan W) R →
      List (Event W) × Except (SimulationError W) (Universe S × BinnedResults (BasicPlan W) R)
  | 0, u, results => ([], .ok (u, results))
  | remaining + 1, u, results =>
    match iterate model sweeps u with
    | (_, .error e) => ([], .error e)
    | (u, .ok bin) =>
      let (log, outcome) := recordBins model bins sweeps remaining u (results.record bin)
      (.binComplete (bins - remaining) bins :: log, outcome)

end Universe

variable {W S R : Type}

/-- Equilibrates, then records the bins of a configuration. The run takes `entropy` for the
seed if the configuration fixes none. -/
def calculatePlans [DecidableEq W] [WalkPlan W] (engine : Engine W S R)
    (plans : List (MeasurementPlan W)) (config : RunConfig) (entropy : UInt64) :
    List (Event W) × Except (SimulationError W) (BinnedResults (BasicPlan W) R) :=
  let seed := config.seed.getD entropy
  let construction := Universe.build engine plans config.equilibriumSweeps seed
  let log := Universe.constructionLog plans seed construction
  match construction.outcome with
  | .error e => (log, .error e)
  | .ok u =>
    match Universe.recordBins engine.toSimulation config.bins config.sweepsPerBin config.bins u
        BinnedResults.empty with
    | (binLog, .error e) => (log ++ binLog, .error e)
    | (binLog, .ok (u, results)) =>
      (log ++ binLog ++ .recorded config.bins results.size ::
        Universe.acceptanceLog engine.toSimulation u, .ok results)

/-- The context of the values of basic plans. Plans of one operator on different walks share
an entry, and the last of them counts. -/
def MeasurementContext.ofPlanValues (values : List (BasicPlan W × Complex R)) :
    MeasurementContext R :=
  OrderedMap.ofList (values.map fun e => (e.1.operator, e.2))

end LatticeObservables
