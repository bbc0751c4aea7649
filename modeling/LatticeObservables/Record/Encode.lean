import LatticeObservables.Boundary.Condition
import LatticeObservables.Evaluation.Observable
import LatticeObservables.Lattice.Cell
import LatticeObservables.Measurement.Plan
import LatticeObservables.Record.Json
import LatticeObservables.Sampling.Estimate

/-!
# Records

The JSON form of everything that is written out. Two kinds of value need a tag, because JSON
has no form for them: complex values, and phases that are no whole number. Operators carry
their kind in a field `type`.
-/

namespace LatticeObservables

/-- The name of the field that tags complex values and fractions. -/
def tagField : String :=
  "__class__"

/-- A complex double as a tagged record. -/
def Complex.toJson (z : Complex Float) : Json :=
  .record [(tagField, .text "complex"), ("real", .ofFloat z.re), ("imag", .ofFloat z.im)]

/-- A phase: a whole number as it is, any other one as a tagged record. -/
def phaseToJson (p : Rat) : Json :=
  if p.den = 1 then .integer p.num
  else
    .record [
      (tagField, .text "Fraction"), ("numerator", .integer p.num),
      ("denominator", .ofNat p.den)]

/-! ### Lattices -/

/-- A site as a record. -/
def Site.toJson (s : Site) : Json :=
  .record [("bs", .list (s.coordinates.map .integer)), ("bi", .ofNat s.basisIndex)]

/-- A lattice as a record. -/
def Lattice.toJson (l : Lattice) : Json :=
  .record [
    ("dimensions", .list (l.lengths.map .ofNat)), ("basis_indices", .ofNat l.basisIndices)]

/-- A boundary condition as its phase. -/
def BoundaryCondition.toJson (c : BoundaryCondition) : Json :=
  phaseToJson c.phase

/-- Boundary conditions as a list. -/
def BoundaryConditions.toJson (b : BoundaryConditions) : Json :=
  .list (b.conditions.map BoundaryCondition.toJson)

/-! ### Operators -/

/-- A hop as a record. -/
def Hop.toJson (h : Hop) : Json :=
  .record [
    ("source", h.source.toJson), ("destination", h.destination.toJson),
    ("species", .ofNat h.species)]

/-- A basic operator as a record. -/
def BasicOperator.toJson (o : BasicOperator) : Json :=
  .record [
    ("type", .text "BasicOperator"), ("hops", .list (o.hops.map Hop.toJson)),
    ("boundary_conditions", .ofOption BoundaryConditions.toJson o.boundary)]

/-- A list of basic operators. -/
def operatorsToJson (operators : List BasicOperator) : Json :=
  .list (operators.map BasicOperator.toJson)

/-- A density correlation as a record. -/
def DensityDensity.toJson (o : DensityDensity) : Json :=
  .record [
    ("type", .text "DensityDensityOperator"), ("operators", operatorsToJson o.operators)]

/-- A spin correlation as a record. -/
def SpinSpin.toJson (o : SpinSpin) : Json :=
  .record [
    ("type", .text "SpinSpinOperator"), ("operators", operatorsToJson o.operators),
    ("same_site", .boolean o.isSameSite)]

/-- A singlet ring exchange as a record. -/
def SingletRingExchange.toJson (o : SingletRingExchange) : Json :=
  .record [
    ("type", .text "SingletRingExchangeOperator"), ("operators", operatorsToJson o.operators)]

/-- A spin ring exchange as a record. -/
def SpinRingExchange.toJson (o : SpinRingExchange) : Json :=
  .record [
    ("type", .text "SpinModelRingExchangeOperator"),
    ("operators", operatorsToJson o.operators)]

/-- A Hamiltonian as a record. -/
def TJKHamiltonian.toJson (h : TJKHamiltonian) : Json :=
  .record [
    ("type", .text "TJKHamiltonian"),
    ("hops", operatorsToJson (h.hopsX.operators ++ h.hopsY.operators)),
    ("spin_spin_x", h.spinSpinX.toJson), ("spin_spin_y", h.spinSpinY.toJson),
    ("ring_exchange", h.ring.toJson), ("divx", .ofNat h.divX), ("divy", .ofNat h.divY)]

/-- An **observable** as a record. -/
def Observable.toJson : Observable → Json
  | .basic o => o.toJson
  | .densityDensity o => o.toJson
  | .spinSpin o => o.toJson
  | .singletRing o => o.toJson
  | .hamiltonian o => o.toJson
  | .spinRing o => o.toJson

/-! ### Runs -/

/-- A basic plan as a record, without its walk. -/
def BasicPlan.toJson {W : Type} (p : BasicPlan W) : Json :=
  .record [("operator", p.operator.toJson)]

/-- Couplings as a record; those that are left open are `null`. -/
def Couplings.toJson (c : Couplings Float) : Json :=
  .record [
    ("t", .ofOption .ofFloat c.t), ("tperp", .ofOption .ofFloat c.tperp),
    ("J", .ofOption .ofFloat c.J), ("Jperp", .ofOption .ofFloat c.Jperp),
    ("K", .ofOption .ofFloat c.K)]

/-- The statistics of a measurement as a record. -/
def BinSummary.toJson (s : BinSummary Float) : Json :=
  .record [
    ("mean", s.mean.toJson), ("variance", .ofFloat s.variance), ("error", .ofFloat s.error),
    ("n_bins", .ofNat s.bins)]

/-- A run configuration as a record. -/
def RunConfig.toJson (c : RunConfig) : Json :=
  .record [
    ("equilibrium_sweeps", .ofNat c.equilibriumSweeps), ("bins", .ofNat c.bins),
    ("measurement_sweeps_per_bin", .ofNat c.sweepsPerBin),
    ("seed", .ofOption (fun seed => .ofNat seed.toNat) c.seed)]

end LatticeObservables
