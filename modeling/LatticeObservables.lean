import LatticeObservables.Record.JsonReader
import LatticeObservables.Record.Decode
import LatticeObservables.Boundary.Winding
import LatticeObservables.Boundary.Turn
import LatticeObservables.Evaluation.Observable
import LatticeObservables.Sampling.Universe
import LatticeObservables.Sampling.Synthetic
import LatticeObservables.Yaml.Record
import LatticeObservables.Proofs.Evaluation.Reading
import LatticeObservables.Proofs.Arithmetic.Bounded
import LatticeObservables.Proofs.Boundary.Twist
import LatticeObservables.Proofs.Collection.FirstSeen
import LatticeObservables.Proofs.Collection.OrderedMap
import LatticeObservables.Proofs.Measurement.Partition
import LatticeObservables.Proofs.Sampling.Chain
import LatticeObservables.Proofs.Sampling.Iteration
import LatticeObservables.Proofs.Sampling.Binning
import LatticeObservables.Proofs.Lattice.SiteOrder
import LatticeObservables.Proofs.Operator.Canonical
import LatticeObservables.Proofs.Sampling.Construction
import LatticeObservables.Proofs.Sampling.Recording
import LatticeObservables.Proofs.Sampling.Coverage
import LatticeObservables.Proofs.Operator.Composite
import LatticeObservables.Proofs.Operator.CyclicExchange
import LatticeObservables.Proofs.Operator.Overcounting
import LatticeObservables.Proofs.Lattice.Numbering
import LatticeObservables.Proofs.Lattice.Enumeration
import LatticeObservables.Proofs.Sampling.Freshness
import LatticeObservables.Proofs.Operator.Expansion
import LatticeObservables.Proofs.Sampling.Extension
import LatticeObservables.Proofs.Boundary.Inside
import LatticeObservables.Proofs.Measurement.Acceptance
import LatticeObservables.Proofs.Boundary.Quotient
import LatticeObservables.Proofs.Measurement.Divisors
import LatticeObservables.Proofs.Record.Text
import LatticeObservables.Proofs.Record.Identity
import LatticeObservables.Proofs.Record.RoundTrip
import LatticeObservables.Proofs.Boundary.Overflow
import LatticeObservables.Proofs.Boundary.FullRange
import LatticeObservables.Proofs.Evaluation.Exact
import LatticeObservables.Proofs.Operator.Relabelling
import LatticeObservables.Proofs.Operator.SpinSymmetry
import LatticeObservables.Proofs.Operator.Mirror
import LatticeObservables.Proofs.Sampling.History
import LatticeObservables.Proofs.Operator.SpeciesPairs
import LatticeObservables.Proofs.Operator.Sharing
import LatticeObservables.Proofs.Evaluation.Linearity
import LatticeObservables.Proofs.Sampling.Estimate
import LatticeObservables.Proofs.Sampling.Variance
import LatticeObservables.Proofs.Boundary.Turn
import LatticeObservables.Proofs.Text.Legible
import LatticeObservables.Proofs.Operator.Text
import LatticeObservables.Proofs.Boundary.Nonzero
