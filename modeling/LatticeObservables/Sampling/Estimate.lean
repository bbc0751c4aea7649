import LatticeObservables.Collection.OrderedMap
import LatticeObservables.Evaluation.Complex

/-!
# Estimates and Bins

A running estimate averages the values that are added to it, once since its last reset and
once over its whole history. A reset clears the recent sum and the recent count together and
touches neither of the others.

A run records one value per measurement and bin. `BinSummary.ofBins?` gives the mean over
the bins, the sample variance and the standard error of the mean. `BinnedResults` is the
history of a run: for each measurement the values of its bins, in the order in which they
were recorded. How long a run equilibrates and how it bins its measurements is its
`RunConfig`, whose defaults stand for what a configuration leaves out.
-/

namespace LatticeObservables

/-! ### Running estimates -/

/-- A **running estimate**: sums and counts of the recent and of all values. -/
structure RunningEstimate (R : Type) where
  recentSum : Complex R
  recentCount : Nat
  cumulativeSum : Complex R
  cumulativeCount : Nat
  deriving DecidableEq

namespace RunningEstimate

variable {R : Type} [Scalar R]

/-- The estimate that no value was added to. -/
def fresh : RunningEstimate R :=
  ⟨Complex.zero, 0, Complex.zero, 0⟩

/-- Adds a value. -/
def add (e : RunningEstimate R) (value : Complex R) : RunningEstimate R where
  recentSum := e.recentSum + value
  recentCount := e.recentCount + 1
  cumulativeSum := e.cumulativeSum + value
  cumulativeCount := e.cumulativeCount + 1

/-- Forgets the recent values. -/
def reset (e : RunningEstimate R) : RunningEstimate R :=
  { e with recentSum := Complex.zero, recentCount := 0 }

/-- A sum divided by a count, unless nothing was counted. -/
def average? (sum : Complex R) (count : Nat) : Option (Complex R) :=
  if 0 < count then some (sum / (Scalar.ofCount count : R)) else none

/-- The average since the last reset. -/
def recent? (e : RunningEstimate R) : Option (Complex R) :=
  average? e.recentSum e.recentCount

/-- The average over the whole history. -/
def cumulative? (e : RunningEstimate R) : Option (Complex R) :=
  average? e.cumulativeSum e.cumulativeCount

end RunningEstimate

/-! ### Bins -/

/-- The **statistics** over the bins of one measurement. -/
structure BinSummary (R : Type) where
  mean : Complex R
  variance : R
  error : R
  bins : Nat
  deriving DecidableEq

/-- The statistics over a list of bins; an empty one has none. The variance is the sum of
the squared deviations from the mean divided by one less than the number of bins, and zero
for a single bin. -/
def BinSummary.ofBins? {R : Type} [Scalar R] (bins : List (Complex R)) :
    Option (BinSummary R) :=
  let n := bins.length
  if n = 0 then none
  else
    let mean := Complex.sum bins / (Scalar.ofCount n : R)
    if n = 1 then some ⟨mean, 0.0, 0.0, n⟩
    else
      let deviations := bins.foldl (fun total x => total + (x - mean).normSq) (0.0 : R)
      let variance := deviations / Scalar.ofCount (n - 1)
      some ⟨mean, variance, Scalar.sqrt (variance / Scalar.ofCount n), n⟩

/-- The **binned results** of a run: the values of each measurement, one per bin. -/
structure BinnedResults (P R : Type) where
  bins : OrderedMap P (List (Complex R))

namespace BinnedResults

variable {P R : Type} [DecidableEq P]

/-- The results before the first bin. -/
def empty : BinnedResults P R :=
  ⟨OrderedMap.empty⟩

/-- Appends the values of one bin. -/
def record (results : BinnedResults P R) (bin : OrderedMap P (Complex R)) :
    BinnedResults P R :=
  ⟨bin.entries.foldl (fun m e => m.update e.1 fun values => values.getD [] ++ [e.2])
    results.bins⟩

/-- The values of a measurement. -/
def get? (results : BinnedResults P R) (plan : P) : Option (List (Complex R)) :=
  results.bins.get? plan

/-- The number of measurements. -/
def size (results : BinnedResults P R) : Nat :=
  results.bins.size

/-- The value of the last bin of each measurement. -/
def mostRecent (results : BinnedResults P R) : OrderedMap P (Complex R) :=
  results.bins.filterMapValues List.getLast?

/-- The statistics of each measurement. -/
def summarize [Scalar R] (results : BinnedResults P R) : OrderedMap P (BinSummary R) :=
  results.bins.filterMapValues BinSummary.ofBins?

end BinnedResults

/-! ### Configuration -/

/-- The **configuration** of a run: unmeasured sweeps before the first bin, the number of
bins, the sweeps in each of them, and the seed of the random streams if it is fixed. -/
structure RunConfig where
  equilibriumSweeps : Nat := 500000
  bins : Nat := 100
  sweepsPerBin : Nat := 10000
  seed : Option UInt64 := none
  deriving DecidableEq

end LatticeObservables
