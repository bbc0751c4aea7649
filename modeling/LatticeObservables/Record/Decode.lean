import LatticeObservables.Record.Encode

/-!
# Reading Records

What is written as a record is read back from JSON. A record is an object with fields, of
which unknown ones are ignored and known ones stand at most once, or a list of the values
of its fields in their order. Numbers are read by their kind: an integer is accepted where a
double is asked for, a decimal is never accepted for an integer.

Phases are read more liberally than they are written: the tag of a fraction can be given by
its number, and the fraction need not be in lowest terms.
-/

namespace LatticeObservables

/-- Why a record **cannot be read**. -/
inductive RecordError
  | malformed
  | zeroDenominator
  | complexForFraction
  | fractionForComplex
  | noPhaseForm
  /-- The record is well formed and its value is refused. -/
  | refused (reason : ConstructionError)
  deriving DecidableEq

/-- The wording of a reason. -/
def RecordError.message : RecordError → String
  | .malformed => "JSON error: malformed record"
  | .zeroDenominator => "JSON error: Fraction with zero denominator"
  | .complexForFraction => "JSON error: expected a Fraction, found a complex record"
  | .fractionForComplex => "JSON error: expected a complex record, found a Fraction"
  | .noPhaseForm =>
    "JSON error: data did not match any variant of untagged enum RationalRecord"
  | .refused reason => "JSON error: " ++ reason.message

namespace Json

/-! ### Numbers -/

/-- A signed integer of 64 bits. -/
def signed? : Json → Option Int
  | integer n => if Fits 64 n then some n else none
  | _ => none

/-- A natural number of 64 bits. -/
def count? : Json → Option Nat
  | integer n => if 0 ≤ n ∧ n < twoPower 64 then some n.toNat else none
  | _ => none

/-- A double. -/
def double? : Json → Option Float
  | integer n =>
    let size := n.natAbs.toUInt64.toFloat
    some (if n < 0 then -size else size)
  | decimal d => some d.toFloat
  | _ => none

/-- A value that can be `null`. -/
def optional? {α : Type} (decode : Json → Option α) : Json → Option (Option α)
  | null => some none
  | value => (decode value).map some

/-- The items of a list, each of which can be read. -/
def items? {α : Type} (decode : Json → Option α) : Json → Option (List α)
  | list items => items.mapM decode
  | _ => none

/-! ### Fields -/

/-- The value of a field, absent or not; `none` if the field is repeated. -/
def field? (fields : List (String × Json)) (name : String) : Option (Option Json) :=
  match fields.filter (·.1 = name) with
  | [] => some none
  | [(_, value)] => some (some value)
  | _ => none

/-- The values of the fields of a record, given by name or in their order. -/
def fieldValues? (names : List String) : Json → Option (List (Option Json))
  | record fields => names.mapM (field? fields)
  | list items => if items.length = names.length then some (items.map some) else none
  | _ => none

end Json

/-! ### Tagged records -/

/-- A **tagged record**. -/
inductive Tagged
  | complex (re im : Float)
  | fraction (numerator denominator : Int)

namespace Tagged

/-- The kinds of tagged records. -/
inductive Kind
  | complex
  | fraction
  deriving DecidableEq

/-- The kind that a tag names. A number in place of the name is accepted if `byNumber`
says so. -/
def kind? (byNumber : Bool) : Json → Option Kind
  | .text "complex" => some .complex
  | .text "Fraction" => some .fraction
  | .integer 0 => if byNumber then some .complex else none
  | .integer 1 => if byNumber then some .fraction else none
  | _ => none

/-- The names of the fields of a kind. -/
def Kind.fields : Kind → List String
  | .complex => ["real", "imag"]
  | .fraction => ["numerator", "denominator"]

/-- The record of a kind from the values of its fields. -/
def ofValues? : Kind → List (Option Json) → Option Tagged
  | .complex, [some re, some im] => do
    return .complex (← re.double?) (← im.double?)
  | .fraction, [some numerator, some denominator] => do
    return .fraction (← numerator.signed?) (← denominator.signed?)
  | _, _ => none

/-- Reads a tagged record. -/
def ofJson? (byNumber : Bool) : Json → Option Tagged
  | .record fields => do
    let tag ← (← Json.field? fields tagField)
    let kind ← kind? byNumber tag
    ofValues? kind (← Json.fieldValues? kind.fields (.record fields))
  | .list (tag :: rest) => do
    let kind ← kind? byNumber tag
    ofValues? kind (← Json.fieldValues? kind.fields (.list rest))
  | _ => none

end Tagged

/-- Reads a complex double. -/
def Complex.ofJson (v : Json) : Except RecordError (Complex Float) :=
  match Tagged.ofJson? false v with
  | some (.complex re im) => .ok ⟨re, im⟩
  | some (.fraction ..) => .error .fractionForComplex
  | none => .error .malformed

/-- Reads a phase: an integer, or a fraction that need not be in lowest terms. -/
def phaseOfJson (v : Json) : Except RecordError Rat :=
  match v.signed? with
  | some n => .ok n
  | none =>
    match Tagged.ofJson? true v with
    | some (.fraction numerator denominator) =>
      if denominator = 0 then .error .zeroDenominator
      else (Fraction.ofParts numerator denominator).mapError fun fault =>
        .refused (.arithmetic fault)
    | some (.complex ..) => .error .complexForFraction
    | none => .error .noPhaseForm

/-! ### Lattices -/

/-- Reads a site. -/
def Site.ofJson? (v : Json) : Option Site := do
  match ← v.fieldValues? ["bs", "bi"] with
  | [some coordinates, some basisIndex] =>
    return ⟨← coordinates.items? Json.signed?, ← basisIndex.count?⟩
  | _ => none

/-- Reads a lattice, without looking at the numbers in it. -/
def Lattice.ofJson? (v : Json) : Option Lattice := do
  match ← v.fieldValues? ["dimensions", "basis_indices"] with
  | [some lengths, some basisIndices] =>
    return ⟨← lengths.items? Json.count?, ← basisIndices.count?⟩
  | _ => none

/-- Reads a boundary condition. -/
def BoundaryCondition.ofJson (v : Json) : Except RecordError BoundaryCondition := do
  let phase ← phaseOfJson v
  (BoundaryCondition.ofPhase phase).mapError .refused

/-- Reads boundary conditions. -/
def BoundaryConditions.ofJson : Json → Except RecordError BoundaryConditions
  | .list items => return ⟨← items.mapM BoundaryCondition.ofJson⟩
  | _ => throw .malformed

/-! ### Runs -/

/-- Reads couplings; a field that is absent is left open. -/
def Couplings.ofJson? (v : Json) : Option (Couplings Float) := do
  let values ← v.fieldValues? ["t", "tperp", "J", "Jperp", "K"]
  match ← values.mapM fun value => (value.getD .null).optional? Json.double? with
  | [t, tperp, j, jperp, k] => return ⟨t, tperp, j, jperp, k⟩
  | _ => none

/-- Reads a value into a field that keeps its default when there is none. -/
def withDefault {α : Type} (default : α) (decode : Json → Option α) : Option Json → Option α
  | none => some default
  | some value => decode value

/-- Reads a run configuration; what is left out keeps its default. A list of values may be
shorter than the record. -/
def RunConfig.ofJson? (v : Json) : Option RunConfig := do
  let names := ["equilibrium_sweeps", "bins", "measurement_sweeps_per_bin", "seed"]
  let values ←
    match v with
    | .list items =>
      if items.length ≤ names.length then
        some (items.map some ++ List.replicate (names.length - items.length) none)
      else none
    | v => v.fieldValues? names
  let defaults : RunConfig := {}
  match values with
  | [equilibriumSweeps, bins, sweepsPerBin, seed] => do
    let equilibriumSweeps ←
      withDefault defaults.equilibriumSweeps Json.count? equilibriumSweeps
    let bins ← withDefault defaults.bins Json.count? bins
    let sweepsPerBin ← withDefault defaults.sweepsPerBin Json.count? sweepsPerBin
    let seed ← withDefault none (Json.optional? Json.count?) seed
    return ⟨equilibriumSweeps, bins, sweepsPerBin, seed.map Nat.toUInt64⟩
  | _ => none

end LatticeObservables
