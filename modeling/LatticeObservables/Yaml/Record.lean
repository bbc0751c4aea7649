import LatticeObservables.Decimal
import LatticeObservables.Evaluation.Observable
import LatticeObservables.Sampling.Estimate
import LatticeObservables.Yaml.Node

/-!
# Records in YAML

Run configurations and couplings are read from YAML. A record is a mapping; a text without a
document, or with an empty one, is a record without fields. Unknown fields are ignored and
known ones stand at most once. Values are plain scalars: quotes make a text of a number. A
literal block is a number if its tag says so. References are followed first.
-/

namespace LatticeObservables

namespace Yaml

/-! ### Plain scalars -/

/-- A natural number of 64 bits, with an optional plus sign. Digits of the bases sixteen,
eight and two have a mark in front of them; decimal digits have no leading zero. -/
def count? (cs : List Char) : Option Nat := do
  let digits :=
    match cs with
    | '+' :: rest => rest
    | cs => cs
  let n ←
    match digits with
    | '0' :: 'x' :: rest => digitsOfBase? 16 rest
    | '0' :: 'o' :: rest => digitsOfBase? 8 rest
    | '0' :: 'b' :: rest => digitsOfBase? 2 rest
    | '0' :: _ :: _ => none
    | digits => digitsOfBase? 10 digits
  if n < twoPower 64 then some n else none

/-- The size of a decimal number: digits with an optional point among them, at least one of
them, and an optional power of ten. -/
def decimalSize? (negative : Bool) (cs : List Char) : Option Decimal := do
  let (whole, rest) := cs.span Char.isDigit
  let (places, rest) :=
    match rest with
    | '.' :: rest => rest.span Char.isDigit
    | rest => ([], rest)
  let coefficient ← digitsOfBase? 10 (whole ++ places)
  let power : Int ←
    match rest with
    | [] => some 0
    | e :: rest =>
      if e = 'e' ∨ e = 'E' then
        match rest with
        | '-' :: rest => (digitsOfBase? 10 rest).map fun n => -(n : Int)
        | '+' :: rest => (digitsOfBase? 10 rest).map Int.ofNat
        | rest => (digitsOfBase? 10 rest).map Int.ofNat
      else none
  return ⟨negative, coefficient, power - places.length⟩

/-- A double: a decimal number that is in the range of doubles, or the name of an infinity or
of the value that is no number. -/
def double? (cs : List Char) : Option Float :=
  let text := String.ofList cs
  if text ∈ [".inf", ".Inf", ".INF", "+.inf", "+.Inf", "+.INF"] then some (1.0 / 0.0)
  else if text ∈ ["-.inf", "-.Inf", "-.INF"] then some (-1.0 / 0.0)
  else if text ∈ [".nan", ".NaN", ".NAN"] then some (0.0 / 0.0)
  else do
    let d ←
      match cs with
      | '-' :: rest => decimalSize? true rest
      | '+' :: rest => decimalSize? false rest
      | cs => decimalSize? false cs
    let x := d.toFloat
    if x.isFinite then some x else none

/-- Whether the text of a plain scalar is a word for no value. -/
def isNull (text : String) : Bool :=
  text ∈ ["~", "null", "Null", "NULL"]

/-! ### Values and fields -/

/-- The tag of a whole number. -/
def wholeNumberTag : String :=
  "tag:yaml.org,2002:int"

/-- The tag of a number with a point. -/
def decimalNumberTag : String :=
  "tag:yaml.org,2002:float"

/-- The tag of no value. -/
def nullTag : String :=
  "tag:yaml.org,2002:null"

namespace Node

/-- Reads a number. It is a plain scalar whatever its tag, or a literal one with the tag of
the number. -/
def number? {α : Type} (tag : String) (decode : List Char → Option α) : Node → Option α
  | scalar p style text =>
    if style = .plain ∨ (style = .literal ∧ p.tag = some tag) then decode text.toList else none
  | _ => none

/-- Reads a number that can be left out. A plain scalar without a tag stands for no value if
it is empty or a word for that. Behind the tag of no value there is such a word, and behind
any other tag a number. -/
def optional? {α : Type} (tag : String) (decode : List Char → Option α) (node : Node) :
    Option (Option α) :=
  match node with
  | scalar ⟨_, none⟩ .plain text =>
    if text = "" ∨ isNull text then some none else (node.number? tag decode).map some
  | scalar ⟨_, some t⟩ .plain text =>
    if t = nullTag then (if isNull text then some none else none)
    else (node.number? tag decode).map some
  | _ => (node.number? tag decode).map some

/-- The name of a field. -/
def name? : Node → Option String
  | scalar _ _ text => some text
  | _ => none

end Node

/-- The fields of a record. -/
def fields? : Option Node → Option (List (String × Node))
  | none => some []
  | some (.scalar _ .plain "") => some []
  | some (.mapping p entries) =>
    let document := Node.mapping p entries
    entries.mapM fun (name, content) => do
      return (← (← document.resolve? name).name?, ← document.resolve? content)
  | some _ => none

/-- Reads a field into a value that keeps its default when the field is absent. A repeated
field is refused. -/
def field? {α : Type} (fields : List (String × Node)) (name : String) (default : α)
    (decode : Node → Option α) : Option α :=
  match fields.filter (·.1 = name) with
  | [] => some default
  | [(_, node)] => decode node
  | _ => none

end Yaml

/-- Reads a run configuration from YAML. -/
def RunConfig.ofYaml? (text : String) : Option RunConfig := do
  let fields ← Yaml.fields? (← Yaml.document? text)
  let defaults : RunConfig := {}
  let count := Yaml.Node.number? Yaml.wholeNumberTag Yaml.count?
  let equilibriumSweeps ←
    Yaml.field? fields "equilibrium_sweeps" defaults.equilibriumSweeps count
  let bins ← Yaml.field? fields "bins" defaults.bins count
  let sweepsPerBin ←
    Yaml.field? fields "measurement_sweeps_per_bin" defaults.sweepsPerBin count
  let seed ←
    Yaml.field? fields "seed" none (Yaml.Node.optional? Yaml.wholeNumberTag Yaml.count?)
  return ⟨equilibriumSweeps, bins, sweepsPerBin, seed.map Nat.toUInt64⟩

/-- Reads couplings from YAML. -/
def Couplings.ofYaml? (text : String) : Option (Couplings Float) := do
  let fields ← Yaml.fields? (← Yaml.document? text)
  let coupling (name : String) :=
    Yaml.field? fields name none (Yaml.Node.optional? Yaml.decimalNumberTag Yaml.double?)
  return ⟨← coupling "t", ← coupling "tperp", ← coupling "J", ← coupling "Jperp",
    ← coupling "K"⟩

end LatticeObservables
