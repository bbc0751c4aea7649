import LatticeObservables.Yaml.Character

/-!
# Tags and directives of YAML

A tag says what kind of value a node holds. It is written in full between angle brackets, or
in a short form behind a handle that stands for the start of the tag (`Yaml.Handle`). Lines
of directives before a document give the version and say what its handles stand for
(`Yaml.Directives`); `Yaml.Directives.tag?` reads a tag in either form.

A tag is a list of octets. Here each octet is the character with its number.
-/

namespace LatticeObservables

namespace Yaml

/-! ### The characters of a tag -/

/-- Whether a character stands for itself in a tag. A comma and square brackets do only in a
tag that is written `inFull`. -/
def isTagCharacter (inFull : Bool) (c : Char) : Bool :=
  isNameCharacter c ||
    c ∈ [';', '/', '?', ':', '@', '&', '=', '+', '$', '.', '!', '~', '*', '\'', '(', ')'] ||
    (inFull && c ∈ [',', '[', ']'])

/-- The number of octets that are still to come for a character in UTF-8 after an octet, where
`due` ones were to come before it. -/
def octetsAfter? (due : Nat) (octet : Nat) : Option Nat :=
  if 0 < due then (if 0x80 ≤ octet ∧ octet < 0xC0 then some (due - 1) else none)
  else if octet < 0x80 then some 0
  else if octet < 0xC0 then none
  else if octet < 0xE0 then some 1
  else if octet < 0xF0 then some 2
  else if octet < 0xF8 then some 3
  else none

/-- The characters of a tag at the start of a text, and the text after them. A percent sign
and two hexadecimal digits stand for an octet. The octets of one character follow each other;
`due` of them are still to come. -/
def tagText? (inFull : Bool) : Nat → List Char → Option (List Char × List Char)
  | due, '%' :: c :: d :: rest => do
    let octet ← digitsOfBase? 16 [c, d]
    let (more, rest) ← tagText? inFull (← octetsAfter? due octet) rest
    return (Char.ofNat octet :: more, rest)
  | 0, c :: rest =>
    if c = '%' then none
    else if isTagCharacter inFull c then do
      let (more, rest) ← tagText? inFull 0 rest
      return (c :: more, rest)
    else some ([], c :: rest)
  | 0, [] => some ([], [])
  | _, _ => none

/-- The part of a tag before an octet of value zero. -/
def untilZero (cs : List Char) : List Char :=
  cs.takeWhile (· ≠ '\x00')

/-- A part of a tag that must not be empty as it is written. -/
def tagPart? (inFull : Bool) (cs : List Char) : Option (List Char × List Char) := do
  let (part, rest) ← tagText? inFull 0 cs
  if part = [] then none else return (untilZero part, rest)

/-! ### Handles -/

/-- A **handle**: an exclamation mark alone, or a name, which may be empty, between two of
them. -/
inductive Handle
  | primary
  | named (name : List Char)
  deriving DecidableEq

namespace Handle

/-- Reads a handle behind its first mark. -/
def read? (cs : List Char) : Option (Handle × List Char) :=
  let (name, rest) := cs.span isNameCharacter
  match rest with
  | '!' :: rest => some (named name, rest)
  | rest => if name = [] then some (primary, rest) else none

/-- What a handle stands for unless a directive says otherwise. -/
def default? : Handle → Option (List Char)
  | primary => some ['!']
  | named [] => some "tag:yaml.org,2002:".toList
  | named _ => none

end Handle

/-! ### Directives -/

/-- The number of a version has at most nine digits. -/
def versionNumber? (cs : List Char) : Option (Nat × List Char) :=
  let (digits, rest) := cs.span Char.isDigit
  if digits.length ≤ 9 then (digitsOfBase? 10 digits).map fun n => (n, rest) else none

/-- The **directives** of a document: whether one gives the version, and what they say that
handles stand for. -/
structure Directives where
  version : Bool := false
  handles : List (Handle × List Char) := []

namespace Directives

/-- Reads the version, which is 1.1 or 1.2, and is given once. -/
def addVersion? (d : Directives) (cs : List Char) : Option (Directives × List Char) := do
  let (major, rest) ← versionNumber? (cs.dropWhile isBlank)
  match rest with
  | '.' :: rest =>
    let (minor, rest) ← versionNumber? rest
    if major = 1 ∧ (minor = 1 ∨ minor = 2) ∧ !d.version then
      return ({ d with version := true }, rest)
    else none
  | _ => none

/-- Reads a handle and what it stands for. No handle is given twice. -/
def addHandle? (d : Directives) (cs : List Char) : Option (Directives × List Char) :=
  match cs.dropWhile isBlank with
  | '!' :: rest => do
    let (handle, rest) ← Handle.read? rest
    let (start, rest') ← tagPart? true (rest.dropWhile isBlank)
    if rest.head?.any isBlank && atWordEnd rest' && (d.handles.lookup handle).isNone then
      return ({ d with handles := (handle, start) :: d.handles }, rest')
    else none
  | _ => none

/-- Adds the directive of a line behind its percent sign. A comment may follow it. -/
def add? (d : Directives) (line : List Char) : Option Directives := do
  let (name, rest) := line.span isNameCharacter
  if !atWordEnd rest then
    none
  let (d, rest) ←
    match String.ofList name with
    | "YAML" => d.addVersion? rest
    | "TAG" => d.addHandle? rest
    | _ => none
  match rest.dropWhile isBlank with
  | [] | '#' :: _ => return d
  | _ => none

/-- What a handle stands for. -/
def expand? (d : Directives) (handle : Handle) : Option (List Char) :=
  (d.handles.lookup handle).or handle.default?

/-- Reads a tag behind its exclamation mark. The mark alone is a tag, too. -/
def tag? (d : Directives) : List Char → Option (List Char × List Char)
  | '<' :: cs => do
    let (tag, rest) ← tagPart? true cs
    match rest with
    | '>' :: rest => return (tag, rest)
    | _ => none
  | cs =>
    match Handle.read? cs with
    | some (.named name, rest) => do
      let (tag, rest) ← tagPart? false rest
      return ((← d.expand? (.named name)) ++ tag, rest)
    | _ => do
      let (tag, rest) ← tagText? false 0 cs
      if untilZero tag = [] then return (['!'], rest)
      else return ((← d.expand? .primary) ++ untilZero tag, rest)

end Directives

end Yaml

end LatticeObservables
