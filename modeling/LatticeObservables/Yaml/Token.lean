import LatticeObservables.Yaml.Scalar
import LatticeObservables.Yaml.Tag

/-!
# Tokens of YAML

The scanner cuts a YAML text into tokens (`Yaml.scan?`). What is not visible in the text is
put in as tokens too: a block mapping or sequence starts where a line is indented further
than the block around it, and it ends where a line is indented less.

A key of a mapping shows itself only by the colon after it. Every token that could be a key
is therefore remembered as a candidate (`Candidate`) until its line ends or 1024 bytes of it
have gone by, and the colon puts the token `key` in front of it. A candidate that begins a
line of a block mapping has to be followed by a colon.

The scanner also resolves names. A tag is written out by the directives in front of it. An
anchor becomes a number and a reference to it becomes that number: an anchor takes the number
of names that have been given before it, and a name that is given again moves to its new
number.
-/

namespace LatticeObservables

namespace Yaml

/-- A **token**. An anchor and a reference to one hold the number of the anchor. -/
inductive Token
  | directive
  | documentStart
  | documentEnd
  | blockSequenceStart
  | blockMappingStart
  | blockEnd
  | flowSequenceStart
  | flowSequenceEnd
  | flowMappingStart
  | flowMappingEnd
  | blockEntry
  | flowEntry
  | key
  | value
  | anchor (number : Nat)
  | reference (number : Nat)
  | tag (text : String)
  | scalar (style : ScalarStyle) (text : String)
  deriving DecidableEq

/-! ### Scanner state -/

/-- A **candidate** for a key: the number of its token, its place, and whether it has to be a
key. -/
structure Candidate where
  token : Nat
  line : Nat
  column : Nat
  offset : Nat
  required : Bool

/-- The **state** of the scanner. The column counts characters; `offset` counts bytes in
UTF-8 from the point at which the scanner has come to the line. `indent` is the column of the
innermost block, `-1` outside of all, and `outer` holds those of the blocks around it. There
is one candidate at most on each level of flow collections, the innermost first. `anchors`
holds the names of the anchors with their numbers. -/
structure Scanner where
  rest : List Char
  line : Nat
  column : Nat
  offset : Nat
  tokens : Array Token
  indent : Int
  outer : List Int
  keyAllowed : Bool
  candidates : List (Option Candidate)
  directives : Directives
  anchors : List (String × Nat)

namespace Scanner

/-- The state at the start of a text. -/
def start (text : List Char) : Scanner where
  rest := text
  line := 0
  column := 0
  offset := 0
  tokens := #[]
  indent := -1
  outer := []
  keyAllowed := true
  candidates := [none]
  directives := {}
  anchors := []

/-- Whether the scanner is inside a flow collection. -/
def inFlow (s : Scanner) : Bool :=
  1 < s.candidates.length

/-- Appends a token. -/
def emit (s : Scanner) (t : Token) : Scanner :=
  { s with tokens := s.tokens.push t }

/-- Moves to a later place, which is followed by `rest`. -/
def moveTo (s : Scanner) (line column : Nat) (rest : List Char) : Scanner :=
  let between := s.rest.take (column - s.column)
  { s with
    rest := rest
    line := line
    column := column
    offset :=
      if line = s.line then between.foldl (fun size c => size + c.utf8Size) s.offset else 0 }

/-- Moves on by `n` characters of one line. -/
def skip (s : Scanner) (n : Nat) : Scanner :=
  s.moveTo s.line (s.column + n) (s.rest.drop n)

/-! ### Keys and indentation -/

/-- Gives up the candidate of the innermost level; it must not be a required one. -/
def dropCandidate? (s : Scanner) : Option Scanner :=
  match s.candidates with
  | some c :: others =>
    if c.required then none else some { s with candidates := none :: others }
  | _ => some s

/-- Whether a candidate can still be a key: a key stands on one line, and the colon at most
1024 bytes behind its start. -/
def inReach (s : Scanner) (c : Candidate) : Bool :=
  c.line = s.line && s.offset ≤ c.offset + 1024

/-- Gives up every candidate that is out of reach. -/
def dropStale? (s : Scanner) : Option Scanner := do
  let candidates ← s.candidates.mapM fun
    | none => some none
    | some c =>
      if s.inReach c then some (some c) else if c.required then none else some none
  return { s with candidates := candidates }

/-- Remembers that the next token could be a key. -/
def markCandidate? (s : Scanner) : Option Scanner := do
  if !s.keyAllowed then
    return s
  let s ← s.dropCandidate?
  let candidate : Candidate := {
    token := s.tokens.size
    line := s.line
    column := s.column
    offset := s.offset
    required := !s.inFlow && s.indent = s.column }
  return { s with candidates := some candidate :: s.candidates.tail }

/-- Opens a block at a column, with its token at the given place, unless the block around it
starts there or further in. -/
def openBlock (s : Scanner) (column : Nat) (place : Nat) (t : Token) : Scanner :=
  if s.inFlow || column ≤ s.indent then s
  else
    { s with
      indent := column
      outer := s.indent :: s.outer
      tokens := s.tokens.insertIdxIfInBounds place t }

/-- Closes the blocks, at most `fuel` of them, that start further in than a column. -/
def closeBlocks : Nat → Int → Scanner → Scanner
  | 0, _, s => s
  | fuel + 1, column, s =>
    if s.inFlow || s.indent ≤ column then s
    else
      closeBlocks fuel column
        { s.emit .blockEnd with indent := s.outer.headD (-1), outer := s.outer.tail }

/-- Closes all blocks that start further in than a column. -/
def unwind (s : Scanner) (column : Int) : Scanner :=
  closeBlocks s.outer.length column s

/-! ### Blanks and comments -/

/-- Blanks, comments and line breaks before a token. A tab is no indentation: it is skipped
only where no key can start. A line may start with one byte order mark, which takes a column
of its own. -/
def skipFrom (flow : Bool) : Bool → Bool → Nat → Nat → List Char →
    Bool × Nat × Nat × List Char
  | keyAllowed, comment, line, column, c :: rest =>
    if c = '\n' then skipFrom flow (keyAllowed || !flow) false (line + 1) 0 rest
    else if column = 0 && c = '\ufeff' then skipFrom flow keyAllowed comment line 1 rest
    else if comment || c = ' ' || (c = '\t' && (flow || !keyAllowed)) then
      skipFrom flow keyAllowed comment line (column + 1) rest
    else if c = '#' then skipFrom flow keyAllowed true line (column + 1) rest
    else (keyAllowed, line, column, c :: rest)
  | keyAllowed, _, line, column, [] => (keyAllowed, line, column, [])

/-- Moves to the next token. -/
def skipToToken (s : Scanner) : Scanner :=
  let (keyAllowed, line, column, rest) :=
    skipFrom s.inFlow s.keyAllowed false s.line s.column s.rest
  { s.moveTo line column rest with keyAllowed := keyAllowed }

/-! ### Tokens -/

/-- Puts a scalar in. -/
def addScalar (s : Scanner) (style : ScalarStyle) (e : ScalarEnd) : Scanner :=
  let s := s.emit (.scalar style (String.ofList e.reversed.reverse))
  { s.moveTo e.line e.column e.rest with keyAllowed := e.newLine }

/-- A document marker or a directive closes all blocks. -/
def markDocument? (s : Scanner) (t : Token) (length : Nat) : Option Scanner := do
  let s ← (s.unwind (-1)).dropCandidate?
  return { s.emit t with keyAllowed := false }.skip length

/-- A line with a directive, and the break at its end. No key can start right behind it, so a
tab may stand there. -/
def directive? (s : Scanner) : Option Scanner := do
  let (line, rest) := s.rest.span (· ≠ '\n')
  let directives ← s.directives.add? line.tail
  let s ← { s with directives := directives }.markDocument? .directive line.length
  return if rest = [] then s else s.moveTo (s.line + 1) 0 rest.tail

/-- The opening bracket of a flow collection. -/
def openFlow? (s : Scanner) (t : Token) : Option Scanner := do
  let s ← s.markCandidate?
  return { s.emit t with candidates := none :: s.candidates, keyAllowed := true }.skip 1

/-- The closing bracket of a flow collection. -/
def closeFlow? (s : Scanner) (t : Token) : Option Scanner := do
  let s ← s.dropCandidate?
  let candidates := if s.inFlow then s.candidates.tail else s.candidates
  return { s.emit t with candidates := candidates, keyAllowed := false }.skip 1

/-- The comma between the entries of a flow collection. -/
def flowEntry? (s : Scanner) : Option Scanner := do
  let s ← s.dropCandidate?
  return { s.emit .flowEntry with keyAllowed := true }.skip 1

/-- The dash before an entry of a block sequence. -/
def blockEntry? (s : Scanner) : Option Scanner := do
  if !s.inFlow && !s.keyAllowed then
    none
  let s ← (s.openBlock s.column s.tokens.size .blockSequenceStart).dropCandidate?
  return { s.emit .blockEntry with keyAllowed := true }.skip 1

/-- The question mark before a key. -/
def explicitKey? (s : Scanner) : Option Scanner := do
  if !s.inFlow && !s.keyAllowed then
    none
  let s ← (s.openBlock s.column s.tokens.size .blockMappingStart).dropCandidate?
  return { s.emit .key with keyAllowed := !s.inFlow }.skip 1

/-- The colon before a value. It makes a key of the candidate if there is one. -/
def value? (s : Scanner) : Option Scanner :=
  match s.candidates with
  | some c :: others =>
    let keyed : Scanner :=
      { s with
        tokens := s.tokens.insertIdxIfInBounds c.token .key
        candidates := none :: others }
    let opened := keyed.openBlock c.column c.token .blockMappingStart
    some ({ opened.emit .value with keyAllowed := false }.skip 1)
  | _ =>
    if s.inFlow then some ({ s.emit .value with keyAllowed := false }.skip 1)
    else if s.keyAllowed then
      let opened := s.openBlock s.column s.tokens.size .blockMappingStart
      some ({ opened.emit .value with keyAllowed := true }.skip 1)
    else none

/-- An anchor, a reference or a tag of the given length. It can begin a key or be one. -/
def property? (s : Scanner) (t : Token) (length : Nat) : Option Scanner := do
  let s ← s.markCandidate?
  return { s.emit t with keyAllowed := false }.skip length

/-- The name behind the mark of an anchor or of a reference. -/
def anchorName? (s : Scanner) : Option String :=
  let (name, rest) := s.rest.tail.span isNameCharacter
  if name = [] || !atNameEnd rest then none else some (String.ofList name)

/-- An anchor. Its number is that of the names before it. -/
def anchor? (s : Scanner) : Option Scanner := do
  let name ← s.anchorName?
  let number := s.anchors.length
  let anchors := (name, number) :: s.anchors.filter (·.1 ≠ name)
  { s with anchors := anchors }.property? (.anchor number) (name.length + 1)

/-- A reference to an anchor, whose name has been given before. -/
def reference? (s : Scanner) : Option Scanner := do
  let name ← s.anchorName?
  s.property? (.reference (← s.anchors.lookup name)) (name.length + 1)

/-- A tag. Inside a flow collection a comma may follow it at once. -/
def tag? (s : Scanner) : Option Scanner := do
  let (tag, rest) ← s.directives.tag? s.rest.tail
  if atWordEnd rest || (s.inFlow && rest.head? = some ',') then
    s.property? (.tag (String.ofList tag)) (s.rest.length - rest.length)
  else none

/-- The next token. -/
def step? (s : Scanner) : Option Scanner :=
  match s.rest with
  | [] => some s
  | c :: rest =>
    if s.column = 0 && c = '%' then s.directive?
    else if s.column = 0 && atMarker s.rest then
      s.markDocument? (if c = '-' then .documentStart else .documentEnd) 3
    else if c = '[' then s.openFlow? .flowSequenceStart
    else if c = '\x7b' then s.openFlow? .flowMappingStart
    else if c = ']' then s.closeFlow? .flowSequenceEnd
    else if c = '\x7d' then s.closeFlow? .flowMappingEnd
    else if c = ',' then s.flowEntry?
    else if c = '-' && atWordEnd rest then s.blockEntry?
    else if c = '?' && (s.inFlow || atWordEnd rest) then s.explicitKey?
    else if c = ':' && (s.inFlow || atWordEnd rest) then s.value?
    else if c = '*' then s.reference?
    else if c = '&' then s.anchor?
    else if c = '!' then s.tag?
    else if !s.inFlow && (c = '|' || c = '>') then do
      let s ← s.dropCandidate?
      let style := if c = '|' then .literal else .folded
      return s.addScalar style (← blockScalar? (c = '|') s.indent s.line rest)
    else if c = '\'' || c = '"' then do
      let s ← s.markCandidate?
      return s.addScalar .quoted
        (← quotedFrom? c (rest.length + 1) [] .none s.line (s.column + 1) rest)
    else if atPlainScalar s.inFlow s.rest then do
      let s ← s.markCandidate?
      return s.addScalar .plain
        (← plainFrom? s.inFlow (s.indent + 1).toNat [] .none s.line s.column s.rest)
    else none

/-- All tokens of the rest of a text, at most `fuel` of them. -/
def run? : Nat → Scanner → Option (List Token)
  | 0, _ => none
  | fuel + 1, s => do
    let s ← s.skipToToken.dropStale?
    if s.rest = [] then
      let s ← (s.unwind (-1)).dropCandidate?
      return s.tokens.toList
    else
      let s ← (s.unwind s.column).step?
      run? fuel s

end Scanner

/-- The **tokens** of a text; `none` if it is malformed. Every token takes at least one
character. -/
def scan? (text : String) : Option (List Token) :=
  let cs := normalizeBreaks text.toList
  if cs.all isPrintable then Scanner.run? (cs.length + 1) (Scanner.start cs) else none

end Yaml

end LatticeObservables
