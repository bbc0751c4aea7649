import LatticeObservables.Yaml.Character

/-!
# Scalars of YAML

A scalar is written in one of several styles (`Yaml.ScalarStyle`). A plain one has no marks of
its own and ends where the text around it says so (`Yaml.plainFrom?`); a quoted one ends at
its closing quote (`Yaml.quotedFrom?`); one in a block of its own ends where the block does
(`Yaml.blockScalar?`). In all but a literal block the line breaks between words are folded.

Each reader takes the text behind what it has seen and returns the characters with the place
where the scalar ends (`Yaml.ScalarEnd`).
-/

namespace LatticeObservables

namespace Yaml

/-- The **style** of a scalar. Those in quotes are `quoted`; one in a block is `literal` if its
lines are kept as they are and `folded` otherwise. -/
inductive ScalarStyle
  | plain
  | quoted
  | literal
  | folded
  deriving DecidableEq

/-! ### Plain and quoted scalars -/

/-- What stands **between words** of a scalar: blanks on one line, or a line break with a
number of further ones. A break is `joined` if a backslash stands before it. -/
inductive Gap
  | blanks (cs : List Char)
  | lines (joined : Bool) (more : Nat)

namespace Gap

/-- Nothing between two words. -/
def none : Gap :=
  blanks []

/-- Whether there is anything between two words. -/
def isEmpty : Gap → Bool
  | blanks cs => cs.isEmpty
  | lines .. => false

/-- Whether the second word is on a line of its own. -/
def isBreak : Gap → Bool
  | blanks _ => false
  | lines .. => true

/-- The characters that a gap becomes: a single break is a blank, or nothing if it is joined,
and of several the first one is dropped. -/
def folded : Gap → List Char
  | blanks cs => cs
  | lines joined 0 => if joined then [] else [' ']
  | lines _ more => List.replicate more '\n'

/-- A gap with one more blank; blanks at the start of a line do not count. -/
def addBlank (c : Char) : Gap → Gap
  | blanks cs => blanks (cs ++ [c])
  | g => g

/-- A gap with one more line break, after which the blanks before it do not count. -/
def addBreak : Gap → Gap
  | blanks _ => lines false 0
  | lines joined more => lines joined (more + 1)

end Gap

/-- The state after a scalar: its characters in reverse, and the place behind it. -/
structure ScalarEnd where
  reversed : List Char
  rest : List Char
  line : Nat
  column : Nat
  /-- Whether a line break stands between the scalar and this place. -/
  newLine : Bool

/-- The rest of a plain scalar. It ends before a comment, a document marker, a line that is
indented less than `indent`, and a colon that ends a word; in a flow collection also before
the characters that have a meaning there. -/
def plainFrom? (flow : Bool) (indent : Nat) :
    List Char → Gap → Nat → Nat → List Char → Option ScalarEnd
  | reversed, gap, line, column, c :: rest =>
    if c = '\n' then plainFrom? flow indent reversed gap.addBreak (line + 1) 0 rest
    else if isBlank c then
      if gap.isBreak && column < indent && c = '\t' then none
      else plainFrom? flow indent reversed (gap.addBlank c) line (column + 1) rest
    else
      let here : ScalarEnd := ⟨reversed, c :: rest, line, column, gap.isBreak⟩
      let endsAfterGap :=
        !gap.isEmpty &&
          ((gap.isBreak && !flow && column < indent) ||
            (column = 0 && atMarker (c :: rest)) || c = '#')
      if endsAfterGap then some here
      else if c = ':' && atWordEnd rest then some here
      else if flow && c = ':' && (rest.head?.any fun d => isFlowIndicator d || d = '?') then none
      else if flow && isFlowIndicator c then some here
      else
        plainFrom? flow indent (c :: (gap.folded.reverse ++ reversed)) .none line (column + 1)
          rest
  | reversed, gap, line, column, [] => some ⟨reversed, [], line, column, gap.isBreak⟩

/-- The character of a one-letter escape in double quotes. -/
def escape? : Char → Option Char
  | '0' => some '\x00'
  | 'a' => some '\x07'
  | 'b' => some '\x08'
  | 't' => some '\t'
  | '\t' => some '\t'
  | 'n' => some '\n'
  | 'v' => some '\x0b'
  | 'f' => some '\x0c'
  | 'r' => some '\r'
  | 'e' => some '\x1b'
  | ' ' => some ' '
  | '"' => some '"'
  | '/' => some '/'
  | '\\' => some '\\'
  | 'N' => some '\u0085'
  | '_' => some '\u00a0'
  | 'L' => some '\u2028'
  | 'P' => some '\u2029'
  | _ => none

/-- The number of hexadecimal digits after the letter of an escape. -/
def escapeLength? : Char → Option Nat
  | 'x' => some 2
  | 'u' => some 4
  | 'U' => some 8
  | _ => none

/-- The character of a number in hexadecimal digits. -/
def escapedChar? (digits : List Char) : Option Char := do
  let n ← digitsOfBase? 16 digits
  if h : n.isValidChar then some (Char.ofNatAux n h) else none

/-- What a backslash in double quotes stands for: the characters and the number of characters
behind the backslash that they take. -/
def escapeAfter? : List Char → Option (Char × Nat)
  | [] => none
  | e :: rest =>
    match escapeLength? e with
    | some n =>
      if (rest.take n).length = n then
        (escapedChar? (rest.take n)).map fun c => (c, n + 1)
      else none
    | none => (escape? e).map fun c => (c, 1)

/-- The rest of a quoted scalar after its opening quote, of at most `fuel` characters. In
single quotes a quote is written twice, in double quotes a backslash begins an escape. -/
def quotedFrom? (quote : Char) :
    Nat → List Char → Gap → Nat → Nat → List Char → Option ScalarEnd
  | fuel + 1, reversed, gap, line, column, c :: rest =>
    let before := gap.folded.reverse ++ reversed
    if column = 0 && atMarker (c :: rest) then none
    else if c = '\n' then quotedFrom? quote fuel reversed gap.addBreak (line + 1) 0 rest
    else if isBlank c then
      quotedFrom? quote fuel reversed (gap.addBlank c) line (column + 1) rest
    else if c = '\'' && c = quote && rest.head? = some c then
      quotedFrom? quote fuel (c :: before) .none line (column + 2) rest.tail
    else if c = quote then some ⟨before, rest, line, column + 1, false⟩
    else if c = '\\' && quote = '"' then
      if rest.head? = some '\n' then
        quotedFrom? quote fuel before (.lines true 0) (line + 1) 0 rest.tail
      else do
        let (d, n) ← escapeAfter? rest
        quotedFrom? quote fuel (d :: before) .none line (column + 1 + n) (rest.drop n)
    else quotedFrom? quote fuel (c :: before) .none line (column + 1) rest
  | _, _, _, _, _, _ => none

/-! ### Block scalars -/

/-- How the line breaks at the end of a block scalar are kept: none, one, or all. -/
inductive Chomping
  | strip
  | clip
  | keep

/-- The **header** of a block scalar. -/
structure BlockHeader where
  literal : Bool
  chomping : Chomping
  /-- The indentation relative to the block around it, if it is given. -/
  indentation : Option Nat

/-- Reads a header behind its first character. The digit and the sign stand in any order. -/
def BlockHeader.read? (literal : Bool) (line : List Char) : Option BlockHeader := do
  let (marks, comment) := line.span fun c => !isBlank c && c ≠ '#'
  let comment := comment.dropWhile isBlank
  if !(comment.isEmpty || comment.head? = some '#') then none
  let chomping? : Char → Option Chomping
    | '+' => some .keep
    | '-' => some .strip
    | _ => none
  let indentation? (c : Char) : Option Nat :=
    if c.isDigit && c ≠ '0' then some (c.toNat - '0'.toNat) else none
  match marks with
  | [] => return ⟨literal, .clip, none⟩
  | [c] =>
    match chomping? c with
    | some k => return ⟨literal, k, none⟩
    | none => return ⟨literal, .clip, some (← indentation? c)⟩
  | [c, d] =>
    match chomping? c with
    | some k => return ⟨literal, k, some (← indentation? d)⟩
    | none => return ⟨literal, ← chomping? d, some (← indentation? c)⟩
  | _ => none

/-- Empty lines and the indentation after them. With no `indent` given all blanks belong to
the indentation. The numbers are those of breaks, of the column, and of the widest line. -/
def indentFrom? (indent : Option Nat) :
    Nat → Nat → Nat → List Char → Option (Nat × Nat × Nat × List Char)
  | breaks, column, widest, c :: rest =>
    let within := indent.all (column < ·)
    let widest := max column widest
    if within && c = ' ' then indentFrom? indent breaks (column + 1) widest rest
    else if within && c = '\t' then none
    else if c = '\n' then indentFrom? indent (breaks + 1) 0 widest rest
    else some (breaks, column, widest, c :: rest)
  | breaks, column, widest, [] => some (breaks, column, max column widest, [])

/-- The lines of a block scalar, of which there are at most `fuel`, from the first character
of one that is not empty. A single break between two lines that start with no blank is folded
unless the scalar is a literal one; `breaks` are those since the line before, `blank` says
whether that one started with a blank. -/
def blockFrom? (header : BlockHeader) (indent : Nat) :
    Nat → List Char → Nat → Bool → Nat → Nat → List Char → Option ScalarEnd
  | 0, _, _, _, _, _, _ => none
  | fuel + 1, reversed, breaks, blank, line, column, rest =>
    if column = indent && !rest.isEmpty then do
      let startsBlank := rest.head?.any isBlank
      let folds := !header.literal && !reversed.isEmpty && !blank && !startsBlank
      let gap :=
        if folds then (if breaks = 1 then [' '] else List.replicate (breaks - 1) '\n')
        else List.replicate breaks '\n'
      let (text, rest) := rest.span (· ≠ '\n')
      let reversed := text.reverse ++ gap ++ reversed
      let broken := !rest.isEmpty
      let (more, column, _, rest) ← indentFrom? (some indent) 0 0 0 rest.tail
      let breaks := if broken then more + 1 else 0
      blockFrom? header indent fuel reversed breaks startsBlank (line + breaks) column rest
    else
      let kept :=
        match header.chomping with
        | .strip => 0
        | .clip => if reversed.isEmpty then 0 else min breaks 1
        | .keep => breaks
      some ⟨List.replicate kept '\n' ++ reversed, rest, line, column, true⟩

/-- A block scalar behind its first character, inside a block at column `outer`. -/
def blockScalar? (literal : Bool) (outer : Int) (line : Nat) (rest : List Char) :
    Option ScalarEnd := do
  let (first, rest) := rest.span (· ≠ '\n')
  let header ← BlockHeader.read? literal first
  let given := header.indentation.map fun n => (max outer 0).toNat + n
  let (breaks, column, widest, rest) ← indentFrom? given 0 0 0 rest.tail
  let indent := given.getD (max (max widest 1) (outer + 1).toNat)
  blockFrom? header indent (rest.length + 1) [] breaks false (line + 1 + breaks) column rest

end Yaml

end LatticeObservables
