import LatticeObservables.Yaml.Token

/-!
# Nodes of YAML

A document is a node: a scalar, a sequence, or a mapping from nodes to nodes, each with an
anchor and a tag if it has them, or a reference to a node with an anchor (`Yaml.Node`).
`Yaml.document?` reads the one document of a text; a text without any is not an error, and
one with several is. `Yaml.Node.resolve?` follows a reference.
-/

namespace LatticeObservables

namespace Yaml

/-- The **properties** that a node can have. -/
structure Properties where
  anchor : Option Nat := none
  tag : Option String := none
  deriving DecidableEq

/-- Reads an anchor and a tag, in any order. -/
def Properties.read : List Token → Properties × List Token
  | .anchor n :: .tag t :: rest => (⟨some n, some t⟩, rest)
  | .tag t :: .anchor n :: rest => (⟨some n, some t⟩, rest)
  | .anchor n :: rest => (⟨some n, none⟩, rest)
  | .tag t :: rest => (⟨none, some t⟩, rest)
  | rest => ({}, rest)

/-- A **node**. A place where a node is left out holds the empty plain scalar. -/
inductive Node
  | scalar (properties : Properties) (style : ScalarStyle) (text : String)
  | sequence (properties : Properties) (items : List Node)
  | mapping (properties : Properties) (entries : List (Node × Node))
  | reference (number : Nat)

/-- The **place** of a node: the content of a document or of an entry in a block, the key or
the value of a block mapping, or a place in a flow collection. A block collection cannot stand
in a flow collection; in a block mapping a sequence need not be indented. -/
inductive Place
  | block
  | pair
  | flow
  deriving DecidableEq

namespace Node

/-- The node that is left out. -/
def omitted : Node :=
  scalar {} .plain ""

mutual

/-- A node at the start of the tokens. Properties with nothing behind them are those of a node
that is left out. -/
def read? (place : Place) : Nat → List Token → Option (Node × List Token)
  | 0, _ => none
  | fuel + 1, tokens =>
    let (p, content) := Properties.read tokens
    let bare := if p = {} then none else some (scalar p .plain "", content)
    match content with
    | .scalar style text :: rest => some (scalar p style text, rest)
    | .reference n :: rest => if p = {} then some (reference n, rest) else bare
    | .blockMappingStart :: rest =>
      if place = .flow then bare
      else do
        let (entries, rest) ← blockEntries? fuel rest
        return (mapping p entries, rest)
    | .blockSequenceStart :: rest =>
      if place = .flow then bare
      else do
        match ← blockItems? fuel rest with
        | (items, .blockEnd :: rest) => return (sequence p items, rest)
        | _ => none
    | .blockEntry :: rest =>
      if place = .pair then do
        let (items, rest) ← blockItems? fuel (.blockEntry :: rest)
        return (sequence p items, rest)
      else bare
    | .flowSequenceStart :: .flowSequenceEnd :: rest => some (sequence p [], rest)
    | .flowSequenceStart :: rest => do
      let (items, rest) ← flowItems? fuel rest
      return (sequence p items, rest)
    | .flowMappingStart :: .flowMappingEnd :: rest => some (mapping p [], rest)
    | .flowMappingStart :: rest => do
      let (entries, rest) ← flowEntries? fuel rest
      return (mapping p entries, rest)
    | _ => bare

/-- The items of a block sequence, up to what is no item. -/
def blockItems? : Nat → List Token → Option (List Node × List Token)
  | 0, _ => none
  | fuel + 1, tokens =>
    match tokens with
    | .blockEntry :: rest => do
      let (item, rest) ←
        match rest with
        | [] | .blockEntry :: _ | .blockEnd :: _ | .key :: _ | .value :: _ =>
          some (omitted, rest)
        | rest => read? .block fuel rest
      let (items, rest) ← blockItems? fuel rest
      return (item :: items, rest)
    | tokens => some ([], tokens)

/-- The entries of a block mapping and its end. -/
def blockEntries? : Nat → List Token → Option (List (Node × Node) × List Token)
  | 0, _ => none
  | fuel + 1, tokens =>
    match tokens with
    | .blockEnd :: rest => some ([], rest)
    | .key :: rest => do
      let (name, rest) ←
        match rest with
        | .key :: _ | .value :: _ | .blockEnd :: _ => some (omitted, rest)
        | rest => read? .pair fuel rest
      let (content, rest) ←
        match rest with
        | .value :: rest =>
          match rest with
          | .key :: _ | .value :: _ | .blockEnd :: _ => some (omitted, rest)
          | rest => read? .pair fuel rest
        | rest => some (omitted, rest)
      let (entries, rest) ← blockEntries? fuel rest
      return ((name, content) :: entries, rest)
    | _ => none

/-- The value after a key in a flow collection that ends with the token `closing`. -/
def flowValue? (closing : Token) : Nat → List Token → Option (Node × List Token)
  | 0, _ => none
  | fuel + 1, tokens =>
    match tokens with
    | .value :: rest =>
      if rest.head? = some .flowEntry ∨ rest.head? = some closing then some (omitted, rest)
      else read? .flow fuel rest
    | rest => some (omitted, rest)

/-- A key and its value in a flow collection. In a sequence the token in place of a key that is
left out goes with it. -/
def flowPair? (closing : Token) : Nat → List Token → Option ((Node × Node) × List Token)
  | 0, _ => none
  | fuel + 1, tokens => do
    let next := tokens.head?
    let (name, rest) ←
      if next = some .value ∨ next = some .flowEntry ∨ next = some closing then
        some (omitted, if closing = .flowSequenceEnd then tokens.tail else tokens)
      else read? .flow fuel tokens
    let (content, rest) ← flowValue? closing fuel rest
    return ((name, content), rest)

/-- The items of a flow sequence and its end. A pair is a mapping with one entry. -/
def flowItems? : Nat → List Token → Option (List Node × List Token)
  | 0, _ => none
  | fuel + 1, tokens => do
    let (item, rest) ←
      match tokens with
      | .key :: rest => do
        let (pair, rest) ← flowPair? .flowSequenceEnd fuel rest
        some (mapping {} [pair], rest)
      | tokens => read? .flow fuel tokens
    match rest with
    | .flowSequenceEnd :: rest => return ([item], rest)
    | .flowEntry :: .flowSequenceEnd :: rest => return ([item], rest)
    | .flowEntry :: rest => do
      let (items, rest) ← flowItems? fuel rest
      return (item :: items, rest)
    | _ => none

/-- The entries of a flow mapping and its end. A key without a value has none. -/
def flowEntries? : Nat → List Token → Option (List (Node × Node) × List Token)
  | 0, _ => none
  | fuel + 1, tokens => do
    let (entry, rest) ←
      match tokens with
      | .key :: rest => flowPair? .flowMappingEnd fuel rest
      | tokens => do
        let (name, rest) ← read? .flow fuel tokens
        some ((name, omitted), rest)
    match rest with
    | .flowMappingEnd :: rest => return ([entry], rest)
    | .flowEntry :: .flowMappingEnd :: rest => return ([entry], rest)
    | .flowEntry :: rest => do
      let (entries, rest) ← flowEntries? fuel rest
      return (entry :: entries, rest)
    | _ => none

end

/-- The content of a document, which can be left out after its marker. -/
def content? (tokens : List Token) : Option (Node × List Token) :=
  match tokens with
  | [] | .documentStart :: _ | .documentEnd :: _ | .directive :: _ => some (omitted, tokens)
  | tokens => read? .block (2 * tokens.length + 2) tokens

/-- The root of a document and the tokens behind it. A document marker has to follow
directives. -/
def root? (tokens : List Token) : Option (Node × List Token) :=
  match tokens.dropWhile (· = .directive) with
  | .documentStart :: rest => content? rest
  | _ =>
    if tokens.head? = some .directive then none
    else read? .block (2 * tokens.length + 2) tokens

/-- The one document of a list of tokens, if there is one. -/
def ofTokens? (tokens : List Token) : Option (Option Node) :=
  if tokens = [] then some none
  else
    match root? tokens with
    | some (node, rest) => if rest.all (· = .documentEnd) then some (some node) else none
    | none => none

/-! ### References -/

/-- A node under the number of its anchor. -/
def labelled (p : Properties) (node : Node) : List (Nat × Node) :=
  p.anchor.toList.map fun n => (n, node)

mutual

/-- The nodes with an anchor, with its number, in the order of the text. -/
def anchored : Node → List (Nat × Node)
  | scalar p style text => labelled p (scalar p style text)
  | sequence p items => labelled p (sequence p items) ++ anchoredItems items
  | mapping p entries => labelled p (mapping p entries) ++ anchoredEntries entries
  | reference _ => []

/-- The nodes with an anchor among items. -/
def anchoredItems : List Node → List (Nat × Node)
  | [] => []
  | node :: rest => anchored node ++ anchoredItems rest

/-- The nodes with an anchor among entries. -/
def anchoredEntries : List (Node × Node) → List (Nat × Node)
  | [] => []
  | (name, content) :: rest => anchored name ++ anchored content ++ anchoredEntries rest

end

/-- The node that a node of the document stands for. A reference stands for the last node with
an anchor of its number. -/
def resolve? (document : Node) : Node → Option Node
  | reference n => document.anchored.reverse.lookup n
  | node => some node

end Node

/-- The **document** of a text; the outer `none` means that the text is malformed, the inner
one that there is no document in it. -/
def document? (text : String) : Option (Option Node) := do
  Node.ofTokens? (← scan? text)

end Yaml

end LatticeObservables
