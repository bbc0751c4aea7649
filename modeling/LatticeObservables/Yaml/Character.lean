/-!
# Characters of YAML

The characters that a YAML text consists of (`Yaml.isPrintable`), those that have a meaning
(`Yaml.isIndicator`), and the tests by which a scanner tells from the characters ahead what
comes next: the end of a word, the end of a name, a document marker, a plain scalar. Lines
end in the same way everywhere once `Yaml.normalizeBreaks` has been applied.
-/

namespace LatticeObservables

namespace Yaml

/-! ### Kinds of characters -/

/-- Whether a character is a blank within a line. -/
def isBlank (c : Char) : Bool :=
  c = ' ' || c = '\t'

/-- Whether a character may stand in the name of an anchor, a handle or a directive. -/
def isNameCharacter (c : Char) : Bool :=
  c.isAlphanum || c = '-' || c = '_'

/-- The characters that have a meaning inside flow collections. -/
def isFlowIndicator (c : Char) : Bool :=
  c ∈ [',', '[', ']', '\x7b', '\x7d']

/-- The characters that have a meaning at the start of a word. -/
def isIndicator (c : Char) : Bool :=
  isFlowIndicator c ||
    c ∈ ['-', '?', ':', '#', '&', '*', '!', '|', '>', '\'', '"', '%', '@', '\x60']

/-- Whether a character may stand in a text. -/
def isPrintable (c : Char) : Bool :=
  c = '\t' || c = '\n' || (' ' ≤ c && c ≤ '~') || (0xA0 ≤ c.toNat && c.toNat < 0xFFFE) ||
    0x10000 ≤ c.toNat

/-! ### What comes next -/

/-- Whether a text ends here, or a word in it. -/
def atWordEnd : List Char → Bool
  | [] => true
  | c :: _ => isBlank c || c = '\n'

/-- Whether the name of an anchor may end here. -/
def atNameEnd (cs : List Char) : Bool :=
  atWordEnd cs || cs.head?.any fun c => c ∈ ['?', ':', ',', ']', '\x7d', '%', '@', '\x60']

/-- Whether a line starts with a document marker. -/
def atMarker : List Char → Bool
  | '-' :: '-' :: '-' :: rest => atWordEnd rest
  | '.' :: '.' :: '.' :: rest => atWordEnd rest
  | _ => false

/-- Whether a plain scalar starts here. It may start with a dash before anything but a blank
and, outside of flow collections, with a question mark or a colon inside a word. -/
def atPlainScalar (flow : Bool) : List Char → Bool
  | [] => false
  | c :: rest =>
    !(isBlank c || isIndicator c) || (c = '-' && !rest.head?.any isBlank) ||
      (!flow && (c = '?' || c = ':') && !atWordEnd rest)

/-! ### Numbers and lines -/

/-- The value of the digits of a base, of which there is at least one. -/
def digitsOfBase? (base : Nat) (cs : List Char) : Option Nat :=
  if cs = [] then none
  else cs.foldlM (fun n c => (digitValue? c).map fun d => n * base + d) 0
where
  /-- The value of a digit of the base. -/
  digitValue? (c : Char) : Option Nat :=
    let d :=
      if c.isDigit then c.toNat - '0'.toNat
      else if 'a' ≤ c ∧ c ≤ 'f' then c.toNat - 'a'.toNat + 10
      else if 'A' ≤ c ∧ c ≤ 'F' then c.toNat - 'A'.toNat + 10
      else 16
    if d < base then some d else none

/-- The text with every kind of line break as a line feed. -/
def normalizeBreaks : List Char → List Char
  | '\r' :: '\n' :: rest => '\n' :: normalizeBreaks rest
  | c :: rest =>
    let isBreak := c = '\r' || c.toNat = 0x85 || c.toNat = 0x2028 || c.toNat = 0x2029
    (if isBreak then '\n' else c) :: normalizeBreaks rest
  | [] => []

end Yaml

end LatticeObservables
