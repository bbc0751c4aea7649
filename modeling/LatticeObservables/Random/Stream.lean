/-!
# Random Streams

Each simulation owns a stream of random words: the key stream of a ChaCha cipher with eight
rounds. A seed of 64 bits is stretched to the key by a linear congruential generator with
permuted output (`RandomStream.keyOfSeed`), and the number of the simulation selects one of the
independent streams of that key (`RandomStream.ofSeed`). Words of 64 bits are drawn in the order
in which the cipher produces their halves, the low one first (`RandomStream.next`).
-/

namespace LatticeObservables

/-- A **random stream**: key, number of the stream, the number of the next block, and the
words of the current block that were not drawn yet. -/
structure RandomStream where
  key : List UInt32
  number : UInt64
  block : UInt64
  pending : List UInt32
  deriving DecidableEq

namespace RandomStream

/-! ### The cipher -/

/-- Rotates a word to the left by `k` bits, `0 < k < 32`. -/
def rotateLeft (x : UInt32) (k : UInt32) : UInt32 :=
  (x <<< k) ||| (x >>> (32 - k))

/-- Four words mixed by addition, exclusive or and rotation. -/
def quarterRound (a b c d : UInt32) : UInt32 × UInt32 × UInt32 × UInt32 :=
  let a := a + b
  let d := rotateLeft (d ^^^ a) 16
  let c := c + d
  let b := rotateLeft (b ^^^ c) 12
  let a := a + b
  let d := rotateLeft (d ^^^ a) 8
  let c := c + d
  let b := rotateLeft (b ^^^ c) 7
  (a, b, c, d)

/-- The state of the cipher, four rows of four words. -/
structure Grid where
  a : UInt32 × UInt32 × UInt32 × UInt32
  b : UInt32 × UInt32 × UInt32 × UInt32
  c : UInt32 × UInt32 × UInt32 × UInt32
  d : UInt32 × UInt32 × UInt32 × UInt32

/-- Mixes the columns of a grid. -/
def Grid.columnRound (g : Grid) : Grid :=
  let (a0, b0, c0, d0) := quarterRound g.a.1 g.b.1 g.c.1 g.d.1
  let (a1, b1, c1, d1) := quarterRound g.a.2.1 g.b.2.1 g.c.2.1 g.d.2.1
  let (a2, b2, c2, d2) := quarterRound g.a.2.2.1 g.b.2.2.1 g.c.2.2.1 g.d.2.2.1
  let (a3, b3, c3, d3) := quarterRound g.a.2.2.2 g.b.2.2.2 g.c.2.2.2 g.d.2.2.2
  ⟨(a0, a1, a2, a3), (b0, b1, b2, b3), (c0, c1, c2, c3), (d0, d1, d2, d3)⟩

/-- Turns the rows so that the diagonals become the columns. -/
def Grid.shear (g : Grid) : Grid :=
  ⟨g.a,
   (g.b.2.1, g.b.2.2.1, g.b.2.2.2, g.b.1),
   (g.c.2.2.1, g.c.2.2.2, g.c.1, g.c.2.1),
   (g.d.2.2.2, g.d.1, g.d.2.1, g.d.2.2.1)⟩

/-- Turns the rows back. -/
def Grid.unshear (g : Grid) : Grid :=
  ⟨g.a,
   (g.b.2.2.2, g.b.1, g.b.2.1, g.b.2.2.1),
   (g.c.2.2.1, g.c.2.2.2, g.c.1, g.c.2.1),
   (g.d.2.1, g.d.2.2.1, g.d.2.2.2, g.d.1)⟩

/-- One round on the columns and one on the diagonals. -/
def Grid.doubleRound (g : Grid) : Grid :=
  g.columnRound.shear.columnRound.unshear

/-- The words of a grid, row by row. -/
def Grid.words (g : Grid) : List UInt32 :=
  [g.a, g.b, g.c, g.d].flatMap fun r => [r.1, r.2.1, r.2.2.1, r.2.2.2]

/-- The grid of a list of sixteen words; missing ones are zero. -/
def Grid.ofWords (w : List UInt32) : Grid :=
  let row (i : Nat) := (w.getD i 0, w.getD (i + 1) 0, w.getD (i + 2) 0, w.getD (i + 3) 0)
  ⟨row 0, row 4, row 8, row 12⟩

/-- The words that every grid starts with. -/
def constants : List UInt32 :=
  [0x61707865, 0x3320646e, 0x79622d32, 0x6b206574]

/-- The low and the high half of a word of 64 bits. -/
def halves (x : UInt64) : List UInt32 :=
  [x.toUInt32, (x >>> 32).toUInt32]

/-- The sixteen words of a block of the key stream: the grid of the constants, the key, the
number of the block and the number of the stream, added to itself after eight rounds. -/
def blockWords (key : List UInt32) (number block : UInt64) : List UInt32 :=
  let start := constants ++ key ++ halves block ++ halves number
  let grid := Grid.ofWords start
  let mixed := grid.doubleRound.doubleRound.doubleRound.doubleRound
  start.zipWith (· + ·) mixed.words

/-! ### Seeds -/

/-- The state that follows `state` in the generator that stretches a seed. -/
def stretchStep (state : UInt64) : UInt64 :=
  state * 6364136223846793005 + 11634580027462260723

/-- The word that the generator puts out in a state. -/
def stretchOutput (state : UInt64) : UInt32 :=
  let mixed := (((state >>> 18) ^^^ state) >>> 27).toUInt32
  let turn := (state >>> 59).toUInt32
  (mixed >>> turn) ||| (mixed <<< ((32 - turn) &&& 31))

/-- The next `n` words that a seed is stretched to. -/
def stretched : Nat → UInt64 → List UInt32
  | 0, _ => []
  | n + 1, state =>
    let state := stretchStep state
    stretchOutput state :: stretched n state

/-- The key of a seed. -/
def keyOfSeed (seed : UInt64) : List UInt32 :=
  stretched 8 seed

/-- The stream with the given number of the key of a seed, at its beginning. -/
def ofSeed (seed number : UInt64) : RandomStream :=
  ⟨keyOfSeed seed, number, 0, []⟩

/-! ### Drawing -/

/-- A word of 64 bits from its halves. -/
def joined (low high : UInt32) : UInt64 :=
  (high.toUInt64 <<< 32) ||| low.toUInt64

/-- Draws a word of 64 bits. A block has an even number of words, so a word never lies
across two blocks. -/
def next (s : RandomStream) : UInt64 × RandomStream :=
  match s.pending with
  | low :: high :: rest => (joined low high, { s with pending := rest })
  | _ =>
    match blockWords s.key s.number s.block with
    | low :: high :: rest => (joined low high, { s with block := s.block + 1, pending := rest })
    | _ => (0, s)

end RandomStream

end LatticeObservables
