/-!
# A stream of random words

The ChaCha stream cipher with eight rounds, used as a generator of 32-bit words: the words are the
successive blocks of the key stream, with a 64-bit block counter that starts at zero and a nonce of
zero. The key is derived from a 64-bit seed by a small congruential generator.

The sixteen words of a block are kept as four rows, so that the four quarter rounds of a column
round are one operation on rows, and the diagonal round is a column round between two rotations.
-/

namespace OffsideBench.Random

/-- Four words, on which operations act word by word. -/
structure Row where
  w0 : UInt32
  w1 : UInt32
  w2 : UInt32
  w3 : UInt32
deriving DecidableEq, Repr, Inhabited

namespace Row

/-- Applies a function to each word. -/
def map (f : UInt32 → UInt32) (r : Row) : Row := ⟨f r.w0, f r.w1, f r.w2, f r.w3⟩

/-- Joins two rows word by word. -/
def zip (f : UInt32 → UInt32 → UInt32) (r s : Row) : Row :=
  ⟨f r.w0 s.w0, f r.w1 s.w1, f r.w2 s.w2, f r.w3 s.w3⟩

instance : Add Row := ⟨zip (· + ·)⟩

instance : XorOp Row := ⟨zip (· ^^^ ·)⟩

/-- Moves each word one place to the front, the first one to the end. -/
def turn (r : Row) : Row := ⟨r.w1, r.w2, r.w3, r.w0⟩

/-- The words in order. -/
def toList (r : Row) : List UInt32 := [r.w0, r.w1, r.w2, r.w3]

end Row

/-- Rotates a word to the left. -/
def rotateLeft (n x : UInt32) : UInt32 := (x <<< n) ||| (x >>> (32 - n))

/-- Rotates a word to the right. -/
def rotateRight (n x : UInt32) : UInt32 := (x >>> n) ||| (x <<< ((32 - n) % 32))

/-- A block of sixteen words. -/
structure Block where
  a : Row
  b : Row
  c : Row
  d : Row
deriving DecidableEq, Repr, Inhabited

namespace Block

/-- Half of a quarter round on all four columns. -/
def halfRound (m n : UInt32) (x : Block) : Block :=
  let a := x.a + x.b
  let d := (x.d ^^^ a).map (rotateLeft m)
  let c := x.c + d
  let b := (x.b ^^^ c).map (rotateLeft n)
  ⟨a, b, c, d⟩

/-- A round on the columns. -/
def columnRound (x : Block) : Block := (x.halfRound 16 12).halfRound 8 7

/-- Turns the rows so that the diagonals become columns. -/
def skew (x : Block) : Block := ⟨x.a, x.b.turn, x.c.turn.turn, x.d.turn.turn.turn⟩

/-- Turns the rows so that the columns become diagonals. -/
def unskew (x : Block) : Block := ⟨x.a, x.b.turn.turn.turn, x.c.turn.turn, x.d.turn⟩

/-- A round on the columns and one on the diagonals. -/
def doubleRound (x : Block) : Block := x.columnRound.skew.columnRound.unskew

/-- Eight rounds, and the block itself added to their result. -/
def scramble (x : Block) : Block :=
  let y := x.doubleRound.doubleRound.doubleRound.doubleRound
  ⟨x.a + y.a, x.b + y.b, x.c + y.c, x.d + y.d⟩

/-- The words in order. -/
def toList (x : Block) : List UInt32 := x.a.toList ++ x.b.toList ++ x.c.toList ++ x.d.toList

end Block

/-- The first row of every block. -/
def signature : Row := ⟨0x61707865, 0x3320646e, 0x79622d32, 0x6b206574⟩

/-- A generator of random words. -/
structure Generator where
  /-- The first half of the key. -/
  keyLow : Row
  /-- The second half of the key. -/
  keyHigh : Row
  /-- The number of blocks drawn so far. -/
  counter : UInt64 := 0
  /-- The words of the current block that are still to be drawn. -/
  words : List UInt32 := []
deriving DecidableEq, Repr, Inhabited

namespace Generator

/-- One step of the congruential generator that stretches a seed. -/
def stretch (state : UInt64) : UInt64 := state * 6364136223846793005 + 11634580027462260723

/-- The word that a state of the congruential generator stands for. -/
def stretched (state : UInt64) : UInt32 :=
  rotateRight (state >>> 59).toUInt32 ((((state >>> 18) ^^^ state) >>> 27).toUInt32)

/-- Four key words, and the state behind them. -/
def keyRow (state : UInt64) : Row × UInt64 :=
  let s₀ := stretch state
  let s₁ := stretch s₀
  let s₂ := stretch s₁
  let s₃ := stretch s₂
  (⟨stretched s₀, stretched s₁, stretched s₂, stretched s₃⟩, s₃)

/-- The generator with the given seed. -/
def ofSeed (seed : UInt64) : Generator :=
  let (keyLow, state) := keyRow seed
  { keyLow, keyHigh := (keyRow state).1 }

/-- The next block of the key stream. -/
def block (g : Generator) : Block :=
  Block.scramble ⟨signature, g.keyLow, g.keyHigh,
    ⟨g.counter.toUInt32, (g.counter >>> 32).toUInt32, 0, 0⟩⟩

/-- Draws a 32-bit word. -/
def next32 (g : Generator) : UInt32 × Generator :=
  match g.words with
  | w :: words => (w, { g with words })
  | [] =>
    let b := g.block
    (b.a.w0, { g with counter := g.counter + 1, words := b.toList.tail })

/-- Draws a 64-bit word, the low half first. -/
def next64 (g : Generator) : UInt64 × Generator :=
  let (low, g) := g.next32
  let (high, g) := g.next32
  (low.toUInt64 ||| (high.toUInt64 <<< 32), g)

/-- Draws `n` 64-bit words. -/
def take64 (g : Generator) (n : Nat) : List UInt64 :=
  (n.fold (fun _ _ (p : Array UInt64 × Generator) =>
    let (w, g) := p.2.next64
    (p.1.push w, g)) (#[], g)).1.toList

end Generator

end OffsideBench.Random
