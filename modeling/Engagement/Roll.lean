import Engagement.Binary64

/-! # Seeded rolls

A roll in `[0, 100)` from a seed of 64 bits: the seed is spread over a key of eight words, the
first block of the ChaCha stream of twelve rounds under that key gives 64 bits, and the upper 52
of them a fraction of one hundred.
-/

namespace Engagement

namespace Roll

def rotateRight (x : UInt32) (n : UInt32) : UInt32 := (x >>> n) ||| (x <<< ((32 - n) % 32))

def rotateLeft (x : UInt32) (n : UInt32) : UInt32 := (x <<< n) ||| (x >>> (32 - n))

/-- The next state of the permuted congruential generator that spreads a seed. -/
def advance (state : UInt64) : UInt64 := state * 6364136223846793005 + 11634580027462260723

/-- The word a generator state gives. -/
def output (state : UInt64) : UInt32 :=
  rotateRight ((((state >>> 18) ^^^ state) >>> 27).toUInt32) (state >>> 59).toUInt32

def spread : Nat → UInt64 → List UInt32
  | 0, _ => []
  | n + 1, state => let next := advance state; output next :: spread n next

/-- One quarter round on four words. -/
def quarter (a b c d : UInt32) : UInt32 × UInt32 × UInt32 × UInt32 :=
  let a := a + b
  let d := rotateLeft (d ^^^ a) 16
  let c := c + d
  let b := rotateLeft (b ^^^ c) 12
  let a := a + b
  let d := rotateLeft (d ^^^ a) 8
  let c := c + d
  let b := rotateLeft (b ^^^ c) 7
  (a, b, c, d)

/-- A quarter round on four places of a block. -/
def mix (block : List UInt32) (i j k l : Nat) : List UInt32 :=
  let (a, b, c, d) :=
    quarter (block.getD i 0) (block.getD j 0) (block.getD k 0) (block.getD l 0)
  (((block.set i a).set j b).set k c).set l d

/-- A round on columns and a round on diagonals. -/
def doubleRound (block : List UInt32) : List UInt32 :=
  [(0, 4, 8, 12), (1, 5, 9, 13), (2, 6, 10, 14), (3, 7, 11, 15),
   (0, 5, 10, 15), (1, 6, 11, 12), (2, 7, 8, 13), (3, 4, 9, 14)].foldl
    (fun block (i, j, k, l) => mix block i j k l) block

/-- The block a key starts from, with counter and nonce zero. -/
def start (key : List UInt32) : List UInt32 :=
  [0x61707865, 0x3320646e, 0x79622d32, 0x6b206574] ++ key ++ [0, 0, 0, 0]

/-- The first 64 bits of the stream of a seed. -/
def bits (seed : UInt64) : UInt64 :=
  let block := start (spread 8 seed)
  let mixed := (List.range 6).foldl (fun b _ => doubleRound b) block
  let word (i : Nat) : UInt32 := mixed.getD i 0 + block.getD i 0
  ((word 1).toUInt64 <<< 32) ||| (word 0).toUInt64

/-- The roll of a seed, in units of binary64. -/
def units (seed : UInt64) : Nat :=
  Binary64.roundRatio (((bits seed) >>> 12).toNat * 100 * twoTo (1074 - 52)) 1

end Roll

end Engagement
