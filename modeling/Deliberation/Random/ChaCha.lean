/-!
A stream of random words: the key stream of the ChaCha cipher with eight rounds, for a key that is
spread out of a 64-bit seed, a block counter that starts at zero and a nonce of zeros.
-/

namespace Deliberation.ChaCha

/-- A row of the cipher's state. -/
structure Lanes where
  x0 : UInt32
  x1 : UInt32
  x2 : UInt32
  x3 : UInt32
  deriving DecidableEq, Repr

namespace Lanes

/-- An operation on words, lane by lane. -/
def zipWith (f : UInt32 → UInt32 → UInt32) (a b : Lanes) : Lanes :=
  ⟨f a.x0 b.x0, f a.x1 b.x1, f a.x2 b.x2, f a.x3 b.x3⟩

/-- Every lane turned to the left by a number of bits between zero and the width of a word. -/
def turn (bits : UInt32) (a : Lanes) : Lanes :=
  let word (x : UInt32) : UInt32 := (x <<< bits) ||| (x >>> (32 - bits))
  ⟨word a.x0, word a.x1, word a.x2, word a.x3⟩

/-- The lanes moved on by one place. -/
def shift (a : Lanes) : Lanes := ⟨a.x1, a.x2, a.x3, a.x0⟩

def toList (a : Lanes) : List UInt32 := [a.x0, a.x1, a.x2, a.x3]

end Lanes

structure State where
  a : Lanes
  b : Lanes
  c : Lanes
  d : Lanes
  deriving DecidableEq, Repr

namespace State

/-- Half of a quarter round in every column. -/
def mixHalf (first second : UInt32) (s : State) : State :=
  let a := s.a.zipWith (· + ·) s.b
  let d := (s.d.zipWith (· ^^^ ·) a).turn first
  let c := s.c.zipWith (· + ·) d
  ⟨a, (s.b.zipWith (· ^^^ ·) c).turn second, c, d⟩

/-- A quarter round in every column. -/
def mixColumns (s : State) : State := (s.mixHalf 16 12).mixHalf 8 7

/-- The state in which the diagonals have become columns. -/
def skew (s : State) : State := ⟨s.a, s.b.shift, s.c.shift.shift, s.d.shift.shift.shift⟩

/-- The state in which the columns have become diagonals again. -/
def unskew (s : State) : State := ⟨s.a, s.b.shift.shift.shift, s.c.shift.shift, s.d.shift⟩

/-- A round on the columns and a round on the diagonals. -/
def doubleRound (s : State) : State := s.mixColumns.skew.mixColumns.unskew

/-- The words of a block: the state after eight rounds, added to what it was before. -/
def block (s : State) : List UInt32 :=
  let mixed := s.doubleRound.doubleRound.doubleRound.doubleRound
  (mixed.a.zipWith (· + ·) s.a).toList ++ (mixed.b.zipWith (· + ·) s.b).toList ++
    (mixed.c.zipWith (· + ·) s.c).toList ++ (mixed.d.zipWith (· + ·) s.d).toList

end State

/-- The first row of every state. -/
def constants : Lanes := ⟨0x61707865, 0x3320646e, 0x79622d32, 0x6b206574⟩

/-- One step of the generator that spreads a seed. -/
def spread (seed : UInt64) : UInt64 := seed * 6364136223846793005 + 11634580027462260723

/-- The word that the spreading generator shows in a state: some of its bits, turned to the right by the
topmost five. -/
def spreadWord (seed : UInt64) : UInt32 :=
  let x := (((seed >>> 18) ^^^ seed) >>> 27).toUInt32
  let turn := (seed >>> 59).toUInt32
  (x >>> turn) ||| (x <<< ((32 - turn) % 32))

/-- The next four words of a key, and the seed after them. -/
def spreadLanes (seed : UInt64) : Lanes × UInt64 :=
  let s0 := spread seed
  let s1 := spread s0
  let s2 := spread s1
  let s3 := spread s2
  (⟨spreadWord s0, spreadWord s1, spreadWord s2, spreadWord s3⟩, s3)

/-- A place in a stream: the key, the number of the next block, and the words that are left of the last one. -/
structure Stream where
  low : Lanes
  high : Lanes
  counter : UInt64
  pending : List UInt32

namespace Stream

def ofSeed (seed : UInt64) : Stream :=
  let (low, seed) := spreadLanes seed
  let (high, _) := spreadLanes seed
  ⟨low, high, 0, []⟩

def nextBlock (s : Stream) : List UInt32 :=
  State.block ⟨constants, s.low, s.high, ⟨s.counter.toUInt32, (s.counter >>> 32).toUInt32, 0, 0⟩⟩

def next32 (s : Stream) : UInt32 × Stream :=
  match s.pending with
  | word :: rest => (word, { s with pending := rest })
  | [] =>
    let words := s.nextBlock
    (words.headD 0, { s with counter := s.counter + 1, pending := words.tail })

/-- The next two words as one, the lower half first. -/
def next64 (s : Stream) : UInt64 × Stream :=
  let (low, s) := s.next32
  let (high, s) := s.next32
  (high.toUInt64 <<< 32 ||| low.toUInt64, s)

end Stream

end Deliberation.ChaCha
