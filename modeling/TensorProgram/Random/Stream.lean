/-
TensorProgram/Random/Stream.lean

The stream of 32-bit words that belongs to a 64-bit seed.  The seed is expanded
to eight key words by a permuted congruential generator, and word `i` of the
stream is word `i % 16` of block `i / 16` of the ChaCha cipher with twelve
rounds under that key.  A stream is a function of the word's number, so a draw
is a position and nothing else.
-/

namespace TensorProgram.Random

/-! ### Expanding a seed -/

/-- One step of the congruential generator. -/
def advance (state : UInt64) : UInt64 :=
  state * 6364136223846793005 + 11634580027462260723

/-- Rotate a word to the right. -/
def rotateRight (x : UInt32) (amount : UInt32) : UInt32 :=
  (x >>> (amount % 32)) ||| (x <<< ((32 - amount % 32) % 32))

/-- Rotate a word to the left. -/
def rotateLeft (x : UInt32) (amount : UInt32) : UInt32 :=
  (x <<< (amount % 32)) ||| (x >>> ((32 - amount % 32) % 32))

/-- The output of the congruential generator in a state: the upper bits, folded
and rotated by the topmost five. -/
def permuted (state : UInt64) : UInt32 :=
  rotateRight ((((state >>> 18) ^^^ state) >>> 27).toUInt32) (state >>> 59).toUInt32

/-- The state of the congruential generator after `n` steps from a seed. -/
def stateAfter (seed : UInt64) : Nat → UInt64
  | 0 => seed
  | n + 1 => advance (stateAfter seed n)

/-- The key that a seed expands to. -/
def key (seed : UInt64) : Vector UInt32 8 :=
  Vector.ofFn fun i => permuted (stateAfter seed (i.val + 1))

/-! ### The cipher -/

/-- The sixteen words of the cipher's state. -/
abbrev Block := Vector UInt32 16

/-- The quarter round on four words of a block. -/
def quarterRound (a b c d : Fin 16) (s : Block) : Block :=
  let s := s.set a (s[a] + s[b])
  let s := s.set d (rotateLeft (s[d] ^^^ s[a]) 16)
  let s := s.set c (s[c] + s[d])
  let s := s.set b (rotateLeft (s[b] ^^^ s[c]) 12)
  let s := s.set a (s[a] + s[b])
  let s := s.set d (rotateLeft (s[d] ^^^ s[a]) 8)
  let s := s.set c (s[c] + s[d])
  s.set b (rotateLeft (s[b] ^^^ s[c]) 7)

/-- Two rounds: one over the columns of a block, one over its diagonals. -/
def doubleRound (s : Block) : Block :=
  let s := quarterRound 0 4 8 12 s
  let s := quarterRound 1 5 9 13 s
  let s := quarterRound 2 6 10 14 s
  let s := quarterRound 3 7 11 15 s
  let s := quarterRound 0 5 10 15 s
  let s := quarterRound 1 6 11 12 s
  let s := quarterRound 2 7 8 13 s
  quarterRound 3 4 9 14 s

/-- The block before its rounds: four constants, the key, the number of the
block in two words, and two zeros. -/
def initialBlock (key : Vector UInt32 8) (counter : UInt64) : Block :=
  #v[0x61707865, 0x3320646e, 0x79622d32, 0x6b206574,
     key[0], key[1], key[2], key[3], key[4], key[5], key[6], key[7],
     counter.toUInt32, (counter >>> 32).toUInt32, 0, 0]

/-- A block of the stream: six double rounds, added to the block before them. -/
def block (key : Vector UInt32 8) (counter : UInt64) : Block :=
  let initial := initialBlock key counter
  Vector.zipWith (· + ·) (Nat.repeat doubleRound 6 initial) initial

/-- Word number `i` of the stream of a seed. -/
def word (seed : UInt64) (i : Nat) : UInt32 :=
  (block (key seed) (UInt64.ofNat (i / 16))).get ⟨i % 16, Nat.mod_lt _ (by decide)⟩

end TensorProgram.Random
