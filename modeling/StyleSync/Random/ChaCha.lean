/-! # The ChaCha keystream

A block of sixteen words is made from a key of eight words and a block counter: a state of constants,
key, counter and an empty nonce is mixed by double rounds and added to itself. `Keystream` hands the
words of one block after another out in order.
-/

set_option autoImplicit false

namespace StyleSync.ChaCha

/-- A word of thirty-two bits; its arithmetic wraps. -/
abbrev Word := UInt32

/-- The sixteen words of a state. -/
abbrev State := Vector Word 16

/-- Rotation to the left by fewer than thirty-two places. -/
def rotateLeft (w : Word) (places : UInt32) : Word :=
  (w <<< places) ||| (w >>> (32 - places))

/-- The quarter round on four words of a state. -/
def quarterRound (s : State) (a b c d : Fin 16) : State :=
  let s := s.set a (s[a] + s[b])
  let s := s.set d (rotateLeft (s[d] ^^^ s[a]) 16)
  let s := s.set c (s[c] + s[d])
  let s := s.set b (rotateLeft (s[b] ^^^ s[c]) 12)
  let s := s.set a (s[a] + s[b])
  let s := s.set d (rotateLeft (s[d] ^^^ s[a]) 8)
  let s := s.set c (s[c] + s[d])
  s.set b (rotateLeft (s[b] ^^^ s[c]) 7)

/-- Two rounds: the quarter rounds on the columns, then those on the diagonals. -/
def doubleRound (s : State) : State :=
  let s := quarterRound s 0 4 8 12
  let s := quarterRound s 1 5 9 13
  let s := quarterRound s 2 6 10 14
  let s := quarterRound s 3 7 11 15
  let s := quarterRound s 0 5 10 15
  let s := quarterRound s 1 6 11 12
  let s := quarterRound s 2 7 8 13
  quarterRound s 3 4 9 14

/-- The state before mixing: constants, key, counter with its low word first, empty nonce. -/
def initialState (key : Vector Word 8) (counter : UInt64) : State :=
  #v[0x61707865, 0x3320646e, 0x79622d32, 0x6b206574,
    key[0], key[1], key[2], key[3], key[4], key[5], key[6], key[7],
    counter.toUInt32, (counter >>> 32).toUInt32, 0, 0]

/-- The block of a counter after `doubleRounds` double rounds. -/
def block (doubleRounds : Nat) (key : Vector Word 8) (counter : UInt64) : State :=
  let start := initialState key counter
  start.zipWith (· + ·) (Nat.repeat doubleRound doubleRounds start)

/-! ## The words in order -/

/-- The double rounds of the keystream: twelve rounds. -/
def streamDoubleRounds : Nat := 6

/-- What is left of a keystream: the words of the current block, then the blocks from `counter` on. -/
structure Keystream where
  key : Vector Word 8
  counter : UInt64
  pending : List Word

namespace Keystream

/-- The keystream of a key from its first block on. -/
def ofKey (key : Vector Word 8) : Keystream := ⟨key, 0, []⟩

/-- The next word. -/
def next (stream : Keystream) : Word × Keystream :=
  match stream.pending with
  | word :: pending => (word, { stream with pending })
  | [] =>
    let words := block streamDoubleRounds stream.key stream.counter
    (words[0], { stream with counter := stream.counter + 1, pending := words.toList.drop 1 })

/-- The next two words as one of sixty-four bits, the first of them its low half. -/
def nextPair (stream : Keystream) : UInt64 × Keystream :=
  let (low, stream) := stream.next
  let (high, stream) := stream.next
  (low.toUInt64 ||| (high.toUInt64 <<< 32), stream)

end Keystream

/-! ## Keys from a seed -/

/-- One step of the congruential generator that spreads a seed over a key. -/
def seedStep (state : UInt64) : UInt64 :=
  state * 6364136223846793005 + 11634580027462260723

/-- The word of a generator state: the high bits folded, then rotated right by the top five. -/
def seedWord (state : UInt64) : Word :=
  let folded := (((state >>> 18) ^^^ state) >>> 27).toUInt32
  let places := (state >>> 59).toUInt32
  if places = 0 then folded else rotateLeft folded (32 - places)

/-- The generator state after `n` steps. -/
def seedState (seed : UInt64) (n : Nat) : UInt64 :=
  Nat.repeat seedStep n seed

/-- The key of a seed. -/
def keyOfSeed (seed : UInt64) : Vector Word 8 :=
  Vector.ofFn fun i => seedWord (seedState seed (i.val + 1))

end StyleSync.ChaCha
