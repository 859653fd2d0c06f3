import StyleSync.Numeric.Digits
import StyleSync.Random.ChaCha

/-! # Suffixes of generated names

Generated names end in a suffix from a source that the host chooses. A source hands out one suffix
after another: the same each time, the numerals of a counter, or five random characters.
-/

set_option autoImplicit false

namespace StyleSync

/-- A source of suffixes. -/
class SuffixSource (ν : Type) where
  /-- The next suffix, and the source after it. -/
  draw : ν → String × ν

/-- The next `count` suffixes, and the source after them. -/
def SuffixSource.drawMany {ν : Type} [SuffixSource ν] : Nat → ν → List String × ν
  | 0, source => ([], source)
  | count + 1, source =>
    let (suffix, source) := draw source
    let (suffixes, source) := drawMany count source
    (suffix :: suffixes, source)

/-- One of two kinds of source. -/
instance {α β : Type} [SuffixSource α] [SuffixSource β] : SuffixSource (α ⊕ β) where
  draw
    | .inl source => let (suffix, source) := SuffixSource.draw source; (suffix, .inl source)
    | .inr source => let (suffix, source) := SuffixSource.draw source; (suffix, .inr source)

/-! ## One suffix -/

/-- The same suffix each time, so that names can be foretold. -/
structure FixedSuffix where
  text : String
deriving Repr, DecidableEq

instance : SuffixSource FixedSuffix where
  draw source := (source.text, source)

/-! ## Counting -/

/-- The base of suffixes: their characters are the digits and the small letters. -/
def radix : Nat := 36

/-- The numerals of a counter: `0`, `1`, …, `z`, `10`, … -/
structure CounterSuffix where
  next : UInt64
deriving Repr, DecidableEq

namespace CounterSuffix

/-- The counter at zero. -/
def start : CounterSuffix := ⟨0⟩

instance : SuffixSource CounterSuffix where
  draw source := (String.ofList (numeral radix source.next.toNat), ⟨source.next + 1⟩)

@[simp] theorem draw_eq (source : CounterSuffix) :
    SuffixSource.draw source =
      (String.ofList (numeral radix source.next.toNat), ⟨source.next + 1⟩) := rfl

end CounterSuffix

/-! ## Random characters -/

/-- Random suffixes of five characters from a keystream. -/
structure RandomSuffix where
  stream : ChaCha.Keystream

namespace RandomSuffix

/-- The number of characters of a random suffix. -/
def length : Nat := 5

/-- The suffixes of a seed. -/
def ofSeed (seed : UInt64) : RandomSuffix := ⟨.ofKey (ChaCha.keyOfSeed seed)⟩

/-- The greatest low half of a product that leaves all digits equally likely. -/
def acceptUpTo : Nat := 0x8fffffffffffffff

/-- The number of words that are drawn for one digit at most. Nearly half of them are rejected, so
that a digit needs so many has no practical chance. -/
def maxAttempts : Nat := 4096

/-- A digit below thirty-six: the high half of the product of a word with thirty-six, drawn again
while the low half is beyond the bound. -/
def drawDigit : Nat → ChaCha.Keystream → Nat × ChaCha.Keystream
  | 0, stream => (0, stream)
  | attempts + 1, stream =>
    let (word, stream) := stream.nextPair
    let product := word.toNat * radix
    if product % 2 ^ 64 ≤ acceptUpTo then (product / 2 ^ 64, stream)
    else drawDigit attempts stream

/-- The characters of `count` random digits. -/
def drawChars : Nat → ChaCha.Keystream → List Char × ChaCha.Keystream
  | 0, stream => ([], stream)
  | count + 1, stream =>
    let (digit, stream) := drawDigit maxAttempts stream
    let (chars, stream) := drawChars count stream
    (digitChar digit :: chars, stream)

instance : SuffixSource RandomSuffix where
  draw source :=
    let (chars, stream) := drawChars length source.stream
    (String.ofList chars, ⟨stream⟩)

end RandomSuffix

end StyleSync
