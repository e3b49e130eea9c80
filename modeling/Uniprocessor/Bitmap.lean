/-!
# Bitmaps

A set of small numbers kept as an array of 64-bit words, number `i` in bit `i % 64` of word
`i / 64`. A number beyond the last word is absent. `lowest?` and `lowestAbsent?` find the least
member and the least non-member, skipping words that cannot hold one.
-/

namespace Uniprocessor

/-- A set of numbers, one bit each. -/
structure Bitmap where
  words : Array UInt64
  deriving DecidableEq

namespace Bitmap

/-- The bitmap without words. -/
def empty : Bitmap := ⟨#[]⟩

/-- The empty set over `words` words. -/
def clear (words : Nat) : Bitmap := ⟨Array.replicate words 0⟩

/-- The word at an index, zero beyond the last one. -/
def word (b : Bitmap) (i : Nat) : UInt64 := b.words.getD i 0

/-- The word whose only bit is that of `i`. -/
def mask (i : Nat) : UInt64 := UInt64.ofNat (1 <<< (i % 64))

def contains (b : Bitmap) (i : Nat) : Bool := (b.word (i / 64)).toNat.testBit (i % 64)

/-- Adds `i`, which must lie inside the words. -/
def insert (b : Bitmap) (i : Nat) : Bitmap :=
  ⟨b.words.modify (i / 64) (· ||| mask i)⟩

def erase (b : Bitmap) (i : Nat) : Bitmap :=
  ⟨b.words.modify (i / 64) (· &&& ~~~ mask i)⟩

/-- Appends an empty word unless number `i` already lies inside the words. -/
def extendTo (b : Bitmap) (i : Nat) : Bitmap :=
  if b.words.size ≤ i / 64 then ⟨b.words.push 0⟩ else b

/-- The first of `count` words from `start` on that satisfies `p`. -/
def findWordAmong? (b : Bitmap) (p : UInt64 → Bool) : Nat → Nat → Option Nat
  | 0, _ => none
  | count + 1, start =>
    if p (b.word start) then some start else b.findWordAmong? p count (start + 1)

/-- The first word at `start` or later that satisfies `p`. -/
def findWord? (b : Bitmap) (p : UInt64 → Bool) (start : Nat) : Option Nat :=
  b.findWordAmong? p (b.words.size - start) start

/-- The position of the lowest set bit. -/
def lowestBit? (w : UInt64) : Option Nat := (List.range 64).find? w.toNat.testBit

/-- The least member. -/
def lowest? (b : Bitmap) : Option Nat := do
  let i ← b.findWord? (· != 0) 0
  let bit ← lowestBit? (b.word i)
  return 64 * i + bit

/-- The least non-member that lies inside the words, from word `start` on. -/
def lowestAbsent? (b : Bitmap) (start : Nat) : Option Nat := do
  let i ← b.findWord? (~~~ · != 0) start
  let bit ← lowestBit? (~~~ b.word i)
  return 64 * i + bit

end Bitmap

end Uniprocessor
