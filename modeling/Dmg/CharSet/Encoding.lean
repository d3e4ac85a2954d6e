import Dmg.CharSet

/-! # Sets of characters in UTF-8

The bytes of the characters of a set, as sequences of ranges of bytes (`CharSet.encoded`): any
choice of a byte from each range of a sequence is a character of the set, and no two sequences share
one. -/

namespace Dmg

/-- A sequence of ranges of bytes, each with its first and last byte. -/
abbrev ByteRanges := List (Nat × Nat)

namespace CharSet

/-- The bytes of the numbers from `low` to `high` written with `more` bytes of six bits after a
first one, which counts from `base`. -/
def encodedNumbers (base : Nat) : Nat → Nat → Nat → List ByteRanges
  | 0, low, high => [[(base + low, base + high)]]
  | more + 1, low, high =>
    let block := 64 ^ (more + 1)
    let first := low / block
    let last := high / block
    let startingWith (lead : Nat) (low high : Nat) : List ByteRanges :=
      (encodedNumbers 0x80 more low high).map ((base + lead, base + lead) :: ·)
    if first = last then startingWith first (low % block) (high % block)
    else
      let headWhole := low % block = 0
      let tailWhole := high % block = block - 1
      let start := if headWhole then first else first + 1
      let stop := if tailWhole then last + 1 else last
      (if headWhole then [] else startingWith first (low % block) (block - 1)) ++
      (if start < stop then
        [(base + start, base + stop - 1) :: List.replicate (more + 1) (0x80, 0xBF)] else []) ++
      (if tailWhole then [] else startingWith last 0 (high % block))

/-- The code points that take the same number of bytes: first and last, the bytes after the first
one, and where the first one counts from. Surrogates are in none. -/
def encodedLengths : List (Nat × Nat × Nat × Nat) :=
  [(0, 0x7F, 0, 0), (0x80, 0x7FF, 1, 0xC0), (0x800, 0xD7FF, 2, 0xE0), (0xE000, 0xFFFF, 2, 0xE0),
    (0x10000, 0x10FFFF, 3, 0xF0)]

/-- The bytes of the characters of a set, in ascending order. -/
def encoded (s : CharSet) : List ByteRanges :=
  s.ranges.flatMap fun (low, high) =>
    encodedLengths.flatMap fun (first, last, more, base) =>
      let low := max low first
      let high := min high last
      if low ≤ high then encodedNumbers base more low high else []

end CharSet

end Dmg
