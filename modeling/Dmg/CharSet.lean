/-! # Sets of characters

A set is kept as ranges of code points. Sets are united by bringing their ranges into order and
joining those whose numbers follow each other (`CharSet.inOrder`), so that a united set has one form.

The numbers from D800 to DFFF are no characters. A range that ends before them and one that begins
behind them are therefore next to each other, but their numbers do not follow each other, and they
stay apart. `CharSet.compl` takes a range from between any two ranges, and from between these it
takes the two characters on both sides. -/

namespace Dmg

/-- The last code point. -/
def lastCodePoint : Nat := 0x10FFFF

/-- The character behind the one with number `n`. -/
def following (n : Nat) : Nat := if n = 0xD7FF then 0xE000 else n + 1

/-- The character before the one with number `n`. -/
def preceding (n : Nat) : Nat := if n = 0xE000 then 0xD7FF else n - 1

structure CharSet where
  /-- Ascending and disjoint, each with its first and last code point. -/
  ranges : List (Nat × Nat)
deriving DecidableEq

namespace CharSet

/-- Whether `n` lies in one of the ranges. -/
def within (ranges : List (Nat × Nat)) (n : Nat) : Bool :=
  ranges.any fun r => r.1 ≤ n && n ≤ r.2

def contains (s : CharSet) (c : Char) : Bool := within s.ranges c.toNat

def none : CharSet := ⟨[]⟩

instance : Inhabited CharSet := ⟨none⟩

def isEmpty (s : CharSet) : Bool := s.ranges.isEmpty

/-- The characters from `low` to `high`. -/
def range (low high : Char) : CharSet :=
  if low ≤ high then ⟨[(low.toNat, high.toNat)]⟩ else none

def single (c : Char) : CharSet := ⟨[(c.toNat, c.toNat)]⟩

def isAscii (s : CharSet) : Bool := s.ranges.all (·.2 < 128)

/-- The only character of a set. -/
def single? (s : CharSet) : Option Char :=
  match s.ranges with
  | [(low, high)] => if low = high then some (Char.ofNat low) else .none
  | _ => .none

/-! ### Union -/

/-- A range and others, of which none begins before it. Those that overlap, or whose numbers follow
each other, are joined. -/
def joinUp : Nat × Nat → List (Nat × Nat) → List (Nat × Nat)
  | r, [] => [r]
  | (low, high), (low', high') :: rest =>
    if low' ≤ high + 1 then joinUp (low, max high high') rest
    else (low, high) :: joinUp (low', high') rest

/-- Ranges in order, joined where they can be. -/
def inOrder (ranges : List (Nat × Nat)) : List (Nat × Nat) :=
  match ranges.mergeSort fun r q => r.1 ≤ q.1 with
  | [] => []
  | r :: rest => joinUp r rest

/-- The characters in any of several sets. -/
def unionAll (sets : List CharSet) : CharSet := ⟨inOrder (sets.flatMap ranges)⟩

def union (s t : CharSet) : CharSet := unionAll [s, t]

/-- The characters in one of the ranges. -/
def ofRanges (rs : List (Char × Char)) : CharSet :=
  unionAll (rs.map fun (low, high) => range low high)

/-! ### Other sets -/

/-- What two ranges have in common. -/
def overlap? (r q : Nat × Nat) : Option (Nat × Nat) :=
  if max r.1 q.1 ≤ min r.2 q.2 then some (max r.1 q.1, min r.2 q.2) else .none

def inter (s t : CharSet) : CharSet :=
  ⟨s.ranges.flatMap fun r => t.ranges.filterMap (overlap? r)⟩

/-- What is left of a range without others. -/
def cut : Nat × Nat → List (Nat × Nat) → List (Nat × Nat)
  | r, [] => [r]
  | (low, high), (low', high') :: rest =>
    if high' < low ∨ high < low' then cut (low, high) rest
    else
      (if low < low' then cut (low, preceding low') rest else []) ++
      (if high' < high then cut (following high', high) rest else [])

def diff (s t : CharSet) : CharSet := ⟨s.ranges.flatMap (cut · t.ranges)⟩

/-- The characters in exactly one of two sets. -/
def symmDiff (s t : CharSet) : CharSet := (s.union t).diff (s.inter t)

/-- The ranges behind the number `last`, where `ranges` are left out. -/
def gaps : Nat → List (Nat × Nat) → List (Nat × Nat)
  | last, [] => if last < lastCodePoint then [(following last, lastCodePoint)] else []
  | last, (low, high) :: rest =>
    (min (following last) (preceding low), max (following last) (preceding low)) :: gaps high rest

/-- The characters that are not in a set. Where two ranges are next to each other, the characters on
both sides are taken for what lies between them. -/
def compl (s : CharSet) : CharSet :=
  match s.ranges with
  | [] => ⟨[(0, lastCodePoint)]⟩
  | (low, high) :: rest =>
    ⟨(if 0 < low then [(0, preceding low)] else []) ++ gaps high rest⟩

/-- The set together with the other case of its ASCII letters. -/
def bothCases (s : CharSet) : CharSet :=
  let letters := "abcdefghijklmnopqrstuvwxyz".toList.filter fun c =>
    s.contains c || s.contains c.toUpper
  unionAll (s :: letters.flatMap fun c => [single c, single c.toUpper])

end CharSet

end Dmg
