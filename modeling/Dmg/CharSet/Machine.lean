import Std.Data.HashMap
import Dmg.CharSet.Encoding
import Dmg.Pattern.Builder

/-! # The machines of sets of characters

The part of a machine that reads one character of a set (`CharSet.part`). Within ASCII, one state
tells all characters apart. Else a character is read byte by byte, and states from which the same is
read are one, as far as a table of limited size shows that there is such a state already. Which ones
it shows depends on the numbers of states, and so on what has been built before. -/

namespace Dmg

/-! ### Tables of states -/

/-- The hash of a key: its numbers are mixed in one after the other, each time with a product. -/
def hashOf (key : List Nat) : UInt64 :=
  key.foldl (fun h n => (h ^^^ n.toUInt64) * 0x100000001B3) 0xCBF29CE484222325

/-- States by keys. Each key has one place, and takes it from the key that was there. -/
structure StateTable where
  places : UInt64
  entries : Std.HashMap UInt64 (List Nat × Nat) := {}

namespace StateTable

def place (t : StateTable) (key : List Nat) : UInt64 := hashOf key % t.places

def get? (t : StateTable) (key : List Nat) : Option Nat :=
  match t.entries[t.place key]? with
  | some (k, n) => if k = key then some n else none
  | none => none

def insert (t : StateTable) (key : List Nat) (n : Nat) : StateTable :=
  { t with entries := t.entries.insert (t.place key) (key, n) }

end StateTable

open Pattern (Builder Part)

/-- The state with a key, or else a new one that takes `more` bytes besides. -/
def stateFor (key : List Nat) (more : Nat) : StateT StateTable Builder Nat := do
  match (← get).get? key with
  | some n => return n
  | none =>
    let n ← Builder.state more
    modify (·.insert key n)
    return n

/-! ### Sequences of bytes -/

namespace ByteRanges

/-- Sequences with the same first range next to each other, as that range and what follows it. -/
def byFirst : List ByteRanges → List ((Nat × Nat) × List ByteRanges)
  | [] => []
  | [] :: rest => byFirst rest
  | (r :: tail) :: rest =>
    match byFirst rest with
    | (r', tails) :: groups =>
      if r = r' then (r, tail :: tails) :: groups else (r, [tail]) :: (r', tails) :: groups
    | [] => [(r, [tail])]

/-- The state from which sequences of at most `n` bytes are read up to the state `last`. States that
are further on are built first. A state is known by the ways out of it. -/
def readAll (last : Nat) : Nat → List ByteRanges → StateT StateTable Builder Nat
  | 0, _ => return last
  | n + 1, sequences => do
    if sequences.all (·.isEmpty) then return last
    let ways ← (byFirst sequences).mapM fun ((low, high), tails) => do
      return [low, high, ← readAll last n tails]
    stateFor ways.flatten (rangeSize * ways.length)

/-- The state from which a sequence is read backward up to the state `last`. A state is known by the
one behind it and the bytes that it reads. -/
def readBack (last : Nat) (ranges : ByteRanges) : StateT StateTable Builder Nat :=
  ranges.foldlM (fun next (low, high) => stateFor [next, low, high] 0) last

end ByteRanges

namespace CharSet

/-- The part that reads one character of a set. Backward it is a fork to the last bytes. -/
def part (s : CharSet) (d : Direction) : Part :=
  if s.isAscii then
    ⟨do Builder.add ⟨2, 2 * stateSize + rangeSize * s.ranges.length⟩; return .plain⟩
  else
    let sequences := s.encoded
    match d with
    | .forward => ⟨do
      let last ← Builder.state 0
      let _ ← (ByteRanges.readAll last 4 sequences).run { places := 10000 }
      return .plain⟩
    | .backward => ⟨do
      let _ ← Builder.state 0
      let last ← Builder.state 0
      let read (ranges : ByteRanges) : StateT StateTable Builder Unit := do
        let _ ← ranges.readBack last
        Builder.add ⟨0, forkSize⟩
      let _ ← (sequences.forM read).run { places := 1000 }
      return .plain⟩

end CharSet

end Dmg
