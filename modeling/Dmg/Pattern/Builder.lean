/-! # Building machines

A pattern is searched for by machines of states, which read the bytes of a text. Nothing here runs
them; what counts is how much space they take, since patterns are refused whose machines are too
large. So a machine is built state by state (`Pattern.Builder`), and no more is kept of it than how
many states it has and how many bytes they take.

A *fork* is a state with several ways out, of which each takes space, as does each range of bytes
that a state tells apart. -/

namespace Dmg

/-- Bytes that a machine may take. -/
def largestMachine : Nat := 10485760

def stateSize : Nat := 32

/-- Bytes of a way out of a fork. -/
def forkSize : Nat := 4

/-- Bytes of a range that a state tells apart. -/
def rangeSize : Nat := 8

inductive Direction where
  | forward | backward
deriving DecidableEq

namespace Pattern

/-- What has been built of a machine. -/
structure Built where
  states : Nat := 0
  bytes : Nat := 0
deriving DecidableEq

/-- A step of building, which fails if the machine becomes too large. -/
abbrev Builder := StateT Built Option

/-- The last state of a part of a machine. -/
inductive Exit where
  | plain
  /-- A fork, so that another way out of it takes space. -/
  | fork
deriving DecidableEq

namespace Builder

/-- States added at once. -/
def add (more : Built) : Builder Unit := fun b =>
  if b.bytes + more.bytes ≤ largestMachine then
    some ((), ⟨b.states + more.states, b.bytes + more.bytes⟩)
  else none

/-- A new state, with what it takes besides. It is known by its number, which counts from zero. -/
def state (more : Nat) : Builder Nat := do
  let n := (← get).states
  add ⟨1, stateSize + more⟩
  return n

def single : Builder Exit := do
  add ⟨1, stateSize⟩
  return .plain

/-- A way on from the end of a part. -/
def leave : Exit → Builder Unit
  | .plain => pure ()
  | .fork => add ⟨0, forkSize⟩

def andThen (first second : Builder Exit) : Builder Exit := do
  leave (← first)
  second

/-- A part with a state before it and one behind it. -/
def enclosed (part : Builder Exit) : Builder Exit := do
  add ⟨1, stateSize⟩
  leave (← part)
  single

/-! ### Parts beside each other -/

/-- A way into a part from the fork before parts beside each other, and from there to where their
ways meet. -/
def branch (e : Exit) : Builder Unit := do
  add ⟨0, forkSize⟩
  leave e

/-- Two parts beside each other. The fork before them and the state where their ways meet are built
behind them. -/
def beside (first second : Builder Exit) : Builder Exit := do
  let e ← first
  let e' ← second
  add ⟨2, 2 * stateSize⟩
  branch e
  branch e'
  return .plain

def joined (others one : Builder Exit) : Builder Exit := do
  let e ← others
  branch (← one)
  return e

/-! ### Repetition -/

def again (part : Builder Exit) : Nat → Exit → Builder Exit
  | 0, e => return e
  | n + 1, e => do
    leave e
    again part n (← part)

def exactly (part : Builder Exit) : Nat → Builder Exit
  | 0 => single
  | n + 1 => do again part n (← part)

def optional (part : Builder Exit) : Builder Exit := do
  add ⟨1, stateSize + 2 * forkSize⟩
  leave (← part)
  single

/-- A way back from the end of a part to its start. -/
def loop (e : Exit) : Builder Exit := do
  leave e
  add ⟨1, stateSize + forkSize⟩
  return .fork

/-- A part any number of times. One that may pass without a character is passed in another way. -/
def star (part : Builder Exit) (consumes : Bool) : Builder Exit :=
  if consumes then do
    add ⟨1, stateSize + forkSize⟩
    leave (← part)
    return .fork
  else do
    leave (← part)
    add ⟨2, 2 * stateSize + 4 * forkSize⟩
    single

/-- A part at least `n` times. -/
def atLeast (part : Builder Exit) (consumes : Bool) : Nat → Builder Exit
  | 0 => star part consumes
  | 1 => do loop (← part)
  | n + 2 => do loop (← again part (n + 1) (← part))

/-- A part at most `n` times more, with a way to the end before each turn. -/
def turns (part : Builder Exit) : Nat → Exit → Builder Exit
  | 0, e => do
    leave e
    return .plain
  | n + 1, e => do
    add ⟨1, stateSize + 2 * forkSize⟩
    leave e
    turns part n (← part)

/-- A part at least `least` times and at most `more` times more. -/
def upTo (part : Builder Exit) (least more : Nat) : Builder Exit := do
  let e ← exactly part least
  add ⟨1, stateSize⟩
  turns part more e

end Builder

structure Part where
  build : Builder Exit

end Pattern

end Dmg
