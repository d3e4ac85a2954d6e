import Dmg.Event

/-! # The serial link

Nothing is connected to the other end of the link: a program's transfers are delivered to a sink on
the host, and nothing ever comes back. The link keeps the byte written last to the data register and
offers it to the sink at each start of a transfer on the internal clock. -/

namespace Dmg

def sbAddress : UInt16 := 0xFF01

def scAddress : UInt16 := 0xFF02

/-- The control value that starts a transfer on the internal clock. -/
def startTransfer : UInt8 := 0x81

/-- Where bytes go: what keeps the `i`-th byte offered from being delivered, if anything does. -/
abbrev Sink := Nat → Option String

def Sink.unlimited : Sink := fun _ => none

/-- A sink that takes `room` bytes and refuses the rest. -/
def Sink.limited (room : Nat) (reason : String) : Sink :=
  fun i => if i < room then none else some reason

/-- The link, with the byte written last and the number of bytes offered. -/
structure SerialLink where
  sink : Sink
  data : UInt8 := 0
  offered : Nat := 0

namespace SerialLink

/-- Whether a write starts a transfer. -/
def starts (a : UInt16) (v : UInt8) : Bool := a == scAddress && v == startTransfer

def write (s : SerialLink) (a : UInt16) (v : UInt8) : SerialLink :=
  if a = sbAddress then { s with data := v }
  else if starts a v then { s with offered := s.offered + 1 }
  else s

/-- What becomes of the byte a write transfers. -/
def reports (s : SerialLink) (a : UInt16) (v : UInt8) : List Event :=
  if starts a v then
    match s.sink s.offered with
    | none => [.sent s.data]
    | some reason => [.dropped s.data reason]
  else []

end SerialLink

end Dmg
