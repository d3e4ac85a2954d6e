/-! # The timer

A 16-bit counter runs at four counts a machine cycle; its high byte is the register DIV. The
register TIMA counts the falling edges of one bit of that counter, gated and selected by TAC, and is
reloaded from TMA when it overflows. An edge may come from a tick or from a register write; an
overflow asks for an interrupt on the tick it happens in, or on the tick after the write
(`overflowed`). -/

namespace Dmg

def divAddress : UInt16 := 0xFF04
def timaAddress : UInt16 := 0xFF05
def tmaAddress : UInt16 := 0xFF06
def tacAddress : UInt16 := 0xFF07

structure Timer where
  counter : UInt16 := 0
  tima : UInt8 := 0
  tma : UInt8 := 0
  tac : UInt8 := 0
  /-- TIMA overflowed during a register write and the interrupt is still owed. -/
  overflowed : Bool := false
deriving DecidableEq

namespace Timer

/-- The bit of the counter that TIMA watches. -/
def watchedBit (tac : UInt8) : UInt16 :=
  if tac &&& 3 = 0 then 9 else if tac &&& 3 = 1 then 3 else if tac &&& 3 = 2 then 5 else 7

/-- The signal whose falling edges TIMA counts. -/
def signal (t : Timer) : Bool :=
  t.tac &&& 4 != 0 && (t.counter >>> watchedBit t.tac) &&& 1 == 1

/-- `t` with TIMA counted up if the signal fell from `before`, and whether TIMA overflowed. -/
def countEdge (before : Bool) (t : Timer) : Timer × Bool :=
  if before && !t.signal then
    if t.tima = 0xFF then ({ t with tima := t.tma }, true)
    else ({ t with tima := t.tima + 1 }, false)
  else (t, false)

def read (t : Timer) (a : UInt16) : Option UInt8 :=
  if a = divAddress then some (t.counter >>> 8).toUInt8
  else if a = timaAddress then some t.tima
  else if a = tmaAddress then some t.tma
  else if a = tacAddress then some (0xF8 ||| t.tac)
  else none

/-- The register a write goes to, before edges are counted; none for a foreign address. -/
def store? (t : Timer) (a : UInt16) (v : UInt8) : Option Timer :=
  if a = divAddress then some { t with counter := 0 }
  else if a = timaAddress then some { t with tima := v }
  else if a = tmaAddress then some { t with tma := v }
  else if a = tacAddress then some { t with tac := v &&& 7 }
  else none

def write (t : Timer) (a : UInt16) (v : UInt8) : Timer :=
  match t.store? a v with
  | none => t
  | some stored =>
    let (counted, overflow) := countEdge t.signal stored
    { counted with overflowed := t.overflowed || overflow }

/-- One machine cycle: the timer after it, and whether it asks for its interrupt. -/
def tick (t : Timer) : Timer × Bool :=
  let (counted, overflow) := countEdge t.signal { t with counter := t.counter + 4 }
  ({ counted with overflowed := false }, overflow || t.overflowed)

end Timer

end Dmg
