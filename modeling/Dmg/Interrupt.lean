/-! # Interrupt lines and registers

Five lines can ask for the processor's attention. `Interrupts` holds the requested (pending) and the
enabled lines, one bit each; on the bus they are the registers IF and IE, whose three unused bits
read as one. No other bits are ever set (`Interrupts.Narrow`). -/

namespace Dmg

/-- The interrupt lines, highest priority first. -/
inductive Line where
  | vblank | lcdStat | timer | serial | joypad
deriving DecidableEq

namespace Line

/-- All lines in order of priority. -/
def all : List Line := [.vblank, .lcdStat, .timer, .serial, .joypad]

/-- The bit number of a line. -/
def index : Line → UInt8
  | .vblank => 0
  | .lcdStat => 1
  | .timer => 2
  | .serial => 3
  | .joypad => 4

def mask (l : Line) : UInt8 := 1 <<< l.index

/-- Where the handler of a line starts. -/
def vector (l : Line) : UInt16 := 0x40 + 8 * l.index.toUInt16

def name : Line → String
  | .vblank => "VBlank"
  | .lcdStat => "LcdStat"
  | .timer => "Timer"
  | .serial => "Serial"
  | .joypad => "Joypad"

/-- The line of highest priority among the set bits. -/
def highest? (bits : UInt8) : Option Line := all.find? fun l => bits &&& l.mask != 0

theorem mem_all (l : Line) : l ∈ all := by cases l <;> decide

end Line

/-- Address of the request register. -/
def ifAddress : UInt16 := 0xFF0F

/-- Address of the enable register. -/
def ieAddress : UInt16 := 0xFFFF

/-- The bits that stand for a line. -/
def lineBits : UInt8 := 0x1F

/-- The bits that stand for none and read as one. -/
def unusedBits : UInt8 := 0xE0

structure Interrupts where
  pending : UInt8 := 0
  enabled : UInt8 := 0
deriving DecidableEq

namespace Interrupts

/-- Make a line pending, whether it is enabled or not. -/
def request (i : Interrupts) (l : Line) : Interrupts := { i with pending := i.pending ||| l.mask }

def clear (i : Interrupts) (l : Line) : Interrupts := { i with pending := i.pending &&& ~~~l.mask }

/-- The lines both pending and enabled. -/
def active (i : Interrupts) : UInt8 := i.pending &&& i.enabled

def read (i : Interrupts) (a : UInt16) : Option UInt8 :=
  if a = ifAddress then some (unusedBits ||| i.pending)
  else if a = ieAddress then some (unusedBits ||| i.enabled)
  else none

def write (i : Interrupts) (a : UInt16) (v : UInt8) : Interrupts :=
  if a = ifAddress then { i with pending := v &&& lineBits }
  else if a = ieAddress then { i with enabled := v &&& lineBits }
  else i

/-- Only bits that stand for a line are set. -/
structure Narrow (i : Interrupts) : Prop where
  pending : i.pending < 32
  enabled : i.enabled < 32

namespace Narrow
variable {i : Interrupts}

theorem and_lt {a b : UInt8} (hb : b < 32) : a &&& b < 32 := by
  rw [UInt8.lt_iff_toNat_lt, UInt8.toNat_and]
  exact Nat.and_lt_two_pow (n := 5) _ (UInt8.lt_iff_toNat_lt.1 hb)

theorem or_lt {a b : UInt8} (ha : a < 32) (hb : b < 32) : a ||| b < 32 := by
  rw [UInt8.lt_iff_toNat_lt, UInt8.toNat_or]
  exact Nat.or_lt_two_pow (n := 5) (UInt8.lt_iff_toNat_lt.1 ha) (UInt8.lt_iff_toNat_lt.1 hb)

theorem active (h : i.Narrow) : i.active < 32 := and_lt h.enabled

theorem request (h : i.Narrow) (l : Line) : (i.request l).Narrow :=
  ⟨or_lt h.pending (by cases l <;> decide), h.enabled⟩

theorem requests (h : i.Narrow) (lines : List Line) : (lines.foldl Interrupts.request i).Narrow := by
  induction lines generalizing i with
  | nil => exact h
  | cons l lines ih => exact ih (h.request l)

theorem clear (h : i.Narrow) (l : Line) : (i.clear l).Narrow := by
  refine ⟨?_, h.enabled⟩
  rw [Interrupts.clear, UInt8.and_comm]
  exact and_lt h.pending

theorem write (h : i.Narrow) (a : UInt16) (v : UInt8) : (i.write a v).Narrow := by
  unfold Interrupts.write
  split
  · exact ⟨and_lt (by decide), h.enabled⟩
  · split
    · exact ⟨h.pending, and_lt (by decide)⟩
    · exact h

end Narrow

end Interrupts

end Dmg
