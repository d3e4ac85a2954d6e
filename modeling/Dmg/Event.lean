import Dmg.Instruction.Mnemonic
import Dmg.Interrupt

/-! # Events

What a machine does that can be seen from outside: the records of its log, the bytes it sends over
the serial link, and the writes a spy on the bus observes. Events are results of operations and
never part of a machine's state. -/

namespace Dmg

/-- Levels of the log, most severe first. -/
inductive Level where
  | error | warn | info | debug | trace
deriving DecidableEq

namespace Level

def all : List Level := [.error, .warn, .info, .debug, .trace]

/-- The number of levels that are more severe. -/
def rank : Level → Nat
  | .error => 0
  | .warn => 1
  | .info => 2
  | .debug => 3
  | .trace => 4

def name : Level → String
  | .error => "ERROR"
  | .warn => "WARN"
  | .info => "INFO"
  | .debug => "DEBUG"
  | .trace => "TRACE"

end Level

/-- The parts of a program that keep records. -/
inductive Source where
  | program | machine | bus | cpu | cartridge | rom | boot | serial
deriving DecidableEq

def Source.name : Source → String
  | program => "program"
  | machine => "machine"
  | bus => "bus"
  | cpu => "cpu"
  | cartridge => "cartridge"
  | rom => "rom"
  | boot => "boot"
  | serial => "serial"

/-- What became visible. A `position` is the number of devices in front; `observed` is a write that a
spy on the bus has seen. -/
inductive Event where
  | attachedCpu (position : Nat)
  | attachedPeripheral (position : Nat)
  | ready (pc : UInt16)
  | framesRun (frames : Nat) (cycle : UInt64)
  | leavingHalt (cycle : UInt64)
  | servicing (cycle : UInt64) (line : Line) (pc : UInt16)
  | executing (cycle : UInt64) (pc : UInt16) (instr : Instruction)
  | bootUnmapped
  | romWriteIgnored (address : UInt16) (value : UInt8)
  | loaded (path : String) (size : Nat)
  | finished (cycle : UInt64) (pc sp af : UInt16)
  | sent (byte : UInt8)
  | dropped (byte : UInt8) (reason : String)
  | observed (address : UInt16) (value : UInt8)

namespace Event

/-- The level at which an event is logged; the bytes sent and the writes observed are not. -/
def level? : Event → Option Level
  | .attachedCpu _ | .attachedPeripheral _ | .framesRun .. | .leavingHalt _ | .servicing ..
  | .bootUnmapped => some .debug
  | .ready _ | .loaded .. | .finished .. => some .info
  | .executing .. | .romWriteIgnored .. => some .trace
  | .dropped .. => some .warn
  | .sent _ | .observed .. => none

def source : Event → Source
  | .attachedCpu _ | .attachedPeripheral _ | .observed .. => .bus
  | .ready _ | .framesRun .. => .machine
  | .leavingHalt _ | .servicing .. | .executing .. => .cpu
  | .bootUnmapped => .boot
  | .romWriteIgnored .. => .rom
  | .loaded .. => .cartridge
  | .finished .. => .program
  | .sent _ | .dropped .. => .serial

def message : Event → String
  | .attachedCpu i => "bus: attached cpu #" ++ toString i
  | .attachedPeripheral i => "bus: attached peripheral #" ++ toString i
  | .ready pc => "machine ready, pc=0x" ++ hexWord pc
  | .framesRun n cycle => "ran " ++ toString n ++ " frames, now at cycle " ++ toString cycle.toNat
  | .leavingHalt cycle => toString cycle.toNat ++ ": leaving halt"
  | .servicing cycle line pc =>
    toString cycle.toNat ++ ": servicing " ++ line.name ++ " from 0x" ++ hexWord pc
  | .executing cycle pc i =>
    toString cycle.toNat ++ ": 0x" ++ hexWord pc ++ " " ++ (if i.prefixed then "cb " else "") ++
      hexByte i.encoding ++ " " ++ i.op.mnemonic
  | .bootUnmapped => "boot rom unmapped"
  | .romWriteIgnored address value =>
    "mbc0: ignored write 0x" ++ hexByte value ++ " to rom 0x" ++ hexWord address
  | .loaded path size => "loaded " ++ path ++ " (" ++ toString size ++ " bytes)"
  | .finished cycle pc sp af =>
    "finished at cycle " ++ toString cycle.toNat ++ ": pc=0x" ++ hexWord pc ++ " sp=0x" ++
      hexWord sp ++ " af=0x" ++ hexWord af
  | .sent byte => "serial: sent 0x" ++ hexByte byte
  | .dropped byte reason => "serial: dropped 0x" ++ hexByte byte ++ ": " ++ reason
  | .observed address value => "observed write 0x" ++ hexByte value ++ " to 0x" ++ hexWord address

/-- The line of a log: level and message. -/
def logLine (e : Event) : String :=
  match e.level? with
  | some l => l.name ++ " " ++ e.message
  | none => e.message

end Event

end Dmg
