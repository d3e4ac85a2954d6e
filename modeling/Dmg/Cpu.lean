import Dmg.Effect
import Dmg.Instruction.Decode

/-! # The processor

The processor is stepped once a machine cycle. On the first cycle of an instruction or of an
interrupt dispatch all of its effect takes place (`Cpu.start`); for the rest of its cost the
processor is busy, and on the last cycle it completes (`Cpu.complete`), which is when an armed EI
takes effect. -/

namespace Dmg

inductive Activity where
  | execute (i : Instruction)
  | dispatch (l : Line)
deriving DecidableEq

/-- Where the processor stands between two steps: about to start something, with `remaining` cycles to
spend on what has taken effect, or parked until an enabled line is pending. -/
inductive Phase where
  | ready
  | busy (act : Activity) (remaining : UInt8)
  | halted
deriving DecidableEq

/-- The processor. With `eiArmed`, EI was executed, and `ime` goes on when the instruction after it
completes. -/
structure Cpu where
  regs : Registers := {}
  ime : Bool := false
  eiArmed : Bool := false
  phase : Phase := .ready
deriving DecidableEq

/-- Two idle cycles, two to push the program counter, one to jump. -/
def dispatchCycles : UInt8 := 5

/-- The start of an activity: what it is, what it costs, and all it does. -/
structure Work where
  act : Activity
  cost : UInt8
  cpu : Cpu
  writes : List Write

namespace Cpu

/-! ### Starting -/

def pendingLine? (cpu : Cpu) (irq : Interrupts) : Option Line :=
  if cpu.ime then Line.highest? irq.active else none

/-- Taking an interrupt: push the program counter and go to the handler with interrupts off. An
armed EI is disarmed, so it cannot enable them inside the handler. -/
def dispatch (cpu : Cpu) (l : Line) : Work :=
  let out := cpu.regs.pushWord cpu.regs.pc
  { act := .dispatch l
    cost := dispatchCycles
    cpu := { cpu with regs := { out.regs with pc := l.vector }, ime := false, eiArmed := false }
    writes := out.writes }

def fetch (cpu : Cpu) (mem : View) : Except IllegalOpcode Instruction :=
  let pc := cpu.regs.pc
  let byte := mem pc
  if byte = prefixByte then .ok (Instruction.decodeCb (mem (pc + 1)))
  else match Instruction.decode? byte with
    | some i => .ok i
    | none => .error { pc, opcode := byte }

/-- What an operation does to interrupt enabling and to the phase. -/
def control (op : Op) (cpu : Cpu) : Cpu :=
  match op with
  | .stop | .halt => { cpu with phase := .halted }
  | .di => { cpu with ime := false, eiArmed := false }
  | .ei => { cpu with eiArmed := true }
  | .reti => { cpu with ime := true }
  | _ => cpu

/-- Executing an instruction found at the program counter. -/
def execute (cpu : Cpu) (i : Instruction) (mem : View) : Work :=
  let pc := cpu.regs.pc
  let out := i.op.apply mem (pc + 1) { cpu.regs with pc := pc + i.size.toUInt16 }
  { act := .execute i
    cost := if out.taken then i.cycles + i.penalty else i.cycles
    cpu := { cpu.control i.op with regs := out.regs }
    writes := out.writes }

/-- What a processor that is free does on this cycle. -/
def start (cpu : Cpu) (irq : Interrupts) (mem : View) : Except IllegalOpcode Work :=
  match cpu.pendingLine? irq with
  | some l => .ok (cpu.dispatch l)
  | none => (cpu.fetch mem).map fun i => cpu.execute i mem

/-! ### Completing -/

/-- The processor once `act` has used up all of its cycles. -/
def complete (cpu : Cpu) (act : Activity) : Cpu :=
  match act with
  | .execute i =>
    if cpu.eiArmed ∧ i.op ≠ .ei then { cpu with ime := true, eiArmed := false } else cpu
  | .dispatch _ => cpu

/-- The processor at the end of the cycle in which `act` started. -/
def settle (cpu : Cpu) (act : Activity) (cost : UInt8) : Cpu :=
  if cost > 1 ∧ cpu.phase = .ready then { cpu with phase := .busy act (cost - 1) }
  else cpu.complete act

/-- The processor after one of the `remaining` cycles of `act`. -/
def countDown (cpu : Cpu) (act : Activity) (remaining : UInt8) : Cpu :=
  if remaining > 1 then { cpu with phase := .busy act (remaining - 1) }
  else { cpu with phase := .ready }.complete act

end Cpu

end Dmg
