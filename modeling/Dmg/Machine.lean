import Dmg.Bus
import Dmg.Cpu

/-! # The machine

A processor and a bus on one cycle counter. On each cycle the devices tick before the processor
steps, so an interrupt raised on a cycle is seen by the processor on that cycle. A cycle counts
whether the processor's step fails or not. Runs take a `keep` that picks the events to be collected,
which has no part in what the machine does. -/

namespace Dmg

structure Machine (π : Type) where
  cpu : Cpu := {}
  bus : Bus π := {}
  cycles : UInt64 := 0

/-- What an operation leaves: the machine, what became visible outside, and the failure that stopped
it. -/
structure Run (π : Type) where
  machine : Machine π
  events : Array Event := #[]
  failure : Option IllegalOpcode := none

/-- The record of an activity about to take effect. -/
def Activity.event (cycle : UInt64) (pc : UInt16) : Activity → Event
  | .execute i => .executing cycle pc i
  | .dispatch l => .servicing cycle l pc

namespace Machine
variable {π : Type} [HostDevice π]

/-! ### One cycle -/

/-- The bus once the interrupt that `act` serves is acknowledged. -/
def acknowledge (act : Activity) (bus : Bus π) : Bus π :=
  match act with
  | .dispatch l => bus.clear l
  | .execute _ => bus

/-- The processor, being free, starts an activity; `seen` became visible before. A failure changes
nothing. -/
def startWork (m : Machine π) (seen : Array Event) : Run π :=
  let { cpu, bus, cycles } := m
  match cpu.start bus.irq bus.read with
  | .error e => { machine := { cpu, bus, cycles }, events := seen, failure := some e }
  | .ok work =>
    let seen := seen.push (work.act.event cycles cpu.regs.pc)
    let (bus, seen) := (acknowledge work.act bus).writeAll work.writes seen
    { machine := { cpu := work.cpu.settle work.act work.cost, bus, cycles }, events := seen }

/-- The processor's part in the current cycle. -/
def stepCpu (m : Machine π) : Run π :=
  match m.cpu.phase with
  | .busy act remaining => { machine := { m with cpu := m.cpu.countDown act remaining } }
  | .halted =>
    if m.bus.irq.active = 0 then { machine := m }
    else startWork { m with cpu := { m.cpu with phase := .ready } } #[.leavingHalt m.cycles]
  | .ready => m.startWork #[]

/-- The next cycle begins. -/
def advance (m : Machine π) : Machine π := { m with cycles := m.cycles + 1 }

/-- The devices' part in the current cycle. -/
def tickBus (m : Machine π) : Machine π := { m with bus := m.bus.tick m.cycles }

def tick (m : Machine π) : Run π := { machine := m.advance.tickBus }

def step (m : Machine π) : Run π := m.advance.stepCpu

def cycle (m : Machine π) : Run π := m.advance.tickBus.stepCpu

/-! ### Runs -/

/-- `f` taken `n` times, or until it fails. Events that pass `keep` are collected behind `seen`. -/
def iterate (f : Machine π → Run π) (keep : Event → Bool) : Nat → Machine π → Array Event → Run π
  | 0, m, seen => { machine := m, events := seen }
  | n + 1, m, seen =>
    match f m with
    | { machine, events, failure := none } => iterate f keep n machine (seen ++ events.filter keep)
    | { machine, events, failure := some e } =>
      { machine, events := seen ++ events.filter keep, failure := some e }

/-- Run every cycle up to and including `target`. -/
def runUntil (keep : Event → Bool) (target : UInt64) (m : Machine π) (seen : Array Event) : Run π :=
  iterate cycle keep (target.toNat - m.cycles.toNat) m seen

def request (m : Machine π) (l : Line) : Machine π := { m with bus := m.bus.request l }

def clear (m : Machine π) (l : Line) : Machine π := { m with bus := m.bus.clear l }

/-- Machine cycles in a frame of the 59.7 Hz display. -/
def frameCycles : UInt64 := 17556

/-- Frames one after the other, each ending with a request of the vertical blank. -/
def frames (keep : Event → Bool) : Nat → Machine π → Array Event → Run π
  | 0, m, seen => { machine := m, events := seen }
  | n + 1, m, seen =>
    match runUntil keep (m.cycles + frameCycles) m seen with
    | { machine, events, failure := none } => frames keep n (machine.request .vblank) events
    | failed => failed

/-- Run `n` frames and report the last cycle if none of them failed. -/
def runFrames (keep : Event → Bool) (n : Nat) (m : Machine π) (seen : Array Event) : Run π :=
  let run := frames keep n m seen
  if run.failure.isNone then
    { run with events := run.events ++ #[.framesRun n run.machine.cycles].filter keep }
  else run

/-- Step the processor alone through what it starts or is busy with, to the end of its cost. -/
def runWork (keep : Event → Bool) (m : Machine π) (seen : Array Event) : Run π :=
  let first := iterate step keep 1 m seen
  match first.failure, first.machine.cpu.phase with
  | none, .busy _ remaining => iterate step keep remaining.toNat first.machine first.events
  | _, _ => first

/-- Run whole cycles until the processor is halted, at most `limit` of them. -/
def runUntilHalt (keep : Event → Bool) : Nat → Machine π → Array Event → Run π
  | 0, m, seen => { machine := m, events := seen }
  | limit + 1, m, seen =>
    if m.cpu.phase = .halted then { machine := m, events := seen }
    else match m.cycle with
      | { machine, events, failure := none } =>
        runUntilHalt keep limit machine (seen ++ events.filter keep)
      | { machine, events, failure := some e } =>
        { machine, events := seen ++ events.filter keep, failure := some e }

/-! ### Access from the host -/

def read (m : Machine π) (a : UInt16) : UInt8 := m.bus.read a

def readWord (m : Machine π) (a : UInt16) : UInt16 := m.bus.readWord a

def store (m : Machine π) (ws : List Write) : Run π :=
  let { cpu, bus, cycles } := m
  let (bus, events) := bus.writeAll ws #[]
  { machine := { cpu, bus, cycles }, events }

def write (m : Machine π) (a : UInt16) (v : UInt8) : Run π := m.store [⟨a, v⟩]

/-- Put a device behind those already on the bus. -/
def attach (m : Machine π) (d : Device π) : Run π :=
  { machine := { m with bus := m.bus.attach d }, events := #[m.bus.attachEvent d] }

end Machine

end Dmg
