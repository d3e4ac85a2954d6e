import Dmg.BootOverlay
import Dmg.HostDevice
import Dmg.RamWindow
import Dmg.SerialLink
import Dmg.Timer

/-! # The bus

A list of devices shares the address space. A read is answered by the first device that maps the
address, a write reaches every device, and a machine cycle is passed to every device in order. The
interrupt registers belong to the bus; they answer at their addresses where the list holds
`Device.interrupts`. -/

namespace Dmg

/-- What is attached to a bus: the parts of a machine, and devices of the host. -/
inductive Device (π : Type) where
  /-- The place of the bus's own interrupt registers among the devices. -/
  | interrupts
  | ram (w : RamWindow)
  | cartridge (c : Cartridge)
  | boot (b : BootOverlay)
  | timer (t : Timer)
  | serial (s : SerialLink)
  | host (p : π)

namespace Device
variable {π : Type} [HostDevice π]

def isInterrupts : Device π → Bool
  | .interrupts => true
  | _ => false

/-- The byte at an address; none where the device maps nothing. -/
def read (irq : Interrupts) (d : Device π) (a : UInt16) : Option UInt8 :=
  match d with
  | .interrupts => irq.read a
  | .ram w => w.read a
  | .cartridge c => c.read a
  | .boot b => b.read a
  | .timer t => t.read a
  | .serial _ => none
  | .host p => HostDevice.read p a

def write (d : Device π) (a : UInt16) (v : UInt8) : Device π :=
  match d with
  | .interrupts => .interrupts
  | .ram w => .ram (w.write a v)
  | .cartridge c => .cartridge c
  | .boot b => .boot (b.write a)
  | .timer t => .timer (t.write a v)
  | .serial s => .serial (s.write a v)
  | .host p => .host (HostDevice.write p a v)

/-- What a write makes visible outside. -/
def reports (d : Device π) (a : UInt16) (v : UInt8) : List Event :=
  match d with
  | .interrupts | .ram _ | .timer _ => []
  | .cartridge _ => Cartridge.reports a v
  | .boot b => b.reports a v
  | .serial s => s.reports a v
  | .host p => HostDevice.reports p a v

/-- A machine cycle: the device and the interrupt registers after it. -/
def tick (d : Device π) (cycle : UInt64) (irq : Interrupts) : Device π × Interrupts :=
  match d with
  | .timer t =>
    let (t, overflow) := t.tick
    (.timer t, if overflow then irq.request .timer else irq)
  | .host p =>
    let (p, irq) := HostDevice.tick p cycle irq
    (.host p, irq)
  | d => (d, irq)

/-- All that a device does to the interrupt registers in a cycle is to request lines. -/
theorem tick_requests [RequestsOnly π] (d : Device π) (cycle : UInt64) (irq : Interrupts) :
    ∃ lines : List Line, (d.tick cycle irq).2 = lines.foldl Interrupts.request irq := by
  cases d with
  | host p => exact RequestsOnly.requests p cycle irq
  | timer t =>
    show ∃ lines, (if t.tick.2 then irq.request .timer else irq) = _
    split
    · exact ⟨[.timer], rfl⟩
    · exact ⟨[], rfl⟩
  | _ => exact ⟨[], rfl⟩

end Device

/-- What is read where nothing maps the address. -/
def openBus : UInt8 := 0xFF

/-- One byte written to the bus. -/
structure Write where
  address : UInt16
  value : UInt8
deriving DecidableEq

namespace Write

/-- A word, written low byte first. -/
def ofWord (a v : UInt16) : List Write := [⟨a, lo v⟩, ⟨a + 1, hi v⟩]

/-- Bytes written at successive addresses, going on at zero after the last address. -/
def ofBytes (a : UInt16) : List UInt8 → List Write
  | [] => []
  | v :: vs => ⟨a, v⟩ :: ofBytes (a + 1) vs

end Write

structure Bus (π : Type) where
  devices : List (Device π) := []
  irq : Interrupts := {}

namespace Bus
variable {π : Type} [HostDevice π]

/-! ### Reading and writing -/

def read (bus : Bus π) (a : UInt16) : UInt8 :=
  (bus.devices.findSome? fun d => d.read bus.irq a).getD openBus

/-- The word at an address, low byte first. -/
def readWord (bus : Bus π) (a : UInt16) : UInt16 := word (bus.read (a + 1)) (bus.read a)

/-- The `n` bytes from an address on, going on at zero after the last address. -/
def readRange (bus : Bus π) (a : UInt16) (n : Nat) : List UInt8 :=
  (List.range n).map fun i => bus.read (a + i.toUInt16)

/-- Whether the interrupt registers can be reached through the bus. -/
def hasInterrupts (bus : Bus π) : Bool := bus.devices.any Device.isInterrupts

def write (bus : Bus π) (a : UInt16) (v : UInt8) : Bus π :=
  let irq := if bus.hasInterrupts then bus.irq.write a v else bus.irq
  { devices := bus.devices.map fun d => d.write a v, irq }

/-- What a write makes visible outside, device by device. -/
def reports (bus : Bus π) (a : UInt16) (v : UInt8) : List Event :=
  bus.devices.flatMap fun d => d.reports a v

/-- Writes made one after the other: the bus after them, and what they made visible, put behind
`seen`. -/
def writeAll : List Write → Bus π → Array Event → Bus π × Array Event
  | [], bus, seen => (bus, seen)
  | w :: ws, bus, seen =>
    let seen := seen ++ bus.reports w.address w.value
    writeAll ws (bus.write w.address w.value) seen

theorem writeAll_fst (ws : List Write) (bus : Bus π) (seen : Array Event) :
    (writeAll ws bus seen).1 = ws.foldl (fun b w => b.write w.address w.value) bus := by
  induction ws generalizing bus seen with
  | nil => rfl
  | cons w ws ih => exact ih _ _

/-! ### Cycles and interrupts -/

/-- A machine cycle passed along the devices; each sees what those before it made of the interrupt
registers. -/
def tickDevices (cycle : UInt64) : List (Device π) → Interrupts → List (Device π) × Interrupts
  | [], irq => ([], irq)
  | d :: ds, irq =>
    let (d, irq) := d.tick cycle irq
    let (ds, irq) := tickDevices cycle ds irq
    (d :: ds, irq)

theorem tickDevices_cons (cycle : UInt64) (d : Device π) (ds : List (Device π)) (irq : Interrupts) :
    tickDevices cycle (d :: ds) irq =
      let ticked := d.tick cycle irq
      let rest := tickDevices cycle ds ticked.2
      (ticked.1 :: rest.1, rest.2) := rfl

def tick (bus : Bus π) (cycle : UInt64) : Bus π :=
  let (devices, irq) := tickDevices cycle bus.devices bus.irq
  { devices, irq }

/-- Make a line pending. -/
def request (bus : Bus π) (l : Line) : Bus π := { bus with irq := bus.irq.request l }

def clear (bus : Bus π) (l : Line) : Bus π := { bus with irq := bus.irq.clear l }

/-! ### Attaching -/

/-- Put a device behind those already there. -/
def attach (bus : Bus π) (d : Device π) : Bus π := { bus with devices := bus.devices ++ [d] }

/-- The record of attaching a device. -/
def attachEvent (bus : Bus π) : Device π → Event
  | .interrupts => .attachedCpu bus.devices.length
  | _ => .attachedPeripheral bus.devices.length

end Bus

end Dmg
