import Dmg.Bus

/-! # Devices that are parts of the machine

A device of the host may look at the interrupt registers and at the number of the cycle. The parts of
a machine do not: a cycle makes of each of them the same in any company (`Device.ticked`), and they
request the same lines (`Bus.tick_of_builtIn`). -/

namespace Dmg

namespace Device
variable {π : Type}

def isHost : Device π → Bool
  | .host _ => true
  | _ => false

variable [HostDevice π]

/-- A part of the machine after a cycle. -/
def ticked (d : Device π) : Device π := (d.tick 0 {}).1

/-- The lines that a part of the machine requests in a cycle. -/
def requests : Device π → List Line
  | .timer t => if t.tick.2 then [.timer] else []
  | _ => []

theorem tick_of_builtIn {d : Device π} (h : d.isHost = false) (cycle : UInt64) (irq : Interrupts) :
    d.tick cycle irq = (d.ticked, d.requests.foldl Interrupts.request irq) := by
  cases d with
  | host p => cases h
  | timer t =>
    refine Prod.ext rfl ?_
    show (if t.tick.2 then irq.request .timer else irq) =
      List.foldl _ irq (if t.tick.2 then [Line.timer] else [])
    cases t.tick.2 <;> rfl
  | _ => rfl

theorem isHost_ticked {d : Device π} (h : d.isHost = false) : d.ticked.isHost = false := by
  cases d with
  | host p => cases h
  | _ => rfl

theorem isHost_write (d : Device π) (a : UInt16) (v : UInt8) : (d.write a v).isHost = d.isHost := by
  cases d <;> rfl

end Device

namespace Bus
variable {π : Type} {bus : Bus π}

/-- Only parts of the machine are attached. -/
def BuiltIn (bus : Bus π) : Prop := ∀ d ∈ bus.devices, d.isHost = false

instance (bus : Bus π) : Decidable bus.BuiltIn := inferInstanceAs (Decidable (∀ _ ∈ _, _))

variable [HostDevice π]

theorem tickDevices_of_builtIn {ds : List (Device π)} (h : ∀ d ∈ ds, d.isHost = false)
    (cycle : UInt64) (irq : Interrupts) : tickDevices cycle ds irq =
      (ds.map Device.ticked, (ds.flatMap Device.requests).foldl Interrupts.request irq) := by
  induction ds generalizing irq with
  | nil => rfl
  | cons d ds ih =>
    obtain ⟨hd, hds⟩ := List.forall_mem_cons.1 h
    rw [tickDevices_cons, Device.tick_of_builtIn hd]
    dsimp only
    rw [ih hds, List.flatMap_cons, List.foldl_append]
    rfl

theorem tick_of_builtIn (h : bus.BuiltIn) (cycle : UInt64) : bus.tick cycle =
    { devices := bus.devices.map Device.ticked
      irq := (bus.devices.flatMap Device.requests).foldl Interrupts.request bus.irq } := by
  rw [tick, tickDevices_of_builtIn h]

namespace BuiltIn

theorem write (h : bus.BuiltIn) (a : UInt16) (v : UInt8) : (bus.write a v).BuiltIn := by
  intro d hd
  obtain ⟨d', hd', rfl⟩ := List.mem_map.1 hd
  rw [Device.isHost_write, h d' hd']

theorem tick (h : bus.BuiltIn) (cycle : UInt64) : (bus.tick cycle).BuiltIn := by
  rw [tick_of_builtIn h]
  intro d hd
  obtain ⟨d', hd', rfl⟩ := List.mem_map.1 hd
  exact Device.isHost_ticked (h d' hd')

end BuiltIn

end Bus

end Dmg
