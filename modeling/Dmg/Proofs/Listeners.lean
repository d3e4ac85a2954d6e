import Dmg.Proofs.Lockstep
import Dmg.Proofs.Wiring

/-! # Serial links only listen

A serial link answers no address and requests no interrupt. So a bus does with its links what it
would do without them (`Bus.unlinked`), and a host cannot tell a machine from the same machine with
links attached to it, whatever becomes of the bytes they are given
(`Machine.dialogue_attach_links`). -/

namespace Dmg

namespace Device
variable {π : Type}

def isSerial : Device π → Bool
  | .serial _ => true
  | _ => false

variable [HostDevice π]

theorem isSerial_write (d : Device π) (a : UInt16) (v : UInt8) :
    (d.write a v).isSerial = d.isSerial := by
  cases d <;> rfl

theorem isSerial_tick (d : Device π) (cycle : UInt64) (irq : Interrupts) :
    (d.tick cycle irq).1.isSerial = d.isSerial := by
  cases d <;> rfl

theorem read_of_isSerial {d : Device π} (h : d.isSerial = true) (irq : Interrupts) (a : UInt16) :
    d.read irq a = none := by
  cases d with
  | serial s => rfl
  | _ => cases h

theorem tick_of_isSerial {d : Device π} (h : d.isSerial = true) (cycle : UInt64) (irq : Interrupts) :
    d.tick cycle irq = (d, irq) := by
  cases d with
  | serial s => rfl
  | _ => cases h

end Device

namespace Bus
variable {π : Type}

/-- The bus without its serial links. -/
def unlinked (bus : Bus π) : Bus π := { bus with devices := bus.devices.filter (!·.isSerial) }

theorem hasInterrupts_unlinked (bus : Bus π) : bus.unlinked.hasInterrupts = bus.hasInterrupts := by
  unfold hasInterrupts unlinked
  rw [List.any_filter]
  congr 1
  funext d
  cases d <;> rfl

variable [HostDevice π]

theorem read_unlinked (bus : Bus π) : bus.unlinked.read = bus.read := by
  funext a
  have hfind (ds : List (Device π)) : ((ds.filter (!·.isSerial)).findSome? fun d => d.read bus.irq a) =
      ds.findSome? fun d => d.read bus.irq a := by
    induction ds with
    | nil => rfl
    | cons d ds ih =>
      cases hd : d.isSerial with
      | true =>
        rw [List.filter_cons_of_neg (by simp [hd]), List.findSome?_cons,
          Device.read_of_isSerial hd, ih]
      | false =>
        rw [List.filter_cons_of_pos (by simp [hd]), List.findSome?_cons, List.findSome?_cons, ih]
  exact congrArg (Option.getD · openBus) (hfind bus.devices)

theorem unlinked_write (bus : Bus π) (a : UInt16) (v : UInt8) :
    (bus.write a v).unlinked = bus.unlinked.write a v := by
  have hdevices : (bus.devices.map (·.write a v)).filter (!·.isSerial) =
      (bus.devices.filter (!·.isSerial)).map (·.write a v) := by
    rw [List.filter_map]
    congr 2
    funext d
    exact congrArg (!·) (d.isSerial_write a v)
  rw [write, write, hasInterrupts_unlinked]
  exact congrArg (Bus.mk · _) hdevices

theorem unlinked_tick (bus : Bus π) (cycle : UInt64) :
    (bus.tick cycle).unlinked = bus.unlinked.tick cycle := by
  -- A link passes the cycle on as it is, to the devices behind it.
  have hticks (ds : List (Device π)) (irq : Interrupts) :
      tickDevices cycle (ds.filter (!·.isSerial)) irq =
        ((tickDevices cycle ds irq).1.filter (!·.isSerial), (tickDevices cycle ds irq).2) := by
    induction ds generalizing irq with
    | nil => rfl
    | cons d ds ih =>
      have hsame := d.isSerial_tick cycle irq
      rw [tickDevices]
      cases hd : d.isSerial with
      | true =>
        rw [List.filter_cons_of_neg (by simp [hd]), Device.tick_of_isSerial hd]
        dsimp only
        rw [List.filter_cons_of_neg (by simp [hd])]
        exact ih irq
      | false =>
        rw [hd] at hsame
        rw [List.filter_cons_of_pos (by simp [hd]), tickDevices]
        dsimp only
        rw [List.filter_cons_of_pos (by simp [hsame]), ih]
  unfold tick
  rw [show bus.unlinked.devices = bus.devices.filter (!·.isSerial) from rfl,
    show bus.unlinked.irq = bus.irq from rfl, hticks]
  rfl

omit [HostDevice π] in
theorem irq_of_unlinked_eq {b b' : Bus π} (h : b'.unlinked = b.unlinked) : b'.irq = b.irq := by
  have hirq : b'.unlinked.irq = b.unlinked.irq := congrArg Bus.irq h
  exact hirq

theorem read_of_unlinked_eq {b b' : Bus π} (h : b'.unlinked = b.unlinked) : b'.read = b.read := by
  rw [← b'.read_unlinked, ← b.read_unlinked, h]

end Bus

/-- Machines that differ in their serial links alone go through the same. -/
theorem lockstep_unlinked {π : Type} [HostDevice π] :
    Lockstep (fun _ => True) fun b b' : Bus π => b'.unlinked = b.unlinked where
  write h a v := by rw [Bus.unlinked_write, Bus.unlinked_write, h]
  request h l := congrArg (Bus.request · l) h
  clear h l := congrArg (Bus.clear · l) h
  tick h cycle := by rw [Bus.unlinked_tick, Bus.unlinked_tick, h]
  agrees h _ := ⟨h.cpu, congrArg Interrupts.active (Bus.irq_of_unlinked_eq h.bus),
    fun a _ => congrFun (Bus.read_of_unlinked_eq h.bus) a⟩

/-- A machine to which serial links are attached, among whatever else and wherever their bytes go,
gives the same replies to the same calls as without them, and shows the same processor, the same
interrupt registers and the same counter. -/
theorem Machine.dialogue_attach_links {π : Type} [HostDevice π] (m : Machine π)
    (devices : List (Device π)) (calls : List Call) :
    (m.attachAll devices).machine.dialogue sight calls =
      (m.attachAll (devices.filter (!·.isSerial))).machine.dialogue sight calls := by
  refine lockstep_unlinked.dialogue Bus.read_of_unlinked_eq Bus.irq_of_unlinked_eq calls ?_
  rw [attachAll_machine, attachAll_machine]
  refine ⟨rfl, rfl, ?_⟩
  simp only [Bus.unlinked, List.filter_append, List.filter_filter, Bool.and_self]

end Dmg
