import Dmg.Proofs.Checked.Arithmetic
import Dmg.Proofs.Step

/-! # Memory by index

Every byte of a block is reached by an index that the block may not have. The windows and the chips
compute theirs from the address, and the bounds they carry keep it inside, so that through the bus
every address can be read and written, and the devices ticked, in any state they can be in. -/

namespace Dmg

open Unsigned (difference)

/-! ### Blocks of bytes -/

namespace RamWindow
variable {w : RamWindow} {a : UInt16}

/-- The index of an address in the block. The distance from the start of the window wraps; that from
the start of the echo may not. -/
def checkedIndex? (w : RamWindow) (a : UInt16) : Option (Option Nat) := do
  if w.start ≤ a ∧ (a - w.start).toNat < w.size then return some (a - w.start).toNat
  match w.echo with
  | none => return none
  | some e =>
    if e.start ≤ a then
      let offset ← difference a e.start
      return if offset.toNat < e.length then some offset.toNat else none
    else return none

def checkedRead (w : RamWindow) (a : UInt16) : Option (Option UInt8) := do
  match ← w.checkedIndex? a with
  | some i => return some (← w.cells.read? i)
  | none => return none

def checkedWrite (w : RamWindow) (a : UInt16) (v : UInt8) : Option RamWindow := do
  match ← w.checkedIndex? a with
  | some i => return { w with cells := ← w.cells.write? i v }
  | none => return w

theorem checkedIndex?_eq (w : RamWindow) (a : UInt16) :
    w.checkedIndex? a = some ((w.offset? a).map Fin.val) := by
  have hsub {s : UInt16} (h : s ≤ a) : (a - s).toNat = a.toNat - s.toNat :=
    UInt16.toNat_sub_of_le _ _ h
  -- Behind the start of the window, the distance that may wrap is the one that may not.
  by_cases hmain : w.start ≤ a ∧ (a - w.start).toNat < w.size
  · have hmain' := hmain
    rw [hsub hmain.1] at hmain'
    rw [checkedIndex?, if_pos hmain, offset?, dif_pos hmain', hsub hmain.1]
    rfl
  · have hmain' : ¬ (w.start ≤ a ∧ a.toNat - w.start.toNat < w.size) := by
      rintro ⟨h, hlt⟩
      exact hmain ⟨h, (hsub h).symm ▸ hlt⟩
    rw [checkedIndex?, if_neg hmain, offset?, dif_neg hmain']
    cases w.echo with
    | none => rfl
    | some e =>
      by_cases he : e.start ≤ a
      · have hdiff : difference a e.start = some (a - e.start) :=
          Unsigned.difference_eq (UInt16.le_iff_toNat_le.1 he)
        simp only [he, hdiff, if_true, Option.bind_eq_bind, Option.bind_some, hsub he, true_and]
        split_ifs <;> rfl
      · simp only [he, if_false, false_and]
        rfl

@[simp] theorem checkedRead_eq (w : RamWindow) (a : UInt16) :
    w.checkedRead a = some (w.read a) := by
  rw [checkedRead, checkedIndex?_eq, read]
  cases w.offset? a with
  | none => rfl
  | some i =>
    have hi : w.cells.read? i = some w.cells[i] := Vector.getElem?_eq_getElem i.isLt
    show (w.cells.read? i).bind _ = _
    rw [hi]
    rfl

@[simp] theorem checkedWrite_eq (w : RamWindow) (a : UInt16) (v : UInt8) :
    w.checkedWrite a v = some (w.write a v) := by
  rw [checkedWrite, checkedIndex?_eq, write]
  cases w.offset? a with
  | none => rfl
  | some i =>
    have hi : w.cells.write? i v = some (w.cells.set i v) := dif_pos i.isLt
    show (w.cells.write? i v).bind _ = _
    rw [hi]
    rfl

end RamWindow

namespace PlainRom

def checkedRead (r : PlainRom) (a : UInt16) : Option UInt8 :=
  if a >>> 12 ≤ 7 then r.image.read? a.toNat else some 0xFF

@[simp] theorem checkedRead_eq (r : PlainRom) (a : UInt16) : r.checkedRead a = some (r.read a) := by
  have hpage : a >>> 12 ≤ 7 ↔ a.toNat < romSize := by
    have hshift : (a >>> 12).toNat = a.toNat / 2 ^ 12 := by
      rw [UInt16.toNat_shiftRight, Nat.shiftRight_eq_div_pow]
      rfl
    rw [UInt16.le_iff_toNat_le, hshift]
    show _ ≤ 7 ↔ _ < 0x8000
    omega
  unfold checkedRead read
  by_cases ha : a.toNat < romSize
  · rw [if_pos (hpage.2 ha), dif_pos ha]
    exact Vector.getElem?_eq_getElem ha
  · rw [if_neg (mt hpage.1 ha), dif_neg ha]

end PlainRom

def Cartridge.checkedRead (c : Cartridge) (a : UInt16) : Option (Option UInt8) := do
  if maps a then return some (← c.rom.checkedRead a) else return none

@[simp] theorem Cartridge.checkedRead_eq (c : Cartridge) (a : UInt16) :
    c.checkedRead a = some (c.read a) := by
  rw [checkedRead, PlainRom.checkedRead_eq, read]
  split <;> rfl

namespace BootOverlay

def checkedRead (b : BootOverlay) (a : UInt16) : Option (Option UInt8) := do
  match b.image with
  | some image =>
    if a.toNat < bootSize then return some (← image.read? a.toNat) else b.cartridge.checkedRead a
  | none => b.cartridge.checkedRead a

@[simp] theorem checkedRead_eq (b : BootOverlay) (a : UInt16) :
    b.checkedRead a = some (b.read a) := by
  unfold checkedRead read
  cases b.image with
  | none => exact b.cartridge.checkedRead_eq a
  | some image =>
    by_cases ha : a.toNat < bootSize
    · have hi : image.read? a.toNat = some image[a.toNat] := Vector.getElem?_eq_getElem ha
      simp only [if_pos ha, dif_pos ha, hi]
      rfl
    · simp only [if_neg ha, dif_neg ha]
      exact b.cartridge.checkedRead_eq a

end BootOverlay

/-! ### Devices -/

namespace Device
variable {π : Type} [HostDevice π]

def checkedRead (irq : Interrupts) (d : Device π) (a : UInt16) : Option (Option UInt8) :=
  match d with
  | .ram w => w.checkedRead a
  | .cartridge c => c.checkedRead a
  | .boot b => b.checkedRead a
  | d => some (d.read irq a)

def checkedWrite (d : Device π) (a : UInt16) (v : UInt8) : Option (Device π) :=
  match d with
  | .ram w => do return .ram (← w.checkedWrite a v)
  | .timer t => do return .timer (← t.checkedWrite a v)
  | d => some (d.write a v)

def checkedTick (d : Device π) (cycle : UInt64) (irq : Interrupts) :
    Option (Device π × Interrupts) :=
  match d with
  | .timer t => do
    let (t, overflow) ← t.checkedTick
    return (.timer t, ← if overflow then irq.checkedRequest .timer else some irq)
  | d => some (d.tick cycle irq)

@[simp] theorem checkedRead_eq (irq : Interrupts) (d : Device π) (a : UInt16) :
    d.checkedRead irq a = some (d.read irq a) := by
  cases d with
  | ram w => exact w.checkedRead_eq a
  | cartridge c => exact c.checkedRead_eq a
  | boot b => exact b.checkedRead_eq a
  | _ => rfl

@[simp] theorem checkedWrite_eq (d : Device π) (a : UInt16) (v : UInt8) :
    d.checkedWrite a v = some (d.write a v) := by
  cases d with
  | ram w =>
    rw [checkedWrite, RamWindow.checkedWrite_eq]
    rfl
  | timer t =>
    rw [checkedWrite, Timer.checkedWrite_eq]
    rfl
  | _ => rfl

@[simp] theorem checkedTick_eq (d : Device π) (cycle : UInt64) (irq : Interrupts) :
    d.checkedTick cycle irq = some (d.tick cycle irq) := by
  cases d with
  | timer t =>
    simp only [checkedTick, Timer.checkedTick_eq, Interrupts.checkedRequest_eq, tick,
      Option.bind_eq_bind, Option.bind_some]
    cases t.tick.2 <;> rfl
  | _ => rfl

end Device

/-! ### The bus -/

namespace Bus
variable {π : Type} [HostDevice π]

def checkedRead (bus : Bus π) (a : UInt16) : Option UInt8 := do
  return (← bus.devices.findSomeM? fun d => d.checkedRead bus.irq a).getD openBus

def checkedWrite (bus : Bus π) (a : UInt16) (v : UInt8) : Option (Bus π) := do
  let irq := if bus.hasInterrupts then bus.irq.write a v else bus.irq
  return { devices := ← bus.devices.mapM fun d => d.checkedWrite a v, irq }

def checkedWriteAll : List Write → Bus π → Array Event → Option (Bus π × Array Event)
  | [], bus, seen => some (bus, seen)
  | w :: ws, bus, seen => do
    let seen := seen ++ bus.reports w.address w.value
    checkedWriteAll ws (← bus.checkedWrite w.address w.value) seen

def checkedTickDevices (cycle : UInt64) :
    List (Device π) → Interrupts → Option (List (Device π) × Interrupts)
  | [], irq => some ([], irq)
  | d :: ds, irq => do
    let (d, irq) ← d.checkedTick cycle irq
    let (ds, irq) ← checkedTickDevices cycle ds irq
    return (d :: ds, irq)

def checkedTick (bus : Bus π) (cycle : UInt64) : Option (Bus π) := do
  let (devices, irq) ← checkedTickDevices cycle bus.devices bus.irq
  return { devices, irq }

def checkedRequest (bus : Bus π) (l : Line) : Option (Bus π) := do
  return { bus with irq := ← bus.irq.checkedRequest l }

def checkedClear (bus : Bus π) (l : Line) : Option (Bus π) := do
  return { bus with irq := ← bus.irq.checkedClear l }

@[simp] theorem checkedRead_eq (bus : Bus π) (a : UInt16) :
    bus.checkedRead a = some (bus.read a) := by
  have hfind : (bus.devices.findSomeM? fun d => d.checkedRead bus.irq a) =
      some (bus.devices.findSome? fun d => d.read bus.irq a) := by
    simp only [Device.checkedRead_eq]
    exact List.findSomeM?_pure
  rw [checkedRead, hfind]
  rfl

@[simp] theorem checkedWrite_eq (bus : Bus π) (a : UInt16) (v : UInt8) :
    bus.checkedWrite a v = some (bus.write a v) := by
  have hmap : (bus.devices.mapM fun d => d.checkedWrite a v) =
      some (bus.devices.map fun d => d.write a v) := by
    simp only [Device.checkedWrite_eq]
    exact List.mapM_pure
  rw [checkedWrite, hmap]
  rfl

@[simp] theorem checkedWriteAll_eq (ws : List Write) (bus : Bus π) (seen : Array Event) :
    checkedWriteAll ws bus seen = some (writeAll ws bus seen) := by
  induction ws generalizing bus seen with
  | nil => rfl
  | cons w ws ih =>
    rw [checkedWriteAll, checkedWrite_eq]
    exact ih _ _

@[simp] theorem checkedTickDevices_eq (cycle : UInt64) (ds : List (Device π)) (irq : Interrupts) :
    checkedTickDevices cycle ds irq = some (tickDevices cycle ds irq) := by
  induction ds generalizing irq with
  | nil => rfl
  | cons d ds ih =>
    rw [checkedTickDevices, Device.checkedTick_eq]
    simp only [Option.bind_eq_bind, Option.bind_some, ih]
    rfl

@[simp] theorem checkedTick_eq (bus : Bus π) (cycle : UInt64) :
    bus.checkedTick cycle = some (bus.tick cycle) := by
  rw [checkedTick, checkedTickDevices_eq]
  rfl

omit [HostDevice π] in
@[simp] theorem checkedRequest_eq (bus : Bus π) (l : Line) :
    bus.checkedRequest l = some (bus.request l) := by
  rw [checkedRequest, Interrupts.checkedRequest_eq]
  rfl

omit [HostDevice π] in
@[simp] theorem checkedClear_eq (bus : Bus π) (l : Line) :
    bus.checkedClear l = some (bus.clear l) := by
  rw [checkedClear, Interrupts.checkedClear_eq]
  rfl

end Bus

end Dmg
