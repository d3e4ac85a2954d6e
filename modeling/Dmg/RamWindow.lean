import Dmg.Bytes
import Dmg.Error

/-! # RAM in the address space

A window maps a block of RAM to the addresses from `start` on, and an optional echo maps the
beginning of the same block a second time. A window is built by `zeroed` and `withEcho`, which
refuse one that does not fit; `offset?` then gives every mapped address a place inside the block. -/

namespace Dmg

/-- One past the last address. -/
def addressSpace : Nat := 0x10000

/-- A second appearance of the first `length` bytes of a block. -/
structure Echo (size : Nat) where
  start : UInt16
  length : Nat
  within : length ≤ size
  fits : start.toNat + length ≤ addressSpace

structure RamWindow where
  size : Nat
  cells : Bytes size
  start : UInt16
  fits : start.toNat + size ≤ addressSpace
  echo : Option (Echo size)

namespace RamWindow

/-- A window of `size` zeros at `start`. -/
def zeroed (start : UInt16) (size : Nat) : Except LayoutError RamWindow :=
  if h : start.toNat + size ≤ addressSpace then
    .ok { size, cells := .zeros size, start, fits := h, echo := none }
  else .error (.window start size)

/-- The window with its first `length` bytes also at `start`. -/
def withEcho (w : RamWindow) (start : UInt16) (length : Nat) : Except LayoutError RamWindow :=
  if hw : length ≤ w.size then
    if hf : start.toNat + length ≤ addressSpace then
      .ok { w with echo := some { start, length, within := hw, fits := hf } }
    else .error (.echoWindow start length)
  else .error .echoSize

/-- The place of an address in the block; where window and echo overlap, the window decides. -/
def offset? (w : RamWindow) (a : UInt16) : Option (Fin w.size) :=
  if h : w.start ≤ a ∧ a.toNat - w.start.toNat < w.size then some ⟨_, h.2⟩
  else match w.echo with
    | some e =>
      if h : e.start ≤ a ∧ a.toNat - e.start.toNat < e.length then
        some ⟨_, Nat.lt_of_lt_of_le h.2 e.within⟩
      else none
    | none => none

/-- The byte at an address; none outside the window and the echo. -/
def read (w : RamWindow) (a : UInt16) : Option UInt8 :=
  (w.offset? a).map fun i => w.cells[i]

def write (w : RamWindow) (a : UInt16) (v : UInt8) : RamWindow :=
  match w.offset? a with
  | some i => { w with cells := w.cells.set i v }
  | none => w

/-- A window answers exactly where it is mapped. -/
theorem read_isSome (w : RamWindow) (a : UInt16) : (w.read a).isSome = (w.offset? a).isSome := by
  simp [read]

@[simp] theorem write_of_offset?_eq_none {w : RamWindow} {a : UInt16} (h : w.offset? a = none)
    (v : UInt8) : w.write a v = w := by
  simp [write, h]

end RamWindow

end Dmg
