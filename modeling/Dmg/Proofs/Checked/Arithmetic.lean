import Dmg.Alu
import Dmg.Interrupt
import Dmg.Timer
import Mathlib.Algebra.Group.Nat.Defs
import Mathlib.Tactic.Common

/-! # Arithmetic that must fit

A `checked` function computes what its namesake computes, but has no answer where a sum, a
difference, a product or the amount of a shift does not fit the width it is computed in. That it is
the namesake nevertheless (`Alu.checkedAdd8_eq` and the like) says that everything fits, in every
intermediate step: the wide sums of the carries, the sums of nibbles, and the masks of lines and
bits. What is meant to wrap, and shifts by a literal amount, are not checked. -/

namespace Dmg

/-- The unsigned integers of a fixed width. -/
class Unsigned (α : Type) where
  width : Nat
  toNat : α → Nat

instance : Unsigned UInt8 := ⟨8, UInt8.toNat⟩
instance : Unsigned UInt16 := ⟨16, UInt16.toNat⟩
instance : Unsigned UInt32 := ⟨32, UInt32.toNat⟩
instance : Unsigned UInt64 := ⟨64, UInt64.toNat⟩

namespace Unsigned
variable {α : Type} [Unsigned α] {a b : α}

def sum [Add α] (a b : α) : Option α :=
  if toNat a + toNat b < 2 ^ width α then some (a + b) else none

def difference [Sub α] (a b : α) : Option α := if toNat b ≤ toNat a then some (a - b) else none

def product [Mul α] (a b : α) : Option α :=
  if toNat a * toNat b < 2 ^ width α then some (a * b) else none

def shiftedLeft [ShiftLeft α] (a n : α) : Option α :=
  if toNat n < width α then some (a <<< n) else none

def shiftedRight [ShiftRight α] (a n : α) : Option α :=
  if toNat n < width α then some (a >>> n) else none

theorem sum_eq [Add α] (h : toNat a + toNat b < 2 ^ width α) : sum a b = some (a + b) := if_pos h

theorem difference_eq [Sub α] (h : toNat b ≤ toNat a) : difference a b = some (a - b) := if_pos h

end Unsigned

open Unsigned (sum difference product shiftedLeft shiftedRight)

/-! ### Arithmetic and logic -/

namespace Alu
variable {a n b : UInt8}

def checkedAdd8 (a n : UInt8) (carry : Bool) : Option (UInt8 × Flags) := do
  let c := bitOf carry
  let wide ← sum (← sum a.toUInt16 n.toUInt16) c.toUInt16
  let half ← sum (← sum (a &&& 0xF) (n &&& 0xF)) c
  let r := wide.toUInt8
  return (r, { z := r == 0, n := false, h := half > 0xF, c := wide > 0xFF })

def checkedSub8 (a n : UInt8) (borrow : Bool) : Option (UInt8 × Flags) := do
  let b := bitOf borrow
  let r := a - n - b
  let half ← sum (n &&& 0xF) b
  let wide ← sum n.toUInt16 b.toUInt16
  return (r, { z := r == 0, n := true, h := (a &&& 0xF) < half, c := a.toUInt16 < wide })

def checkedAdd16 (m n : UInt16) (f : Flags) : Option (UInt16 × Flags) := do
  let wide ← sum m.toUInt32 n.toUInt32
  let half ← sum (m &&& 0x0FFF) (n &&& 0x0FFF)
  return (wide.toUInt16, { z := f.z, n := false, h := half > 0x0FFF, c := wide > 0xFFFF })

def checkedAddSp (sp : UInt16) (e : UInt8) : Option (UInt16 × Flags) := do
  let half ← sum (lo sp &&& 0xF) (e &&& 0xF)
  let low ← sum (lo sp).toUInt16 e.toUInt16
  return (sp + signExtend e, { z := false, n := false, h := half > 0xF, c := low > 0xFF })

/-- The mask of bit `b`. -/
def checkedBitMask (b : UInt8) : Option UInt8 := shiftedLeft 1 b

def checkedBit (b n : UInt8) (f : Flags) : Option Flags := do
  return { z := n &&& (← checkedBitMask b) == 0, n := false, h := true, c := f.c }

def checkedBinary (op : AluOp) (a n : UInt8) (f : Flags) : Option (UInt8 × Flags) :=
  match op with
  | .add => checkedAdd8 a n false
  | .adc => checkedAdd8 a n f.c
  | .sub => checkedSub8 a n false
  | .sbc => checkedSub8 a n f.c
  | .and => some (and8 a n)
  | .xor => some (xor8 a n)
  | .or => some (or8 a n)
  | .cp => do return (a, (← checkedSub8 a n false).2)

theorem toNat_bitOf_le (c : Bool) : (bitOf c).toNat ≤ 1 := by cases c <;> decide

theorem toNat_nibble_lt (a : UInt8) : (a &&& 0xF).toNat < 16 := by
  rw [UInt8.toNat_and]
  exact Nat.and_lt_two_pow _ (n := 4) (by decide)

/-- Two nibbles stay within a byte. -/
theorem sum_nibbles (a n : UInt8) :
    sum (a &&& 0xF) (n &&& 0xF) = some ((a &&& 0xF) + (n &&& 0xF)) := by
  have ha := toNat_nibble_lt a
  have hn := toNat_nibble_lt n
  exact Unsigned.sum_eq (show (a &&& 0xF).toNat + (n &&& 0xF).toNat < 2 ^ 8 by omega)

/-- Two bytes stay within a word. -/
theorem sum_bytes (a n : UInt8) : sum a.toUInt16 n.toUInt16 = some (a.toUInt16 + n.toUInt16) := by
  have ha := a.toNat_lt
  have hn := n.toNat_lt
  exact Unsigned.sum_eq (show a.toNat + n.toNat < 2 ^ 16 by omega)

/-- The carry of the operation before does not make a difference. -/
theorem sum_nibbles_carry (a n : UInt8) (carry : Bool) :
    sum ((a &&& 0xF) + (n &&& 0xF)) (bitOf carry) =
      some ((a &&& 0xF) + (n &&& 0xF) + bitOf carry) := by
  have ha := toNat_nibble_lt a
  have hn := toNat_nibble_lt n
  have hc := toNat_bitOf_le carry
  refine Unsigned.sum_eq ?_
  show ((a &&& 0xF) + (n &&& 0xF)).toNat + (bitOf carry).toNat < 2 ^ 8
  rw [UInt8.toNat_add]
  omega

theorem sum_bytes_carry (a n : UInt8) (carry : Bool) :
    sum (a.toUInt16 + n.toUInt16) (bitOf carry).toUInt16 =
      some (a.toUInt16 + n.toUInt16 + (bitOf carry).toUInt16) := by
  have ha := a.toNat_lt
  have hn := n.toNat_lt
  have hc := toNat_bitOf_le carry
  refine Unsigned.sum_eq ?_
  show (a.toUInt16 + n.toUInt16).toNat + (bitOf carry).toNat < 2 ^ 16
  rw [UInt16.toNat_add, UInt8.toNat_toUInt16, UInt8.toNat_toUInt16]
  omega

@[simp] theorem checkedAdd8_eq (a n : UInt8) (carry : Bool) :
    checkedAdd8 a n carry = some (add8 a n carry) := by
  have hlow : (a.toUInt16 + n.toUInt16 + (bitOf carry).toUInt16).toUInt8 = a + n + bitOf carry := by
    simp
  simp only [checkedAdd8, sum_bytes, sum_nibbles, Option.bind_eq_bind, Option.bind_some,
    sum_bytes_carry, sum_nibbles_carry, hlow]
  rfl

@[simp] theorem checkedSub8_eq (a n : UInt8) (borrow : Bool) :
    checkedSub8 a n borrow = some (sub8 a n borrow) := by
  have hb := toNat_bitOf_le borrow
  have hhalf : sum (n &&& 0xF) (bitOf borrow) = some ((n &&& 0xF) + bitOf borrow) := by
    have hn := toNat_nibble_lt n
    exact Unsigned.sum_eq (show (n &&& 0xF).toNat + (bitOf borrow).toNat < 2 ^ 8 by omega)
  rw [checkedSub8]
  simp only [hhalf, sum_bytes]
  rfl

@[simp] theorem checkedAdd16_eq (m n : UInt16) (f : Flags) :
    checkedAdd16 m n f = some (add16 m n f) := by
  have hwide : sum m.toUInt32 n.toUInt32 = some (m.toUInt32 + n.toUInt32) := by
    have hm := m.toNat_lt
    have hn := n.toNat_lt
    exact Unsigned.sum_eq (show m.toNat + n.toNat < 2 ^ 32 by omega)
  have hhalf : sum (m &&& 0x0FFF) (n &&& 0x0FFF) = some ((m &&& 0x0FFF) + (n &&& 0x0FFF)) := by
    have hlt (w : UInt16) : (w &&& 0x0FFF).toNat < 2 ^ 12 := by
      rw [UInt16.toNat_and]
      exact Nat.and_lt_two_pow _ (by decide)
    have hm := hlt m
    have hn := hlt n
    exact Unsigned.sum_eq (show (m &&& 0x0FFF).toNat + (n &&& 0x0FFF).toNat < 2 ^ 16 by omega)
  have hlow : (m.toUInt32 + n.toUInt32).toUInt16 = m + n := by simp
  simp only [checkedAdd16, hwide, hhalf, Option.bind_eq_bind, Option.bind_some, hlow]
  rfl

@[simp] theorem checkedAddSp_eq (sp : UInt16) (e : UInt8) :
    checkedAddSp sp e = some (addSp sp e) := by
  rw [checkedAddSp, sum_nibbles, sum_bytes]
  rfl

theorem checkedBitMask_eq (h : b < 8) : checkedBitMask b = some (1 <<< b) :=
  if_pos (UInt8.lt_iff_toNat_lt.1 h)

theorem checkedBit_eq (h : b < 8) (f : Flags) : checkedBit b n f = some (bit b n f) := by
  rw [checkedBit, checkedBitMask_eq h]
  rfl

@[simp] theorem checkedBinary_eq (op : AluOp) (a n : UInt8) (f : Flags) :
    checkedBinary op a n f = some (binary op a n f) := by
  cases op with
  | cp =>
    rw [checkedBinary, checkedSub8_eq]
    rfl
  | _ => simp only [checkedBinary, checkedAdd8_eq, checkedSub8_eq, binary]

end Alu

/-! ### Interrupt lines -/

namespace Line

def checkedMask (l : Line) : Option UInt8 := shiftedLeft 1 l.index

def checkedVector (l : Line) : Option UInt16 := do
  sum 0x40 (← product 8 l.index.toUInt16)

def checkedHighest? (bits : UInt8) : Option (Option Line) :=
  all.findM? fun l => do return bits &&& (← l.checkedMask) != 0

@[simp] theorem checkedMask_eq (l : Line) : l.checkedMask = some l.mask := by cases l <;> rfl

@[simp] theorem checkedVector_eq (l : Line) : l.checkedVector = some l.vector := by cases l <;> rfl

@[simp] theorem checkedHighest?_eq (bits : UInt8) :
    checkedHighest? bits = some (highest? bits) := by
  simp only [checkedHighest?, checkedMask_eq]
  exact List.findM?_pure _ _

end Line

namespace Interrupts

def checkedRequest (i : Interrupts) (l : Line) : Option Interrupts := do
  return { i with pending := i.pending ||| (← l.checkedMask) }

def checkedClear (i : Interrupts) (l : Line) : Option Interrupts := do
  return { i with pending := i.pending &&& ~~~(← l.checkedMask) }

@[simp] theorem checkedRequest_eq (i : Interrupts) (l : Line) :
    i.checkedRequest l = some (i.request l) := by
  rw [checkedRequest, Line.checkedMask_eq]
  rfl

@[simp] theorem checkedClear_eq (i : Interrupts) (l : Line) :
    i.checkedClear l = some (i.clear l) := by
  rw [checkedClear, Line.checkedMask_eq]
  rfl

end Interrupts

/-! ### The timer -/

namespace Timer

def checkedSignal (t : Timer) : Option Bool := do
  let watched ← shiftedRight t.counter (watchedBit t.tac)
  return t.tac &&& 4 != 0 && watched &&& 1 == 1

def checkedCountEdge (before : Bool) (t : Timer) : Option (Timer × Bool) := do
  if before && !(← t.checkedSignal) then
    if t.tima = 0xFF then return ({ t with tima := t.tma }, true)
    else return ({ t with tima := t.tima + 1 }, false)
  else return (t, false)

def checkedWrite (t : Timer) (a : UInt16) (v : UInt8) : Option Timer := do
  let before ← t.checkedSignal
  match t.store? a v with
  | none => return t
  | some stored =>
    let (counted, overflow) ← checkedCountEdge before stored
    return { counted with overflowed := t.overflowed || overflow }

def checkedTick (t : Timer) : Option (Timer × Bool) := do
  let before ← t.checkedSignal
  let (counted, overflow) ← checkedCountEdge before { t with counter := t.counter + 4 }
  return ({ counted with overflowed := false }, overflow || t.overflowed)

@[simp] theorem checkedSignal_eq (t : Timer) : t.checkedSignal = some t.signal := by
  have hwatched : shiftedRight t.counter (watchedBit t.tac) =
      some (t.counter >>> watchedBit t.tac) := by
    refine if_pos (show (watchedBit t.tac).toNat < 16 from ?_)
    unfold watchedBit
    split_ifs <;> decide
  rw [checkedSignal, hwatched]
  rfl

@[simp] theorem checkedCountEdge_eq (before : Bool) (t : Timer) :
    checkedCountEdge before t = some (countEdge before t) := by
  rw [checkedCountEdge, checkedSignal_eq, countEdge]
  show (if _ then _ else _) = _
  split_ifs <;> rfl

@[simp] theorem checkedWrite_eq (t : Timer) (a : UInt16) (v : UInt8) :
    t.checkedWrite a v = some (t.write a v) := by
  rw [checkedWrite, checkedSignal_eq, write]
  cases t.store? a v with
  | none => rfl
  | some stored =>
    simp only [checkedCountEdge_eq]
    rfl

@[simp] theorem checkedTick_eq (t : Timer) : t.checkedTick = some t.tick := by
  rw [checkedTick, checkedSignal_eq]
  simp only [checkedCountEdge_eq]
  rfl

end Timer

end Dmg
