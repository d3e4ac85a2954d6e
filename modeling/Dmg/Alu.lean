import Dmg.Instruction

/-! # Arithmetic and logic

The result and the new flags of every operation the processor computes. The half carry is the carry
out of bit 3 (of bit 11 for pairs); both carries of a subtraction are borrows. -/

namespace Dmg.Alu

/-- `0` or `1`. -/
def bitOf (b : Bool) : UInt8 := if b then 1 else 0

/-- `a + n`, plus one if `carry`. -/
def add8 (a n : UInt8) (carry : Bool) : UInt8 × Flags :=
  let c := bitOf carry
  let r := a + n + c
  (r, { z := r == 0, n := false,
        h := (a &&& 0xF) + (n &&& 0xF) + c > 0xF,
        c := a.toUInt16 + n.toUInt16 + c.toUInt16 > 0xFF })

/-- `a - n`, less one if `borrow`. -/
def sub8 (a n : UInt8) (borrow : Bool) : UInt8 × Flags :=
  let b := bitOf borrow
  let r := a - n - b
  (r, { z := r == 0, n := true,
        h := (a &&& 0xF) < (n &&& 0xF) + b,
        c := a.toUInt16 < n.toUInt16 + b.toUInt16 })

def and8 (a n : UInt8) : UInt8 × Flags :=
  let r := a &&& n
  (r, { z := r == 0, n := false, h := true, c := false })

def or8 (a n : UInt8) : UInt8 × Flags :=
  let r := a ||| n
  (r, { z := r == 0, n := false, h := false, c := false })

def xor8 (a n : UInt8) : UInt8 × Flags :=
  let r := a ^^^ n
  (r, { z := r == 0, n := false, h := false, c := false })

/-- `n + 1`; the carry is kept. -/
def inc8 (n : UInt8) (f : Flags) : UInt8 × Flags :=
  let r := n + 1
  (r, { z := r == 0, n := false, h := n &&& 0xF == 0xF, c := f.c })

/-- `n - 1`; the carry is kept. -/
def dec8 (n : UInt8) (f : Flags) : UInt8 × Flags :=
  let r := n - 1
  (r, { z := r == 0, n := true, h := n &&& 0xF == 0, c := f.c })

/-- The sum of two pairs; Z is kept, the carries are those of the high bytes. -/
def add16 (m n : UInt16) (f : Flags) : UInt16 × Flags :=
  (m + n, { z := f.z, n := false,
            h := (m &&& 0x0FFF) + (n &&& 0x0FFF) > 0x0FFF,
            c := m.toUInt32 + n.toUInt32 > 0xFFFF })

/-- The stack pointer displaced by a signed byte; the carries are those of adding that byte,
unsigned, to the low byte. -/
def addSp (sp : UInt16) (e : UInt8) : UInt16 × Flags :=
  (sp + signExtend e, { z := false, n := false,
                        h := (lo sp &&& 0xF) + (e &&& 0xF) > 0xF,
                        c := (lo sp).toUInt16 + e.toUInt16 > 0xFF })

/-- A rotate or shift; the bit moved out becomes the carry. -/
def shift (s : Shift) (n : UInt8) (carry : Bool) : UInt8 × Flags :=
  let top := n >>> 7
  let bottom := n &&& 1
  let (r, out) : UInt8 × UInt8 := match s with
    | .rlc => ((n <<< 1) ||| top, top)
    | .rrc => ((n >>> 1) ||| (bottom <<< 7), bottom)
    | .rl => ((n <<< 1) ||| bitOf carry, top)
    | .rr => ((n >>> 1) ||| (bitOf carry <<< 7), bottom)
    | .sla => (n <<< 1, top)
    | .sra => ((n >>> 1) ||| (n &&& 0x80), bottom)
    | .swap => ((n <<< 4) ||| (n >>> 4), 0)
    | .srl => (n >>> 1, bottom)
  (r, { z := r == 0, n := false, h := false, c := out == 1 })

/-- The flags of testing bit `b` of `n`. -/
def bit (b n : UInt8) (f : Flags) : Flags :=
  { z := n &&& (1 <<< b) == 0, n := false, h := true, c := f.c }

/-- Bring `a`, the result of adding or subtracting packed decimals, back to packed decimal. -/
def daa (a : UInt8) (f : Flags) : UInt8 × Flags :=
  let low := f.h || (!f.n && a &&& 0xF > 9)
  let high := f.c || (!f.n && a > 0x99)
  let adjust := (if low then 0x06 else 0) + (if high then 0x60 else 0)
  let r := if f.n then a - adjust else a + adjust
  (r, { z := r == 0, n := f.n, h := false, c := high })

/-- An accumulator operation on `a` and `n`. -/
def binary (op : AluOp) (a n : UInt8) (f : Flags) : UInt8 × Flags :=
  match op with
  | .add => add8 a n false
  | .adc => add8 a n f.c
  | .sub => sub8 a n false
  | .sbc => sub8 a n f.c
  | .and => and8 a n
  | .xor => xor8 a n
  | .or => or8 a n
  | .cp => (a, (sub8 a n false).2)

end Dmg.Alu
