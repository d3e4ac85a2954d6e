import Dmg.Instruction

/-! # Decoding

An encoding is read as the bit fields `xx yyy zzz`. `Instruction.decode?` has no answer for the
prefix byte `0xCB` and for the eleven opcodes the processor does not have; `Instruction.decodeCb`
answers for every byte. -/

namespace Dmg

/-- The byte that announces a second opcode byte. -/
def prefixByte : UInt8 := 0xCB

/-! ### Operand fields

Fields have two bits or three. -/

def Operand.ofField : Nat → Operand
  | 0 => .reg .b
  | 1 => .reg .c
  | 2 => .reg .d
  | 3 => .reg .e
  | 4 => .reg .h
  | 5 => .reg .l
  | 6 => .mem .hl
  | _ => .reg .a

def Pair.ofField : Nat → Pair
  | 0 => .bc
  | 1 => .de
  | 2 => .hl
  | _ => .sp

def StackPair.ofField : Nat → StackPair
  | 0 => .bc
  | 1 => .de
  | 2 => .hl
  | _ => .af

def Condition.ofField : Nat → Condition
  | 0 => .nz
  | 1 => .z
  | 2 => .nc
  | _ => .c

def AluOp.ofField : Nat → AluOp
  | 0 => .add
  | 1 => .adc
  | 2 => .sub
  | 3 => .sbc
  | 4 => .and
  | 5 => .xor
  | 6 => .or
  | _ => .cp

def Shift.ofField : Nat → Shift
  | 0 => .rlc
  | 1 => .rrc
  | 2 => .rl
  | 3 => .rr
  | 4 => .sla
  | 5 => .sra
  | 6 => .swap
  | _ => .srl

/-- The memory operand of the one-byte loads of A through a pair, from a two-bit field. -/
def Mode.ofField : Nat → Mode
  | 0 => .bc
  | 1 => .de
  | 2 => .hlInc
  | _ => .hlDec

/-! ### Instructions -/

namespace Instruction

/-- An unprefixed instruction whose cost grows by `penalty` when it branches. -/
def branching (encoding : UInt8) (op : Op) (size cycles penalty : UInt8) : Option Instruction :=
  some { op, encoding, prefixed := false, size, cycles, penalty }

/-- An unprefixed instruction of fixed cost. -/
def plain (encoding : UInt8) (op : Op) (size cycles : UInt8) : Option Instruction :=
  branching encoding op size cycles 0

/-- Encodings below `0x40`: immediates, pairs, relative jumps, accumulator adjustments. -/
def lowQuarter (e : UInt8) (y z : Nat) : Option Instruction :=
  match z, y with
  | 0, 0 => plain e .nop 1 1
  | 0, 1 => plain e .storeSp 3 5
  | 0, 2 => plain e .stop 2 1
  | 0, 3 => plain e (.jr none) 2 3
  | 0, y => branching e (.jr (some (.ofField (y % 4)))) 2 2 1
  | 1, y => if y % 2 = 0 then plain e (.loadPair (.ofField (y / 2))) 3 3
    else plain e (.addHl (.ofField (y / 2))) 1 2
  | 2, y => if y % 2 = 0 then plain e (.load (.mem (.ofField (y / 2))) (.reg .a)) 1 2
    else plain e (.load (.reg .a) (.mem (.ofField (y / 2)))) 1 2
  | 3, y => if y % 2 = 0 then plain e (.incPair (.ofField (y / 2))) 1 2
    else plain e (.decPair (.ofField (y / 2))) 1 2
  | 4, y => let t := Operand.ofField y; plain e (.inc t) 1 (if t.isMem then 3 else 1)
  | 5, y => let t := Operand.ofField y; plain e (.dec t) 1 (if t.isMem then 3 else 1)
  | 6, y => let t := Operand.ofField y; plain e (.load t .imm) 2 (if t.isMem then 3 else 2)
  | _, 0 => plain e (.rotateA .rlc) 1 1
  | _, 1 => plain e (.rotateA .rrc) 1 1
  | _, 2 => plain e (.rotateA .rl) 1 1
  | _, 3 => plain e (.rotateA .rr) 1 1
  | _, 4 => plain e .daa 1 1
  | _, 5 => plain e .cpl 1 1
  | _, 6 => plain e .scf 1 1
  | _, _ => plain e .ccf 1 1

/-- Encodings from `0x40`: loads between operands, with HALT where both would be memory. -/
def loadQuarter (e : UInt8) (y z : Nat) : Option Instruction :=
  if y = 6 ∧ z = 6 then plain e .halt 1 1
  else
    let dst := Operand.ofField y
    let src := Operand.ofField z
    plain e (.load dst src) 1 (if dst.isMem || src.isMem then 2 else 1)

/-- Encodings from `0x80`: accumulator operations on an operand. -/
def aluQuarter (e : UInt8) (y z : Nat) : Option Instruction :=
  let src := Operand.ofField z
  plain e (.alu (.ofField y) src) 1 (if src.isMem then 2 else 1)

/-- Encodings from `0xC0`: the stack, absolute jumps, the high page, and the holes. -/
def highQuarter (e : UInt8) (y z : Nat) : Option Instruction :=
  match z, y with
  | 0, 4 => plain e (.load (.mem .high) (.reg .a)) 2 3
  | 0, 5 => plain e .addSp 2 4
  | 0, 6 => plain e (.load (.reg .a) (.mem .high)) 2 3
  | 0, 7 => plain e .loadHlSp 2 3
  | 0, y => branching e (.ret (some (.ofField y))) 1 2 3
  | 1, 1 => plain e (.ret none) 1 4
  | 1, 3 => plain e .reti 1 4
  | 1, 5 => plain e .jpHl 1 1
  | 1, 7 => plain e .loadSpHl 1 2
  | 1, y => plain e (.pop (.ofField (y / 2))) 1 3
  | 2, 4 => plain e (.load (.mem .highC) (.reg .a)) 1 2
  | 2, 5 => plain e (.load (.mem .direct) (.reg .a)) 3 4
  | 2, 6 => plain e (.load (.reg .a) (.mem .highC)) 1 2
  | 2, 7 => plain e (.load (.reg .a) (.mem .direct)) 3 4
  | 2, y => branching e (.jp (some (.ofField y))) 3 3 1
  | 3, 0 => plain e (.jp none) 3 4
  | 3, 6 => plain e .di 1 1
  | 3, 7 => plain e .ei 1 1
  | 3, _ => none
  | 4, y => if y < 4 then branching e (.call (some (.ofField y))) 3 3 3 else none
  | 5, 1 => plain e (.call none) 3 6
  | 5, y => if y % 2 = 0 then plain e (.push (.ofField (y / 2))) 1 4 else none
  | 6, y => plain e (.alu (.ofField y) .imm) 2 2
  | _, y => plain e (.rst (8 * y.toUInt16)) 1 4

/-- The instruction an opcode stands for. -/
def decode? (encoding : UInt8) : Option Instruction :=
  let y := encoding.toNat / 8 % 8
  let z := encoding.toNat % 8
  match encoding.toNat / 64 with
  | 0 => lowQuarter encoding y z
  | 1 => loadQuarter encoding y z
  | 2 => aluQuarter encoding y z
  | _ => highQuarter encoding y z

/-- The instruction a byte stands for after the prefix byte. -/
def decodeCb (encoding : UInt8) : Instruction :=
  let y := encoding.toNat / 8 % 8
  let target := Operand.ofField (encoding.toNat % 8)
  let withCost (op : Op) (memCycles : UInt8) : Instruction :=
    { op, encoding, prefixed := true, size := 2, cycles := if target.isMem then memCycles else 2,
      penalty := 0 }
  match encoding.toNat / 64 with
  | 0 => withCost (.shift (.ofField y) target) 4
  | 1 => withCost (.bit y.toUInt8 target) 3
  | 2 => withCost (.res y.toUInt8 target) 4
  | _ => withCost (.set y.toUInt8 target) 4

end Instruction

end Dmg
