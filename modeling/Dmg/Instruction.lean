import Dmg.Registers

/-! # Instructions

What an instruction does (`Op`) and how it is encoded and timed (`Instruction`). An operand is named
symbolically; the registers and immediate bytes that give it a place and a value are looked up when
the instruction executes. -/

namespace Dmg

inductive Condition where
  | nz | z | nc | c
deriving DecidableEq

/-- The ways to address a byte of memory. `hlInc` and `hlDec` step HL once the address is taken;
`high` and `highC` are offsets into the page at `0xFF00`; `direct` is an immediate word. -/
inductive Mode where
  | bc | de | hl | hlInc | hlDec | high | highC | direct
deriving DecidableEq

inductive Operand where
  | reg (r : Reg)
  | mem (m : Mode)
  | imm
deriving DecidableEq

/-- Whether using the operand takes a memory access of its own. -/
def Operand.isMem : Operand → Bool
  | .mem _ => true
  | _ => false

/-- What the accumulator does with an 8-bit operand, in the order of the encoding. -/
inductive AluOp where
  | add | adc | sub | sbc | and | xor | or | cp
deriving DecidableEq

inductive Shift where
  | rlc | rrc | rl | rr | sla | sra | swap | srl
deriving DecidableEq

/-- What an instruction does. `loadPair` takes an immediate word and `storeSp` an immediate address;
`loadHlSp` and `addSp` add a signed displacement to SP. `rotateA` stands for the short forms on A,
which leave Z clear. -/
inductive Op where
  | nop | stop | halt | di | ei | daa | cpl | scf | ccf
  | load (dst src : Operand)
  | loadPair (p : Pair)
  | storeSp
  | loadSpHl
  | loadHlSp
  | addSp
  | push (p : StackPair)
  | pop (p : StackPair)
  | alu (op : AluOp) (src : Operand)
  | inc (target : Operand)
  | dec (target : Operand)
  | incPair (p : Pair)
  | decPair (p : Pair)
  | addHl (p : Pair)
  | rotateA (s : Shift)
  | shift (s : Shift) (target : Operand)
  | bit (b : UInt8) (target : Operand)
  | res (b : UInt8) (target : Operand)
  | set (b : UInt8) (target : Operand)
  | jp (c : Option Condition)
  | jpHl
  | jr (c : Option Condition)
  | call (c : Option Condition)
  | ret (c : Option Condition)
  | reti
  | rst (vector : UInt16)
deriving DecidableEq

/-- An operation with its encoding and cost. The opcode is the last byte that tells the operation,
behind `0xCB` if it is `prefixed`; `size` counts all bytes. A conditional branch that is taken costs
`penalty` more than `cycles`. -/
structure Instruction where
  op : Op
  encoding : UInt8
  prefixed : Bool
  size : UInt8
  cycles : UInt8
  penalty : UInt8
deriving DecidableEq

end Dmg
