import Dmg.Hex
import Dmg.Instruction

/-! # Mnemonics

The assembler text of operations: operands separated by a comma, memory in brackets, immediates
written `n8`, `n16`, and `e8` where they are signed. The text determines the operation. -/

namespace Dmg

def Reg.name : Reg → String
  | .b => "B"
  | .c => "C"
  | .d => "D"
  | .e => "E"
  | .h => "H"
  | .l => "L"
  | .a => "A"

def Pair.name : Pair → String
  | .bc => "BC"
  | .de => "DE"
  | .hl => "HL"
  | .sp => "SP"

def StackPair.name : StackPair → String
  | .bc => "BC"
  | .de => "DE"
  | .hl => "HL"
  | .af => "AF"

def Condition.name : Condition → String
  | .nz => "NZ"
  | .z => "Z"
  | .nc => "NC"
  | .c => "C"

def AluOp.name : AluOp → String
  | .add => "ADD"
  | .adc => "ADC"
  | .sub => "SUB"
  | .sbc => "SBC"
  | .and => "AND"
  | .xor => "XOR"
  | .or => "OR"
  | .cp => "CP"

def Shift.name : Shift → String
  | .rlc => "RLC"
  | .rrc => "RRC"
  | .rl => "RL"
  | .rr => "RR"
  | .sla => "SLA"
  | .sra => "SRA"
  | .swap => "SWAP"
  | .srl => "SRL"

def Mode.text : Mode → String
  | .bc => "[BC]"
  | .de => "[DE]"
  | .hl => "[HL]"
  | .hlInc => "[HL+]"
  | .hlDec => "[HL-]"
  | .high => "[n8]"
  | .highC => "[C]"
  | .direct => "[n16]"

def Operand.text : Operand → String
  | .reg r => r.name
  | .mem m => m.text
  | .imm => "n8"

/-- A branch target with the condition in front of it, if there is one. -/
def branchText (target : String) : Option Condition → String
  | some cond => cond.name ++ "," ++ target
  | none => target

/-- The name of a load; the high page addressed by an immediate has one of its own. -/
def loadName (dst src : Operand) : String :=
  if dst = .mem .high ∨ src = .mem .high then "LDH " else "LD "

def Op.mnemonic : Op → String
  | .nop => "NOP"
  | .stop => "STOP"
  | .halt => "HALT"
  | .di => "DI"
  | .ei => "EI"
  | .daa => "DAA"
  | .cpl => "CPL"
  | .scf => "SCF"
  | .ccf => "CCF"
  | .load dst src => loadName dst src ++ dst.text ++ "," ++ src.text
  | .loadPair p => "LD " ++ p.name ++ ",n16"
  | .storeSp => "LD [n16],SP"
  | .loadSpHl => "LD SP,HL"
  | .loadHlSp => "LD HL,SP+e8"
  | .addSp => "ADD SP,e8"
  | .push p => "PUSH " ++ p.name
  | .pop p => "POP " ++ p.name
  | .alu op src => op.name ++ " A," ++ src.text
  | .inc t => "INC " ++ t.text
  | .dec t => "DEC " ++ t.text
  | .incPair p => "INC " ++ p.name
  | .decPair p => "DEC " ++ p.name
  | .addHl p => "ADD HL," ++ p.name
  | .rotateA s => s.name ++ "A"
  | .shift s t => s.name ++ " " ++ t.text
  | .bit b t => "BIT " ++ toString b.toNat ++ "," ++ t.text
  | .res b t => "RES " ++ toString b.toNat ++ "," ++ t.text
  | .set b t => "SET " ++ toString b.toNat ++ "," ++ t.text
  | .jp cond => "JP " ++ branchText "n16" cond
  | .jpHl => "JP HL"
  | .jr cond => "JR " ++ branchText "e8" cond
  | .call cond => "CALL " ++ branchText "n16" cond
  | .ret (some cond) => "RET " ++ cond.name
  | .ret none => "RET"
  | .reti => "RETI"
  | .rst vector => "RST 0x" ++ hex 2 vector.toNat

end Dmg
