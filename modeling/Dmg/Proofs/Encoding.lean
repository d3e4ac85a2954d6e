import Dmg.Proofs.Works
import Mathlib.Data.Fintype.Option

/-! # Encodings

The opcode of each operation, as an assembler's table gives it (`Op.opcode?`, and `Op.opcodeCb?`
for the byte after the prefix byte). An operand, a pair or a condition is a field of its opcode, but
A is loaded through memory by opcodes of their own. Decoding is the inverse: the processor takes the
instruction at the program counter for `op` if and only if an opcode of `op` stands there
(`Cpu.fetch_op_iff`). -/

namespace Dmg

/-! ### Fields -/

instance : Fintype Reg := .ofList [.b, .c, .d, .e, .h, .l, .a] fun r => by cases r <;> decide

instance : Fintype Operand :=
  .ofList [.reg .b, .reg .c, .reg .d, .reg .e, .reg .h, .reg .l, .reg .a, .mem .bc, .mem .de,
    .mem .hl, .mem .hlInc, .mem .hlDec, .mem .high, .mem .highC, .mem .direct, .imm] fun o =>
    match o with
    | .reg r => by cases r <;> decide
    | .mem m => by cases m <;> decide
    | .imm => by decide

instance : Fintype AluOp :=
  .ofList [.add, .adc, .sub, .sbc, .and, .xor, .or, .cp] fun op => by cases op <;> decide

instance : Fintype Shift :=
  .ofList [.rlc, .rrc, .rl, .rr, .sla, .sra, .swap, .srl] fun s => by cases s <;> decide

instance : Fintype Pair := .ofList [.bc, .de, .hl, .sp] fun p => by cases p <;> decide

instance : Fintype StackPair := .ofList [.bc, .de, .hl, .af] fun p => by cases p <;> decide

instance : Fintype Condition :=
  .ofList [.nz, .z, .nc, .c] fun cond => by cases cond <;> decide

def Reg.field : Reg → UInt8
  | .b => 0
  | .c => 1
  | .d => 2
  | .e => 3
  | .h => 4
  | .l => 5
  | .a => 7

/-- The field of a register, or of memory at HL. -/
def Operand.field? : Operand → Option UInt8
  | .reg r => some r.field
  | .mem .hl => some 6
  | _ => none

def AluOp.field : AluOp → UInt8
  | .add => 0
  | .adc => 1
  | .sub => 2
  | .sbc => 3
  | .and => 4
  | .xor => 5
  | .or => 6
  | .cp => 7

def Shift.field : Shift → UInt8
  | .rlc => 0
  | .rrc => 1
  | .rl => 2
  | .rr => 3
  | .sla => 4
  | .sra => 5
  | .swap => 6
  | .srl => 7

def Pair.field : Pair → UInt8
  | .bc => 0
  | .de => 1
  | .hl => 2
  | .sp => 3

def StackPair.field : StackPair → UInt8
  | .bc => 0
  | .de => 1
  | .hl => 2
  | .af => 3

def Condition.field : Condition → UInt8
  | .nz => 0
  | .z => 1
  | .nc => 2
  | .c => 3

/-- The immediate bytes that an operand takes. -/
def Operand.immediateSize : Operand → UInt16
  | .imm | .mem .high => 1
  | .mem .direct => 2
  | _ => 0

/-! ### Opcodes -/

/-- The opcode of an 8-bit load. -/
def loadOpcode? : Operand → Operand → Option UInt8
  | .mem .bc, .reg .a => some 0x02
  | .mem .de, .reg .a => some 0x12
  | .mem .hlInc, .reg .a => some 0x22
  | .mem .hlDec, .reg .a => some 0x32
  | .reg .a, .mem .bc => some 0x0A
  | .reg .a, .mem .de => some 0x1A
  | .reg .a, .mem .hlInc => some 0x2A
  | .reg .a, .mem .hlDec => some 0x3A
  | .mem .high, .reg .a => some 0xE0
  | .mem .highC, .reg .a => some 0xE2
  | .mem .direct, .reg .a => some 0xEA
  | .reg .a, .mem .high => some 0xF0
  | .reg .a, .mem .highC => some 0xF2
  | .reg .a, .mem .direct => some 0xFA
  | .mem .hl, .mem .hl => none
  | dst, .imm => return 0x06 + 8 * (← dst.field?)
  | dst, src => return 0x40 + 8 * (← dst.field?) + (← src.field?)

namespace Op

/-- The opcode of an operation. -/
def opcode? : Op → Option UInt8
  | .nop => some 0x00
  | .stop => some 0x10
  | .halt => some 0x76
  | .di => some 0xF3
  | .ei => some 0xFB
  | .daa => some 0x27
  | .cpl => some 0x2F
  | .scf => some 0x37
  | .ccf => some 0x3F
  | .load dst src => loadOpcode? dst src
  | .loadPair p => some (0x01 + 16 * p.field)
  | .storeSp => some 0x08
  | .loadSpHl => some 0xF9
  | .loadHlSp => some 0xF8
  | .addSp => some 0xE8
  | .push p => some (0xC5 + 16 * p.field)
  | .pop p => some (0xC1 + 16 * p.field)
  | .alu op .imm => some (0xC6 + 8 * op.field)
  | .alu op src => return 0x80 + 8 * op.field + (← src.field?)
  | .inc t => return 0x04 + 8 * (← t.field?)
  | .dec t => return 0x05 + 8 * (← t.field?)
  | .incPair p => some (0x03 + 16 * p.field)
  | .decPair p => some (0x0B + 16 * p.field)
  | .addHl p => some (0x09 + 16 * p.field)
  | .rotateA .rlc => some 0x07
  | .rotateA .rrc => some 0x0F
  | .rotateA .rl => some 0x17
  | .rotateA .rr => some 0x1F
  | .jp none => some 0xC3
  | .jp (some cond) => some (0xC2 + 8 * cond.field)
  | .jpHl => some 0xE9
  | .jr none => some 0x18
  | .jr (some cond) => some (0x20 + 8 * cond.field)
  | .call none => some 0xCD
  | .call (some cond) => some (0xC4 + 8 * cond.field)
  | .ret none => some 0xC9
  | .ret (some cond) => some (0xC0 + 8 * cond.field)
  | .reti => some 0xD9
  | .rst v => if v ≤ 0x38 ∧ v % 8 = 0 then some (0xC7 + v.toUInt8) else none
  | _ => none

/-- The byte after the prefix byte, for the operations that take it. -/
def opcodeCb? : Op → Option UInt8
  | .shift s t => return 8 * s.field + (← t.field?)
  | .bit b t => if b < 8 then return 0x40 + 8 * b + (← t.field?) else none
  | .res b t => if b < 8 then return 0x80 + 8 * b + (← t.field?) else none
  | .set b t => if b < 8 then return 0xC0 + 8 * b + (← t.field?) else none
  | _ => none

/-- The bytes that an instruction with the operation takes: its opcode, the prefix byte and the
immediates, and the byte that STOP leaves out. -/
def size : Op → UInt16
  | .load dst src => 1 + dst.immediateSize + src.immediateSize
  | .alu _ src => 1 + src.immediateSize
  | .loadPair _ | .storeSp | .jp _ | .call _ => 3
  | .stop | .loadHlSp | .addSp | .jr _ | .shift .. | .bit .. | .res .. | .set .. => 2
  | _ => 1

/-- An opcode of the operation stands at `a`. -/
def StandsAt (op : Op) (mem : View) (a : UInt16) : Prop :=
  op.opcode? = some (mem a) ∨ mem a = 0xCB ∧ op.opcodeCb? = some (mem (a + 1))

end Op

/-! ### Decoding -/

namespace Instruction
variable {op : Op} {b : UInt8}

theorem opcode?_of_decode? {i : Instruction} (h : decode? b = some i) : i.op.opcode? = some b := by
  have key : ∀ n : Fin 256, ∀ i ∈ decode? (.ofNat n), i.op.opcode? = some (.ofNat n) := by
    decide +kernel
  simpa using key ⟨b.toNat, b.toNat_lt⟩ i (by simpa using h)

theorem opcodeCb?_decodeCb (b : UInt8) : (decodeCb b).op.opcodeCb? = some b := by
  have key : ∀ n : Fin 256, (decodeCb (.ofNat n)).op.opcodeCb? = some (.ofNat n) := by
    decide +kernel
  simpa using key ⟨b.toNat, b.toNat_lt⟩

theorem Listed.size_eq {i : Instruction} (h : i.Listed) : i.size.toUInt16 = i.op.size :=
  h.of_tables (fun i => i.size.toUInt16 = i.op.size) (by decide +kernel) (by decide +kernel)

/-- What the opcode of the operation decodes to has the operation. -/
def Decodes (op : Op) : Prop := ∀ b ∈ op.opcode?, ∃ i ∈ decode? b, i.op = op

def DecodesCb (op : Op) : Prop := ∀ b ∈ op.opcodeCb?, (decodeCb b).op = op

-- Named, lest the search find the instance that goes through all bytes.
instance (op : Op) : Decidable (Decodes op) :=
  (Option.decidableForallMem op.opcode? :
    Decidable (∀ b ∈ op.opcode?, ∃ i ∈ decode? b, i.op = op))

instance (op : Op) : Decidable (DecodesCb op) :=
  (Option.decidableForallMem op.opcodeCb? : Decidable (∀ b ∈ op.opcodeCb?, (decodeCb b).op = op))

theorem decodes_rst (v : UInt16) : Decodes (.rst v) := by
  have key : ∀ n : Fin 64, Decodes (.rst (.ofNat n)) := by decide +kernel
  intro b hb
  have hv : v ≤ 0x38 ∧ v % 8 = 0 := by
    by_contra hv
    have hnone : Op.opcode? (.rst v) = none := if_neg hv
    rw [hnone] at hb
    cases hb
  have hlt : v.toNat < 64 := Nat.lt_of_le_of_lt (UInt16.le_iff_toNat_le.1 hv.1) (by decide)
  exact (by simpa using key ⟨v.toNat, hlt⟩ : Decodes (.rst v)) b hb

/-- The operands of an operation are few enough to look at each opcode. -/
theorem decodes (op : Op) : Decodes op := by
  cases op with
  | load dst src => revert dst src; decide +kernel
  | alu op src => revert op src; decide +kernel
  | inc t | dec t => revert t; decide +kernel
  | loadPair p | incPair p | decPair p | addHl p | push p | pop p => revert p; decide +kernel
  | rotateA s => revert s; decide +kernel
  | jp cond | jr cond | call cond | ret cond => revert cond; decide +kernel
  | rst v => exact decodes_rst v
  | shift | bit | res | set => nofun
  | _ => decide +kernel

/-- The numbers of bits are those of a byte. -/
theorem decodesCb_bits (f : UInt8 → Operand → Op) (hf : ∀ b t, ¬ b < 8 → (f b t).opcodeCb? = none)
    (key : ∀ (n : Fin 8) (t : Operand), DecodesCb (f (.ofNat n) t)) (b : UInt8) (t : Operand) :
    DecodesCb (f b t) := by
  by_cases hb : b < 8
  · simpa using key ⟨b.toNat, UInt8.lt_iff_toNat_lt.1 hb⟩ t
  · intro c hc
    rw [hf b t hb] at hc
    cases hc

theorem decodesCb (op : Op) : DecodesCb op := by
  cases op with
  | shift s t => revert s t; decide +kernel
  | bit b t => exact decodesCb_bits .bit (fun _ _ h => if_neg h) (by decide +kernel) b t
  | res b t => exact decodesCb_bits .res (fun _ _ h => if_neg h) (by decide +kernel) b t
  | set b t => exact decodesCb_bits .set (fun _ _ h => if_neg h) (by decide +kernel) b t
  | _ => nofun

end Instruction

/-- The processor finds an operation at the program counter if and only if its opcode stands
there. -/
theorem Cpu.fetch_op_iff {cpu : Cpu} {mem : View} {op : Op} :
    (∃ i, cpu.fetch mem = .ok i ∧ i.op = op) ↔ op.StandsAt mem cpu.regs.pc := by
  constructor
  · rintro ⟨i, hi, rfl⟩
    unfold fetch at hi
    dsimp only at hi
    split at hi
    · next hp =>
      cases hi
      exact .inr ⟨hp, Instruction.opcodeCb?_decodeCb _⟩
    · split at hi
      · next hd =>
        cases hi
        exact .inl (Instruction.opcode?_of_decode? hd)
      · cases hi
  · rintro (h | ⟨hp, h⟩)
    · obtain ⟨i, hi, hop⟩ := Instruction.decodes op _ h
      exact ⟨i, fetch_of_decode? hi, hop⟩
    · refine ⟨_, ?_, Instruction.decodesCb op _ h⟩
      simp only [fetch, if_pos (show mem cpu.regs.pc = prefixByte from hp)]

end Dmg
