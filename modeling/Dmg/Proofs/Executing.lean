import Dmg.Proofs.Encoding
import Dmg.Proofs.Transfers

/-! # Executing an instruction

A processor that is free, has no line to serve and finds the opcode of an operation at the program
counter (`Machine.Finds`) executes the operation in the next step: the step succeeds, with the
registers and the writes of the operation's effect (`Machine.Finds.leaves`). What an operand is
before the instruction, its address and its byte, is read off the registers and the bytes behind the
opcode (`Mode.pointsTo`, `Operand.byte`). -/

namespace Dmg

/-! ### Operands -/

/-- The address that a mode stands for in an instruction at the program counter of `regs`. -/
def Mode.pointsTo (mode : Mode) (mem : View) (regs : Registers) : UInt16 :=
  match mode with
  | .bc => word regs.b regs.c
  | .de => word regs.d regs.e
  | .hl | .hlInc | .hlDec => word regs.h regs.l
  | .high => 0xFF00 + (mem (regs.pc + 1)).toUInt16
  | .highC => 0xFF00 + regs.c.toUInt16
  | .direct => word (mem (regs.pc + 2)) (mem (regs.pc + 1))

/-- The byte of an operand before an instruction at the program counter of `regs`. -/
def Operand.byte (o : Operand) (mem : View) (regs : Registers) : UInt8 :=
  match o with
  | .reg r => regs.get r
  | .mem mode => mem (mode.pointsTo mem regs)
  | .imm => mem (regs.pc + 1)

section
variable {mem : View} {regs : Registers} {pc : UInt16}

/-- The program counter is behind the instruction when its operands are resolved. -/
theorem Mode.address_eq (mode : Mode) :
    mode.address mem (regs.pc + 1) { regs with pc } = mode.pointsTo mem regs := by
  cases mode with
  | direct =>
    have hhigh : regs.pc + 1 + 1 = regs.pc + 2 := UInt16.add_assoc ..
    show word (mem (regs.pc + 1 + 1)) _ = _
    rw [hhigh]
    rfl
  | _ => rfl

theorem Operand.get_resolve (o : Operand) (pc : UInt16) :
    ((o.resolve mem (regs.pc + 1) { regs with pc }).1.get mem
      (o.resolve mem (regs.pc + 1) { regs with pc }).2) = o.byte mem regs := by
  cases o with
  | reg r => cases r <;> rfl
  | mem mode => exact congrArg mem mode.address_eq
  | imm => rfl

end

/-! ### The step -/

namespace Machine
variable {π : Type} [HostDevice π] {m : Machine π} {op : Op}

/-- The next step is to execute `op`: the processor is free, has no line to serve and finds the
opcode of `op` at the program counter. -/
structure Finds (m : Machine π) (op : Op) : Prop where
  free : m.Free
  line : m.cpu.pendingLine? m.bus.irq = none
  opcode : op.StandsAt m.bus.read m.cpu.regs.pc

/-- The next step succeeds, makes the writes `W` one after the other, and leaves the registers
`regs`. -/
structure Leaves (m : Machine π) (regs : Registers) (W : List Write) : Prop where
  failure : m.stepCpu.failure = none
  writes : m.stepWrites = W
  bus : m.stepCpu.machine.bus = m.bus.store W
  regs : m.stepCpu.machine.cpu.regs = regs

/-- What is found is what is executed. -/
theorem finds_iff : m.Finds op ↔ m.Free ∧ m.cpu.pendingLine? m.bus.irq = none ∧
    ∃ i, m.cpu.fetch m.bus.read = .ok i ∧ i.op = op := by
  rw [Cpu.fetch_op_iff]
  exact ⟨fun h => ⟨h.free, h.line, h.opcode⟩, fun ⟨hf, hl, ho⟩ => ⟨hf, hl, ho⟩⟩

theorem Finds.begun (h : m.Finds op) : ∃ i : Instruction, i.Listed ∧ i.op = op ∧
    m.begun = some ({ m.cpu with phase := .ready }.execute i m.bus.read) := by
  obtain ⟨hf, hl, i, hi, hop⟩ := finds_iff.1 h
  exact ⟨i, Cpu.fetch_listed hi, hop, begun_of_work hf (work_eq_ok.2 (.inr ⟨hl, i, hi, rfl⟩))⟩

theorem Finds.leaves (h : m.Finds op) :
    let out := op.apply m.bus.read (m.cpu.regs.pc + 1)
      { m.cpu.regs with pc := m.cpu.regs.pc + op.size }
    m.Leaves out.regs out.writes := by
  obtain ⟨i, hlisted, rfl, hw⟩ := h.begun
  obtain ⟨hm, hfail⟩ := stepCpu_begun hw
  rw [← hlisted.size_eq]
  refine ⟨hfail, ?_, ?_, ?_⟩
  · rw [stepWrites, hw]
    rfl
  · rw [hm]
    rfl
  · rw [regs_stepCpu, hw]
    rfl

end Machine

end Dmg
