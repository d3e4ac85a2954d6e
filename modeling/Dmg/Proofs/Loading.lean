import Dmg.Proofs.Executing

/-! # Loads

An 8-bit load moves one byte, the source as it was before the instruction, into a register or, by
one write, to an address taken before the instruction (`Operand.written`). Beyond the program
counter it changes no other register, but that HL moves by one where an operand says so (`Loaded`,
`Machine.Finds.moves_byte`). -/

namespace Dmg

/-- How far HL moves once the address of the operand is taken. -/
def Operand.hlStep : Operand → UInt16
  | .mem .hlInc => 1
  | .mem .hlDec => -1
  | _ => 0

/-- The writes that put `v` into an operand of an instruction at the program counter of `regs`. -/
def Operand.written (o : Operand) (mem : View) (regs : Registers) (v : UInt8) : List Write :=
  match o with
  | .mem mode => [⟨mode.pointsTo mem regs, v⟩]
  | _ => []

/-- `regs'` is what `regs` becomes when `v` is loaded into `dst` and the operands move HL by `d`. -/
structure Loaded (dst : Operand) (v : UInt8) (d : UInt16) (regs regs' : Registers) : Prop where
  register : ∀ r, dst = .reg r → regs'.get r = v
  hl : d ≠ 0 → regs'.hl = regs.hl + d
  others : ∀ r, dst ≠ .reg r → (r = .h ∨ r = .l → d = 0) → regs'.get r = regs.get r
  flags : regs'.flags = regs.flags
  sp : regs'.sp = regs.sp

namespace Registers
variable (regs : Registers)

@[simp] theorem setHl_hl : regs.setHl regs.hl = regs := by simp [setHl, hl]

@[simp] theorem hl_setHl (v : UInt16) : (regs.setHl v).hl = v := by simp [setHl, hl]

theorem get_setHl_add {r : Reg} {d : UInt16} (h : r = .h ∨ r = .l → d = 0) :
    (regs.setHl (regs.hl + d)).get r = regs.get r := by
  cases r with
  | h => rw [h (.inl rfl), UInt16.add_zero, setHl_hl]
  | l => rw [h (.inr rfl), UInt16.add_zero, setHl_hl]
  | _ => rfl

end Registers

theorem Operand.resolve_regs (o : Operand) (mem : View) (imm : UInt16) (regs : Registers) :
    (o.resolve mem imm regs).2 = regs.setHl (regs.hl + o.hlStep) := by
  have hstill : regs = regs.setHl (regs.hl + 0) := by rw [UInt16.add_zero, Registers.setHl_hl]
  cases o with
  | mem mode =>
    cases mode with
    | hlInc => rfl
    | hlDec => exact congrArg regs.setHl (UInt16.sub_eq_add_neg ..)
    | _ => exact hstill
  | _ => exact hstill

variable {regs : Registers} {dst src : Operand} {v : UInt8} {d pc : UInt16}

theorem Loaded.memory (mode : Mode) :
    Loaded (.mem mode) v d regs { regs.setHl (regs.hl + d) with pc } where
  register _ h := by cases h
  hl _ := regs.hl_setHl _
  others r _ h := by
    have hget : Registers.get { regs.setHl (regs.hl + d) with pc } r =
        (regs.setHl (regs.hl + d)).get r := by cases r <;> rfl
    rw [hget, regs.get_setHl_add h]
  flags := rfl
  sp := rfl

theorem Loaded.set {r : Reg} (hr : d ≠ 0 → r = .a) :
    Loaded (.reg r) v d regs (Registers.set { regs.setHl (regs.hl + d) with pc } r v) where
  register _ h := by
    cases h
    exact Registers.get_set_self ..
  hl h := by
    obtain rfl := hr h
    exact regs.hl_setHl _
  others r' hne h := by
    have hne' : r' ≠ r := fun heq => hne (congrArg _ heq.symm)
    rw [Registers.get_set_of_ne _ _ hne']
    exact (Loaded.memory (v := v) .hl).others r' nofun h
  flags := by cases r <;> rfl
  sp := by cases r <;> rfl

/-- Only A is loaded from an operand that moves HL, and what is loaded into memory comes from no
such operand. -/
theorem operands_of_loadOpcode? (h : loadOpcode? dst src ≠ none) :
    (∃ r, dst = .reg r ∧ (src.hlStep ≠ 0 → r = .a)) ∨
      ∃ mode, dst = .mem mode ∧ src.hlStep = 0 := by
  cases dst with
  | reg r =>
    refine .inl ⟨r, rfl, ?_⟩
    revert r src
    decide
  | mem mode =>
    refine .inr ⟨mode, rfl, ?_⟩
    revert src
    cases mode <;> decide
  | imm => exact absurd ((by decide : ∀ src, loadOpcode? .imm src = none) src) h

theorem Op.StandsAt.loadOpcode? {mem : View} {a : UInt16} (h : (Op.load dst src).StandsAt mem a) :
    loadOpcode? dst src = some (mem a) := by
  rcases h with h | ⟨-, h⟩
  · exact h
  · cases h

theorem Op.StandsAt.load_operands {mem : View} {a : UInt16}
    (h : (Op.load dst src).StandsAt mem a) :
    (∃ r, dst = .reg r ∧ (src.hlStep ≠ 0 → r = .a)) ∨
      ∃ mode, dst = .mem mode ∧ src.hlStep = 0 := by
  refine operands_of_loadOpcode? ?_
  rw [h.loadOpcode?]
  exact Option.some_ne_none _

theorem Op.apply_load_reg (r : Reg) (mem : View) :
    (Op.load (.reg r) src).apply mem (regs.pc + 1) { regs with pc } =
      { regs := Registers.set { regs.setHl (regs.hl + src.hlStep) with pc } r
          (src.byte mem regs) } := by
  show Effect.mk ((src.resolve mem (regs.pc + 1) { regs with pc }).2.set r
    ((src.resolve mem (regs.pc + 1) { regs with pc }).1.get mem
      (src.resolve mem (regs.pc + 1) { regs with pc }).2)) [] false = _
  rw [Operand.get_resolve, Operand.resolve_regs]
  rfl

theorem Op.apply_load_mem (mode : Mode) (mem : View) (hsrc : src.hlStep = 0) :
    (Op.load (.mem mode) src).apply mem (regs.pc + 1) { regs with pc } =
      { regs := { regs.setHl (regs.hl + (Operand.mem mode).hlStep) with pc }
        writes := [⟨mode.pointsTo mem regs, src.byte mem regs⟩] } := by
  have hstill : (src.resolve mem (regs.pc + 1) { regs with pc }).2 = { regs with pc } := by
    rw [Operand.resolve_regs, hsrc, UInt16.add_zero, Registers.setHl_hl]
  have hstepped : mode.stepped { regs with pc } =
      { regs.setHl (regs.hl + (Operand.mem mode).hlStep) with pc } :=
    Operand.resolve_regs (.mem mode) mem 0 { regs with pc }
  show Effect.mk (mode.stepped (src.resolve mem (regs.pc + 1) { regs with pc }).2)
    [⟨mode.address mem (regs.pc + 1) (src.resolve mem (regs.pc + 1) { regs with pc }).2,
      (src.resolve mem (regs.pc + 1) { regs with pc }).1.get mem
        (src.resolve mem (regs.pc + 1) { regs with pc }).2⟩] false = _
  rw [Operand.get_resolve, hstill, Mode.address_eq, hstepped]

namespace Machine
variable {π : Type} [HostDevice π] {m : Machine π}

/-- A load moves the byte that the source was before the instruction: a register takes it, or it
is written once to the address that the target stood for before the instruction, whatever the
instruction reads or HL does in between. -/
theorem Finds.moves_byte (h : m.Finds (.load dst src)) :
    let v := src.byte m.bus.read m.cpu.regs
    ∃ regs, m.Leaves regs (dst.written m.bus.read m.cpu.regs v) ∧
      Loaded dst v (dst.hlStep + src.hlStep) m.cpu.regs regs ∧
      regs.pc = m.cpu.regs.pc + Op.size (.load dst src) := by
  intro v
  have hleaves := h.leaves
  have hopcode : loadOpcode? dst src ≠ none := by
    rw [h.opcode.loadOpcode?]
    exact Option.some_ne_none _
  obtain ⟨r, rfl, hr⟩ | ⟨mode, rfl, hsrc⟩ := operands_of_loadOpcode? hopcode
  · have hd : (Operand.reg r).hlStep + src.hlStep = src.hlStep := UInt16.zero_add _
    rw [Op.apply_load_reg] at hleaves
    rw [hd]
    refine ⟨_, hleaves, .set hr, ?_⟩
    cases r <;> rfl
  · have hd : (Operand.mem mode).hlStep + src.hlStep = (Operand.mem mode).hlStep := by
      rw [hsrc, UInt16.add_zero]
    rw [Op.apply_load_mem mode _ hsrc] at hleaves
    rw [hd]
    exact ⟨_, hleaves, .memory mode, rfl⟩

/-- LD [HL-],A into its own opcode, with HL wrapping around. -/
theorem moves_byte_hlDec :
    let m : Machine Probe := { ofProgram [0x32] with cpu.regs.a := 0x05 }
    m.Finds (.load (.mem .hlDec) (.reg .a)) ∧ m.stepWrites = [⟨0x0000, 0x05⟩] ∧
      m.stepCpu.machine.cpu.regs.hl = 0xFFFF ∧ m.stepCpu.machine.cpu.regs.a = 0x05 ∧
      m.stepCpu.machine.cpu.regs.pc = 0x0001 := by
  intro m
  have hfinds : m.Finds (.load (.mem .hlDec) (.reg .a)) :=
    ⟨.inl rfl, rfl, .inl (by decide +kernel)⟩
  obtain ⟨regs, hleaves, hloaded, hpc⟩ := hfinds.moves_byte
  have hregs : m.cpu.regs = { a := 0x05 } := rfl
  rw [hregs] at hleaves hloaded hpc
  rw [hleaves.writes, hleaves.regs]
  exact ⟨hfinds, rfl, hloaded.hl (by decide), hloaded.others .a nofun nofun, hpc⟩

end Machine

end Dmg
