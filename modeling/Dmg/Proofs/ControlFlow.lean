import Dmg.Proofs.Loading

/-! # Control flow and the stack pointer

Where the program goes on after an instruction (`Op.destination?`, or else behind the instruction),
what becomes of the stack pointer (`Op.stackPointer`), and where a call returns to
(`Op.returnAddress?`), all read off the registers and the memory before the instruction. Every
instruction that is executed keeps to them (`Machine.Finds.proceeds`). -/

namespace Dmg

/-! ### Conditions -/

def Condition.Met (cond : Condition) (f : Flags) : Prop :=
  match cond with
  | .nz => f.z = false
  | .z => f.z = true
  | .nc => f.c = false
  | .c => f.c = true

instance (cond : Condition) (f : Flags) : Decidable (cond.Met f) := by
  cases cond <;> exact inferInstanceAs (Decidable (_ = _))

/-- A branch is taken unless it has a condition that does not hold. -/
def Taken (cond : Option Condition) (f : Flags) : Prop := ∀ x ∈ cond, x.Met f

instance (cond : Option Condition) (f : Flags) : Decidable (Taken cond f) :=
  (Option.decidableForallMem cond : Decidable (∀ x ∈ cond, x.Met f))

theorem branches_iff {cond : Option Condition} {f : Flags} :
    branches cond f = true ↔ Taken cond f := by
  cases cond with
  | none => simp [branches, Taken]
  | some cond => cases cond <;> simp [branches, Taken, Condition.holds, Condition.Met]

/-! ### Words -/

/-- `a` moved by the byte `e`, which is a number from -128 to 127. -/
def displaced (a : UInt16) (e : UInt8) : UInt16 := .ofInt (a.toNat + e.toInt8.toInt)

theorem add_signExtend (a : UInt16) (e : UInt8) : a + signExtend e = displaced a e := by
  have key : ∀ n : Fin 256, signExtend (.ofNat n) = .ofInt (UInt8.ofNat n).toInt8.toInt := by
    decide +kernel
  have hextend : signExtend e = .ofInt e.toInt8.toInt := by
    simpa using key ⟨e.toNat, e.toNat_lt⟩
  have ha : UInt16.ofInt a.toNat = a := by
    have hlt := a.toNat_lt
    rw [UInt16.ofInt, Int.emod_eq_of_lt (by omega) (by omega)]
    exact UInt16.ofNat_toNat
  rw [displaced, UInt16.ofInt_add, ha, hextend]

/-- The word of the two immediate bytes of an instruction at `pc`. -/
def View.immediate (mem : View) (pc : UInt16) : UInt16 := Dmg.word (mem (pc + 2)) (mem (pc + 1))

theorem View.word_immediate (mem : View) (pc : UInt16) : mem.word (pc + 1) = mem.immediate pc := by
  have hhigh : pc + 1 + 1 = pc + 2 := UInt16.add_assoc ..
  rw [word, hhigh, immediate]

/-- The word `v` pushed below the stack pointer `sp`. -/
def Write.pushed (sp v : UInt16) : List Write := [⟨sp - 2, lo v⟩, ⟨sp - 1, hi v⟩]

theorem Write.ofWord_sub_two (sp v : UInt16) : ofWord (sp - 2) v = pushed sp v := by
  have hhigh : sp - 2 + 1 = sp - 1 := by grind
  rw [ofWord, hhigh, pushed]

namespace Op

/-! ### Lengths -/

/-- The prefix byte, for the operations that take one. -/
def prefixSize : Op → UInt16
  | .shift .. | .bit .. | .res .. | .set .. => 1
  | _ => 0

def immediateSize : Op → UInt16
  | .load dst src => dst.immediateSize + src.immediateSize
  | .alu _ src => src.immediateSize
  | .loadPair _ | .storeSp | .jp _ | .call _ => 2
  | .loadHlSp | .addSp | .jr _ => 1
  | _ => 0

/-- The bytes of an instruction: the opcode, the prefix byte and the immediates. STOP leaves out a
byte behind it. -/
def length (op : Op) : UInt16 := if op = .stop then 2 else 1 + op.prefixSize + op.immediateSize

theorem size_eq_length (op : Op) : op.size = op.length := by
  cases op with
  | load dst src => exact UInt16.add_assoc ..
  | _ => rfl

/-! ### Destinations -/

/-- Where a branch goes that is taken by an instruction at the program counter of `regs`. -/
def destination? (op : Op) (mem : View) (regs : Registers) : Option UInt16 :=
  match op with
  | .jp cond | .call cond => if Taken cond regs.flags then some (mem.immediate regs.pc) else none
  | .jr cond =>
    if Taken cond regs.flags then some (displaced (regs.pc + 2) (mem (regs.pc + 1))) else none
  | .jpHl => some (word regs.h regs.l)
  | .ret cond =>
    if Taken cond regs.flags then some (word (mem (regs.sp + 1)) (mem regs.sp)) else none
  | .reti => some (word (mem (regs.sp + 1)) (mem regs.sp))
  -- The number of the vector is a field of the opcode.
  | .rst _ => some (8 * (mem regs.pc / 8 % 8).toUInt16)
  | _ => none

/-- The return address, where the instruction puts one on the stack. -/
def returnAddress? (op : Op) (regs : Registers) : Option UInt16 :=
  match op with
  | .call cond => if Taken cond regs.flags then some (regs.pc + 3) else none
  | .rst _ => some (regs.pc + 1)
  | _ => none

/-- The stack pointer after the instruction. -/
def stackPointer (op : Op) (mem : View) (regs : Registers) : UInt16 :=
  match op with
  | .push _ | .rst _ => regs.sp - 2
  | .call cond => if Taken cond regs.flags then regs.sp - 2 else regs.sp
  | .pop _ | .reti => regs.sp + 2
  | .ret cond => if Taken cond regs.flags then regs.sp + 2 else regs.sp
  | .incPair .sp => regs.sp + 1
  | .decPair .sp => regs.sp - 1
  | .addSp => displaced regs.sp (mem (regs.pc + 1))
  | .loadSpHl => word regs.h regs.l
  | .loadPair .sp => mem.immediate regs.pc
  | _ => regs.sp

end Op

/-! ### Operands leave both alone -/

section
variable {mem : View} {imm : UInt16} {regs : Registers}

theorem Operand.keeps_resolve (o : Operand) :
    (o.resolve mem imm regs).2.pc = regs.pc ∧ (o.resolve mem imm regs).2.sp = regs.sp := by
  rw [resolve_regs]
  exact ⟨rfl, rfl⟩

theorem Location.keeps_put (l : Location) (v : UInt8) :
    (l.put v regs).regs.pc = regs.pc ∧ (l.put v regs).regs.sp = regs.sp := by
  rcases l with r | a | w
  · cases r <;> exact ⟨rfl, rfl⟩
  · exact ⟨rfl, rfl⟩
  · exact ⟨rfl, rfl⟩

theorem keeps_alter (t : Operand) (f : UInt8 → Flags → UInt8 × Flags) :
    (alter t f mem imm regs).regs.pc = regs.pc ∧ (alter t f mem imm regs).regs.sp = regs.sp := by
  refine ⟨?_, ?_⟩
  · exact (Location.keeps_put ..).1.trans t.keeps_resolve.1
  · exact (Location.keeps_put ..).2.trans t.keeps_resolve.2

end

/-! ### Instructions -/

namespace Op
variable {op : Op} {mem : View} {regs : Registers}

/-- The vector of a restart stands in its opcode. -/
theorem StandsAt.vector {v a : UInt16} (h : (Op.rst v).StandsAt mem a) :
    8 * (mem a / 8 % 8).toUInt16 = v := by
  have key : ∀ n : Fin 64, ∀ b ∈ (Op.rst (.ofNat n)).opcode?,
      8 * (b / 8 % 8).toUInt16 = .ofNat n := by decide +kernel
  rcases h with h | ⟨-, h⟩
  · have hv : v ≤ 0x38 := by
      by_contra hv
      cases h.symm.trans (if_neg fun h' => hv h'.1)
    have hlt : v.toNat < 64 := Nat.lt_of_le_of_lt (UInt16.le_iff_toNat_le.1 hv) (by decide)
    simpa using key ⟨v.toNat, hlt⟩ _ (by simpa using h)
  · cases h

theorem pc_apply (h : op.StandsAt mem regs.pc) :
    (op.apply mem (regs.pc + 1) { regs with pc := regs.pc + op.size }).regs.pc =
      (op.destination? mem regs).getD (regs.pc + op.length) := by
  rw [← size_eq_length]
  cases op with
  | load dst src => exact (Location.keeps_put ..).1.trans (dst.keeps_resolve.1.trans src.keeps_resolve.1)
  | alu op src => exact src.keeps_resolve.1
  | bit b t => exact t.keeps_resolve.1
  | inc t | dec t | shift s t | res b t | set b t => exact (keeps_alter ..).1
  | loadPair p | incPair p | decPair p | addHl p | pop p => cases p <;> rfl
  | jp cond | call cond =>
    simp only [apply, destination?, branches_iff]
    split
    · exact mem.word_immediate regs.pc
    · rfl
  | jr cond =>
    simp only [apply, destination?, branches_iff]
    split
    · exact add_signExtend ..
    · rfl
  | ret cond =>
    simp only [apply, destination?, branches_iff]
    split <;> rfl
  | rst v => exact h.vector.symm
  | _ => rfl

theorem sp_apply (op : Op) (mem : View) (regs : Registers) :
    (op.apply mem (regs.pc + 1) { regs with pc := regs.pc + op.size }).regs.sp =
      op.stackPointer mem regs := by
  cases op with
  | load dst src => exact (Location.keeps_put ..).2.trans (dst.keeps_resolve.2.trans src.keeps_resolve.2)
  | alu op src => exact src.keeps_resolve.2
  | bit b t => exact t.keeps_resolve.2
  | inc t | dec t | shift s t | res b t | set b t => exact (keeps_alter ..).2
  | loadPair p =>
    cases p with
    | sp => exact mem.word_immediate regs.pc
    | bc | de | hl => rfl
  | incPair p | decPair p | addHl p | pop p => cases p <;> rfl
  | addSp => exact add_signExtend ..
  | call cond | ret cond =>
    simp only [apply, branches_iff]
    show _ = if Taken cond regs.flags then _ else _
    split <;> rfl
  | jp cond | jr cond =>
    simp only [apply]
    split <;> rfl
  | _ => rfl

theorem writes_of_returnAddress? {a : UInt16} (h : op.returnAddress? regs = some a) :
    (op.apply mem (regs.pc + 1) { regs with pc := regs.pc + op.size }).writes =
      Write.pushed regs.sp a := by
  cases op with
  | call cond =>
    obtain ⟨htaken, ha⟩ := Option.ite_none_right_eq_some.1 h
    cases ha
    rw [← Write.ofWord_sub_two]
    simp only [apply, if_pos (branches_iff.2 htaken)]
    rfl
  | rst v =>
    cases h
    exact Write.ofWord_sub_two ..
  | _ => cases h

/-- A call or a return that is not taken does nothing. -/
theorem apply_of_not_taken {cond : Option Condition} {imm pc : UInt16}
    (hop : op = .call cond ∨ op = .ret cond) (h : ¬ Taken cond regs.flags) :
    op.apply mem imm { regs with pc } = { regs := { regs with pc } } := by
  have hbranch : ¬ branches cond regs.flags = true := mt branches_iff.1 h
  rcases hop with rfl | rfl
  · exact if_neg hbranch
  · exact if_neg hbranch

end Op

/-- What an instruction of `op` that makes the writes `W` does to the program counter and to the
stack pointer. -/
structure Proceeds (op : Op) (mem : View) (regs regs' : Registers) (W : List Write) : Prop where
  pc : regs'.pc = (op.destination? mem regs).getD (regs.pc + op.length)
  sp : regs'.sp = op.stackPointer mem regs
  returns : ∀ a, op.returnAddress? regs = some a →
    W = [⟨regs.sp - 2, lo a⟩, ⟨regs.sp - 1, hi a⟩]
  untaken : ∀ cond, op = .call cond ∨ op = .ret cond → ¬ Taken cond regs.flags →
    regs'.sp = regs.sp ∧ W = []

namespace Machine
variable {π : Type} [HostDevice π] {m : Machine π} {op : Op}

theorem Finds.proceeds (h : m.Finds op) :
    ∃ regs W, m.Leaves regs W ∧ Proceeds op m.bus.read m.cpu.regs regs W := by
  refine ⟨_, _, h.leaves, ?_, ?_, ?_, ?_⟩
  · exact Op.pc_apply h.opcode
  · exact Op.sp_apply op _ _
  · intro a ha
    exact Op.writes_of_returnAddress? ha
  · intro cond hop htaken
    rw [Op.apply_of_not_taken hop htaken]
    exact ⟨rfl, rfl⟩

/-- CALL NC with the carry clear pushes the address behind it; RET Z with Z clear goes on. -/
theorem proceeds_call_ret :
    let m : Machine Probe := { ofProgram [0xD4, 0x34, 0x12] with cpu.regs.sp := 0x0001 }
    let m' : Machine Probe := { ofProgram [0xC8] with cpu.regs.sp := 0x8000 }
    (m.Finds (.call (some .nc)) ∧ m.stepCpu.machine.cpu.regs.pc = 0x1234 ∧
      m.stepCpu.machine.cpu.regs.sp = 0xFFFF ∧ m.stepWrites = [⟨0xFFFF, 0x03⟩, ⟨0x0000, 0x00⟩]) ∧
    m'.Finds (.ret (some .z)) ∧ m'.stepCpu.machine.cpu.regs.pc = 0x0001 ∧
      m'.stepCpu.machine.cpu.regs.sp = 0x8000 := by
  intro m m'
  have hfinds : m.Finds (.call (some .nc)) := ⟨.inl rfl, rfl, .inl (by decide +kernel)⟩
  have hfinds' : m'.Finds (.ret (some .z)) := ⟨.inl rfl, rfl, .inl (by decide +kernel)⟩
  obtain ⟨regs, W, hleaves, hproceeds⟩ := hfinds.proceeds
  obtain ⟨regs', W', hleaves', hproceeds'⟩ := hfinds'.proceeds
  rw [hleaves.regs, hleaves.writes, hleaves'.regs]
  refine ⟨⟨hfinds, ?_, hproceeds.sp, ?_⟩, hfinds', ?_, hproceeds'.sp⟩
  · rw [hproceeds.pc]
    decide +kernel
  · rw [hproceeds.returns 0x0003 (by decide +kernel)]
    decide +kernel
  · rw [hproceeds'.pc]
    decide +kernel

end Machine

end Dmg
