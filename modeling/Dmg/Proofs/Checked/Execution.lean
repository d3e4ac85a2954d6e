import Dmg.Proofs.Checked.Decoding

/-! # Execution that cannot stop half-way

What the processor does with an instruction, over a memory that may fail to answer and with checked
arithmetic, and with no answer for a store to an immediate operand. Over a memory that always
answers it is what `Cpu.start` does: the operands of an instruction are sound (`Op.Sound`), and
costs stay far below the width they are added in. -/

namespace Dmg

open Unsigned (sum difference)

/-- A memory in which a read can fail. -/
abbrev CheckedView := UInt16 → Option UInt8

/-- A view, seen as a memory that always answers. -/
def View.answers (mem : View) : CheckedView := fun a => some (mem a)

namespace CheckedView

def word (read : CheckedView) (a : UInt16) : Option UInt16 := do
  let low ← read a
  let high ← read (a + 1)
  return Dmg.word high low

end CheckedView

/-! ### Operands -/

def Mode.checkedAddress (m : Mode) (read : CheckedView) (imm : UInt16) (regs : Registers) :
    Option UInt16 :=
  match m with
  | .bc => some regs.bc
  | .de => some regs.de
  | .hl | .hlInc | .hlDec => some regs.hl
  | .high => do return highPage + (← read imm).toUInt16
  | .highC => some (highPage + regs.c.toUInt16)
  | .direct => read.word imm

def Operand.checkedResolve (o : Operand) (read : CheckedView) (imm : UInt16) (regs : Registers) :
    Option (Location × Registers) := do
  match o with
  | .reg r => return (.reg r, regs)
  | .mem m => return (.memory (← m.checkedAddress read imm regs), m.stepped regs)
  | .imm => return (.literal (← read imm), regs)

namespace Location

def checkedGet (l : Location) (read : CheckedView) (regs : Registers) : Option UInt8 :=
  match l with
  | .reg r => some (regs.get r)
  | .memory a => read a
  | .literal v => some v

/-- There is no storing to a literal. -/
def checkedPut (l : Location) (v : UInt8) (regs : Registers) : Option Effect :=
  match l with
  | .literal _ => none
  | l => some (l.put v regs)

end Location

def checkedAlter (target : Operand) (f : UInt8 → Flags → Option (UInt8 × Flags))
    (read : CheckedView) (imm : UInt16) (regs : Registers) : Option Effect := do
  let (l, regs) ← target.checkedResolve read imm regs
  let (v, flags) ← f (← l.checkedGet read regs) regs.flags
  let out ← l.checkedPut v regs
  return { out with regs := { out.regs with flags } }

def Registers.checkedPopWord (regs : Registers) (read : CheckedView) :
    Option (UInt16 × Registers) := do
  return (← read.word regs.sp, { regs with sp := regs.sp + 2 })

section
variable {mem : View} {imm : UInt16} {regs : Registers}

@[simp] theorem Operand.checkedResolve_eq (o : Operand) :
    o.checkedResolve mem.answers imm regs = some (o.resolve mem imm regs) := by
  cases o with
  | mem m => cases m <;> rfl
  | _ => rfl

@[simp] theorem Location.checkedGet_eq (l : Location) :
    l.checkedGet mem.answers regs = some (l.get mem regs) := by
  cases l <;> rfl

/-- What is resolved from an operand that is not immediate can be stored to. -/
theorem Operand.checkedPut_resolve {o : Operand} (h : o ≠ .imm) (v : UInt8) (regs' : Registers) :
    (o.resolve mem imm regs).1.checkedPut v regs' =
      some ((o.resolve mem imm regs).1.put v regs') := by
  cases o with
  | imm => exact absurd rfl h
  | _ => rfl

theorem checkedAlter_eq {target : Operand} (h : target ≠ .imm)
    {f' : UInt8 → Flags → Option (UInt8 × Flags)} {f : UInt8 → Flags → UInt8 × Flags}
    (hf : ∀ v flags, f' v flags = some (f v flags)) :
    checkedAlter target f' mem.answers imm regs = some (alter target f mem imm regs) := by
  rw [checkedAlter, Operand.checkedResolve_eq]
  simp only [Option.bind_eq_bind, Option.bind_some, Location.checkedGet_eq, hf,
    Operand.checkedPut_resolve h]
  rfl

end

/-! ### Operations -/

namespace Op

/-- The effect of an operation. The operations that no case names neither read memory nor compute
what may not fit. -/
def checkedApply (op : Op) (read : CheckedView) (imm : UInt16) (regs : Registers) :
    Option Effect := do
  match op with
  | .load dst src =>
    let (source, regs) ← src.checkedResolve read imm regs
    let v ← source.checkedGet read regs
    let (target, regs) ← dst.checkedResolve read imm regs
    target.checkedPut v regs
  | .loadPair p => return { regs := regs.setPair p (← read.word imm) }
  | .storeSp => return { regs, writes := Write.ofWord (← read.word imm) regs.sp }
  | .loadHlSp =>
    let (hl, flags) ← Alu.checkedAddSp regs.sp (← read imm)
    return { regs := { regs.setHl hl with flags } }
  | .addSp =>
    let (sp, flags) ← Alu.checkedAddSp regs.sp (← read imm)
    return { regs := { regs with sp, flags } }
  | .pop p =>
    let (v, regs) ← regs.checkedPopWord read
    return { regs := regs.setStackPair p v }
  | .alu op src =>
    let (source, regs) ← src.checkedResolve read imm regs
    let (a, flags) ← Alu.checkedBinary op regs.a (← source.checkedGet read regs) regs.flags
    return { regs := { regs with a, flags } }
  | .inc target => checkedAlter target (fun v f => some (Alu.inc8 v f)) read imm regs
  | .dec target => checkedAlter target (fun v f => some (Alu.dec8 v f)) read imm regs
  | .addHl p =>
    let (hl, flags) ← Alu.checkedAdd16 regs.hl (regs.getPair p) regs.flags
    return { regs := { regs.setHl hl with flags } }
  | .shift s target => checkedAlter target (fun v f => some (Alu.shift s v f.c)) read imm regs
  | .bit b target =>
    let (l, regs) ← target.checkedResolve read imm regs
    return { regs := { regs with
      flags := ← Alu.checkedBit b (← l.checkedGet read regs) regs.flags } }
  | .res b target =>
    checkedAlter target (fun v f => do return (v &&& ~~~(← Alu.checkedBitMask b), f)) read imm regs
  | .set b target =>
    checkedAlter target (fun v f => do return (v ||| (← Alu.checkedBitMask b), f)) read imm regs
  | .jp cond =>
    if branches cond regs.flags then
      return { regs := { regs with pc := ← read.word imm }, taken := cond.isSome }
    else return { regs }
  | .jr cond =>
    if branches cond regs.flags then
      return { regs := { regs with pc := regs.pc + signExtend (← read imm) }, taken := cond.isSome }
    else return { regs }
  | .call cond =>
    if branches cond regs.flags then
      let out := regs.pushWord regs.pc
      return { out with regs := { out.regs with pc := ← read.word imm }, taken := cond.isSome }
    else return { regs }
  | .ret cond =>
    if branches cond regs.flags then
      let (pc, regs) ← regs.checkedPopWord read
      return { regs := { regs with pc }, taken := cond.isSome }
    else return { regs }
  | .reti =>
    let (pc, regs) ← regs.checkedPopWord read
    return { regs := { regs with pc } }
  | op => return op.apply (fun _ => 0) imm regs

theorem checkedApply_eq {op : Op} (h : op.Sound) (mem : View) (imm : UInt16) (regs : Registers) :
    op.checkedApply mem.answers imm regs = some (op.apply mem imm regs) := by
  cases op with
  | load dst src =>
    simp only [checkedApply, Operand.checkedResolve_eq, Location.checkedGet_eq,
      Option.bind_eq_bind, Option.bind_some, Operand.checkedPut_resolve (h.target_ne_imm rfl)]
    rfl
  | loadHlSp | addSp =>
    simp only [checkedApply, View.answers, Option.bind_eq_bind, Option.bind_some,
      Alu.checkedAddSp_eq]
    rfl
  | alu op src =>
    simp only [checkedApply, Operand.checkedResolve_eq, Location.checkedGet_eq,
      Option.bind_eq_bind, Option.bind_some, Alu.checkedBinary_eq]
    rfl
  | inc target => exact checkedAlter_eq (h.target_ne_imm rfl) fun _ _ => rfl
  | dec target => exact checkedAlter_eq (h.target_ne_imm rfl) fun _ _ => rfl
  | shift s target =>
    exact checkedAlter_eq (f := fun v f => Alu.shift s v f.c) (h.target_ne_imm rfl) fun _ _ => rfl
  | addHl p =>
    simp only [checkedApply, Alu.checkedAdd16_eq]
    rfl
  | bit b target =>
    simp only [checkedApply, Operand.checkedResolve_eq, Location.checkedGet_eq,
      Option.bind_eq_bind, Option.bind_some, Alu.checkedBit_eq (h.bit_lt rfl)]
    rfl
  | res b target =>
    simp only [checkedApply, Alu.checkedBitMask_eq (h.bit_lt rfl), Option.bind_eq_bind,
      Option.bind_some]
    exact checkedAlter_eq (f := fun v f => (v &&& ~~~(1 <<< b), f)) (h.target_ne_imm rfl)
      fun _ _ => rfl
  | set b target =>
    simp only [checkedApply, Alu.checkedBitMask_eq (h.bit_lt rfl), Option.bind_eq_bind,
      Option.bind_some]
    exact checkedAlter_eq (f := fun v f => (v ||| 1 <<< b, f)) (h.target_ne_imm rfl)
      fun _ _ => rfl
  | jp cond | jr cond | call cond | ret cond =>
    rw [checkedApply, apply]
    split <;> rfl
  | _ => rfl

end Op

/-! ### The processor -/

namespace Cpu

def checkedPendingLine? (cpu : Cpu) (irq : Interrupts) : Option (Option Line) :=
  if cpu.ime then Line.checkedHighest? irq.active else some none

def checkedDispatch (cpu : Cpu) (l : Line) : Option Work := do
  let out := cpu.regs.pushWord cpu.regs.pc
  let pc ← l.checkedVector
  return { act := .dispatch l
           cost := dispatchCycles
           cpu := { cpu with regs := { out.regs with pc }, ime := false, eiArmed := false }
           writes := out.writes }

def checkedFetch (cpu : Cpu) (read : CheckedView) :
    Option (Except IllegalOpcode Instruction) := do
  let pc := cpu.regs.pc
  let byte ← read pc
  if byte = prefixByte then
    return .ok (← Instruction.lookup Instruction.checkedDecodeCb (← read (pc + 1)))
  else match ← Instruction.lookup Instruction.checkedDecode? byte with
    | some i => return .ok i
    | none => return .error { pc, opcode := byte }

/-- Both kinds of immediate are read, whether the instruction has any or not. -/
def checkedExecute (cpu : Cpu) (i : Instruction) (read : CheckedView) : Option Work := do
  let pc := cpu.regs.pc
  let _ ← read (pc + 1)
  let _ ← read.word (pc + 1)
  let out ← i.op.checkedApply read (pc + 1) { cpu.regs with pc := pc + i.size.toUInt16 }
  return { act := .execute i
           cost := ← if out.taken then sum i.cycles i.penalty else some i.cycles
           cpu := { cpu.control i.op with regs := out.regs }
           writes := out.writes }

def checkedStart (cpu : Cpu) (irq : Interrupts) (read : CheckedView) :
    Option (Except IllegalOpcode Work) := do
  match ← cpu.checkedPendingLine? irq with
  | some l => return .ok (← cpu.checkedDispatch l)
  | none =>
    match ← cpu.checkedFetch read with
    | .ok i => return .ok (← cpu.checkedExecute i read)
    | .error e => return .error e

def checkedSettle (cpu : Cpu) (act : Activity) (cost : UInt8) : Option Cpu := do
  if cost > 1 ∧ cpu.phase = .ready then
    return { cpu with phase := .busy act (← difference cost 1) }
  else return cpu.complete act

def checkedCountDown (cpu : Cpu) (act : Activity) (remaining : UInt8) : Option Cpu := do
  if remaining > 1 then return { cpu with phase := .busy act (← difference remaining 1) }
  else return { cpu with phase := .ready }.complete act

variable {cpu : Cpu}

@[simp] theorem checkedPendingLine?_eq (cpu : Cpu) (irq : Interrupts) :
    cpu.checkedPendingLine? irq = some (cpu.pendingLine? irq) := by
  unfold checkedPendingLine? pendingLine?
  split
  · exact Line.checkedHighest?_eq _
  · rfl

@[simp] theorem checkedDispatch_eq (cpu : Cpu) (l : Line) :
    cpu.checkedDispatch l = some (cpu.dispatch l) := by
  rw [checkedDispatch, Line.checkedVector_eq]
  rfl

@[simp] theorem checkedFetch_eq (cpu : Cpu) (mem : View) :
    cpu.checkedFetch mem.answers = some (cpu.fetch mem) := by
  simp only [checkedFetch, View.answers, Option.bind_eq_bind, Option.bind_some,
    Instruction.lookup_eq Instruction.checkedDecodeCb_eq,
    Instruction.lookup_eq Instruction.checkedDecode?_eq, fetch]
  split
  · rfl
  · cases Instruction.decode? (mem cpu.regs.pc) <;> rfl

theorem checkedExecute_eq {i : Instruction} (h : i.Listed) (cpu : Cpu) (mem : View) :
    cpu.checkedExecute i mem.answers = some (cpu.execute i mem) := by
  have hcost : sum i.cycles i.penalty = some (i.cycles + i.penalty) := by
    have hle := h.cycles_le.2
    exact Unsigned.sum_eq (show i.cycles.toNat + i.penalty.toNat < 2 ^ 8 by omega)
  have happly := Op.checkedApply_eq h.sound mem (cpu.regs.pc + 1)
    { cpu.regs with pc := cpu.regs.pc + i.size.toUInt16 }
  rw [checkedExecute, execute]
  show (i.op.checkedApply _ _ _).bind _ = _
  rw [happly, Option.bind_some]
  dsimp only
  split
  · rw [hcost]
    rfl
  · rfl

@[simp] theorem checkedStart_eq (cpu : Cpu) (irq : Interrupts) (mem : View) :
    cpu.checkedStart irq mem.answers = some (cpu.start irq mem) := by
  rw [checkedStart, checkedPendingLine?_eq, start]
  cases cpu.pendingLine? irq with
  | some l =>
    simp only [Option.bind_eq_bind, Option.bind_some, checkedDispatch_eq]
    rfl
  | none =>
    simp only [Option.bind_eq_bind, Option.bind_some, checkedFetch_eq]
    cases hi : cpu.fetch mem with
    | error e => rfl
    | ok i =>
      simp only [checkedExecute_eq (fetch_listed hi)]
      rfl

theorem difference_one {n : UInt8} (h : n > 1) : difference n 1 = some (n - 1) :=
  Unsigned.difference_eq (UInt8.le_iff_toNat_le.1 (UInt8.le_of_lt h))

@[simp] theorem checkedSettle_eq (cpu : Cpu) (act : Activity) (cost : UInt8) :
    cpu.checkedSettle act cost = some (cpu.settle act cost) := by
  unfold checkedSettle settle
  split
  · next h =>
    rw [difference_one h.1]
    rfl
  · rfl

@[simp] theorem checkedCountDown_eq (cpu : Cpu) (act : Activity) (remaining : UInt8) :
    cpu.checkedCountDown act remaining = some (cpu.countDown act remaining) := by
  unfold checkedCountDown countDown
  split
  · next h =>
    rw [difference_one h]
    rfl
  · rfl

end Cpu

end Dmg
