import Dmg.Alu
import Dmg.Bus

/-! # Effects of operations

The effect of an operation on the registers and the bus (`Op.apply`). Memory is given as the
function a read goes through, and the writes come back as a list: every instruction reads all it
needs before it writes. Interrupt enabling and halting are the processor's own affair
(`Cpu.control`). -/

namespace Dmg

/-- The bus as an instruction reads it. -/
abbrev View := UInt16 → UInt8

/-- The word at an address of a view, low byte first. -/
def View.word (mem : View) (a : UInt16) : UInt16 := Dmg.word (mem (a + 1)) (mem a)

def highPage : UInt16 := 0xFF00

/-- What an operation does; `taken` is a conditional branch that was taken. -/
structure Effect where
  regs : Registers
  writes : List Write := []
  taken : Bool := false

/-! ### Operands -/

namespace Mode

/-- The address a mode stands for; `imm` is where the immediate bytes are. -/
def address (m : Mode) (mem : View) (imm : UInt16) (regs : Registers) : UInt16 :=
  match m with
  | .bc => regs.bc
  | .de => regs.de
  | .hl | .hlInc | .hlDec => regs.hl
  | .high => highPage + (mem imm).toUInt16
  | .highC => highPage + regs.c.toUInt16
  | .direct => mem.word imm

def stepped (m : Mode) (regs : Registers) : Registers :=
  match m with
  | .hlInc => regs.setHl (regs.hl + 1)
  | .hlDec => regs.setHl (regs.hl - 1)
  | _ => regs

end Mode

/-- Where an operand lives once its addressing mode is resolved. -/
inductive Location where
  | reg (r : Reg)
  | memory (a : UInt16)
  | literal (v : UInt8)

/-- The location of an operand and the registers once it is resolved. -/
def Operand.resolve (o : Operand) (mem : View) (imm : UInt16) (regs : Registers) :
    Location × Registers :=
  match o with
  | .reg r => (.reg r, regs)
  | .mem m => (.memory (m.address mem imm regs), m.stepped regs)
  | .imm => (.literal (mem imm), regs)

namespace Location

def get (l : Location) (mem : View) (regs : Registers) : UInt8 :=
  match l with
  | .reg r => regs.get r
  | .memory a => mem a
  | .literal v => v

/-- A byte put at a location. A literal holds nothing, and no instruction asks it to. -/
def put (l : Location) (v : UInt8) (regs : Registers) : Effect :=
  match l with
  | .reg r => { regs := regs.set r v }
  | .memory a => { regs, writes := [⟨a, v⟩] }
  | .literal _ => { regs }

end Location

/-- An operand and the flags replaced by what `f` makes of them. -/
def alter (target : Operand) (f : UInt8 → Flags → UInt8 × Flags) (mem : View) (imm : UInt16)
    (regs : Registers) : Effect :=
  let (l, regs) := target.resolve mem imm regs
  let (v, flags) := f (l.get mem regs) regs.flags
  let out := l.put v regs
  { out with regs := { out.regs with flags } }

/-! ### Branches and the stack -/

def Condition.holds (cond : Condition) (f : Flags) : Bool :=
  match cond with
  | .nz => !f.z
  | .z => f.z
  | .nc => !f.c
  | .c => f.c

/-- Whether a branch with an optional condition is taken. -/
def branches (cond : Option Condition) (f : Flags) : Bool := cond.all (·.holds f)

def Registers.pushWord (regs : Registers) (v : UInt16) : Effect :=
  let sp := regs.sp - 2
  { regs := { regs with sp }, writes := Write.ofWord sp v }

/-- The word on top of the stack, and the registers once it is popped. -/
def Registers.popWord (regs : Registers) (mem : View) : UInt16 × Registers :=
  (mem.word regs.sp, { regs with sp := regs.sp + 2 })

/-! ### Operations -/

/-- The effect of an operation. `imm` is the address of the immediate bytes, and `regs` are the
registers with the program counter already behind the instruction. -/
def Op.apply (op : Op) (mem : View) (imm : UInt16) (regs : Registers) : Effect :=
  match op with
  | .nop | .stop | .halt | .di | .ei => { regs }
  | .daa =>
    let (a, flags) := Alu.daa regs.a regs.flags
    { regs := { regs with a, flags } }
  | .cpl =>
    let flags := { regs.flags with n := true, h := true }
    { regs := { regs with a := ~~~regs.a, flags } }
  | .scf => { regs := { regs with flags := { z := regs.flags.z, c := true } } }
  | .ccf => { regs := { regs with flags := { z := regs.flags.z, c := !regs.flags.c } } }
  | .load dst src =>
    let (source, regs) := src.resolve mem imm regs
    let v := source.get mem regs
    let (target, regs) := dst.resolve mem imm regs
    target.put v regs
  | .loadPair p => { regs := regs.setPair p (mem.word imm) }
  | .storeSp => { regs, writes := Write.ofWord (mem.word imm) regs.sp }
  | .loadSpHl => { regs := { regs with sp := regs.hl } }
  | .loadHlSp =>
    let (hl, flags) := Alu.addSp regs.sp (mem imm)
    { regs := { regs.setHl hl with flags } }
  | .addSp =>
    let (sp, flags) := Alu.addSp regs.sp (mem imm)
    { regs := { regs with sp, flags } }
  | .push p => regs.pushWord (regs.getStackPair p)
  | .pop p =>
    let (v, regs) := regs.popWord mem
    { regs := regs.setStackPair p v }
  | .alu op src =>
    let (source, regs) := src.resolve mem imm regs
    let (a, flags) := Alu.binary op regs.a (source.get mem regs) regs.flags
    { regs := { regs with a, flags } }
  | .inc target => alter target Alu.inc8 mem imm regs
  | .dec target => alter target Alu.dec8 mem imm regs
  | .incPair p => { regs := regs.setPair p (regs.getPair p + 1) }
  | .decPair p => { regs := regs.setPair p (regs.getPair p - 1) }
  | .addHl p =>
    let (hl, flags) := Alu.add16 regs.hl (regs.getPair p) regs.flags
    { regs := { regs.setHl hl with flags } }
  | .rotateA s =>
    let (a, flags) := Alu.shift s regs.a regs.flags.c
    { regs := { regs with a, flags := { flags with z := false } } }
  | .shift s target => alter target (fun v f => Alu.shift s v f.c) mem imm regs
  | .bit b target =>
    let (l, regs) := target.resolve mem imm regs
    { regs := { regs with flags := Alu.bit b (l.get mem regs) regs.flags } }
  | .res b target => alter target (fun v f => (v &&& ~~~(1 <<< b), f)) mem imm regs
  | .set b target => alter target (fun v f => (v ||| 1 <<< b, f)) mem imm regs
  | .jp cond =>
    if branches cond regs.flags then
      { regs := { regs with pc := mem.word imm }, taken := cond.isSome }
    else { regs }
  | .jpHl => { regs := { regs with pc := regs.hl } }
  | .jr cond =>
    if branches cond regs.flags then
      { regs := { regs with pc := regs.pc + signExtend (mem imm) }, taken := cond.isSome }
    else { regs }
  | .call cond =>
    if branches cond regs.flags then
      let out := regs.pushWord regs.pc
      { out with regs := { out.regs with pc := mem.word imm }, taken := cond.isSome }
    else { regs }
  | .ret cond =>
    if branches cond regs.flags then
      let (pc, regs) := regs.popWord mem
      { regs := { regs with pc }, taken := cond.isSome }
    else { regs }
  | .reti =>
    let (pc, regs) := regs.popWord mem
    { regs := { regs with pc } }
  | .rst vector =>
    let out := regs.pushWord regs.pc
    { out with regs := { out.regs with pc := vector } }

end Dmg
