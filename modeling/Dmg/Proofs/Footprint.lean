import Dmg.Proofs.Step

/-! # What a step looks at

An instruction looks at its opcode, at the immediate bytes it uses, and at the operand or the words
of the stack that it loads (`Machine.consulted`). A step depends on the bus through these bytes and
through the lines that are active, and through nothing else (`Machine.Agrees.begun`,
`Machine.Agrees.stepCpu`): an immediate byte that a branch not taken leaves unused is not among
them. -/

namespace Dmg

variable {mem mem' : View} {imm : UInt16} {regs : Registers}

theorem View.word_congr {a : UInt16} (h : mem a = mem' a) (h' : mem (a + 1) = mem' (a + 1)) :
    mem.word a = mem'.word a := by
  rw [word, word, h, h']

/-! ### Operands -/

/-- The immediate bytes that give an address. -/
def Mode.immediates (m : Mode) (imm : UInt16) : List UInt16 :=
  match m with
  | .high => [imm]
  | .direct => [imm, imm + 1]
  | _ => []

/-- The immediate bytes by which an operand is found. -/
def Operand.immediates (o : Operand) (imm : UInt16) : List UInt16 :=
  match o with
  | .reg _ => []
  | .mem m => m.immediates imm
  | .imm => [imm]

/-- The address at which a location holds its byte, if it is one in memory. -/
def Location.addresses : Location → List UInt16
  | .memory a => [a]
  | _ => []

/-- The bytes from which an operand is loaded. -/
def Operand.reads (o : Operand) (mem : View) (imm : UInt16) (regs : Registers) : List UInt16 :=
  o.immediates imm ++ (o.resolve mem imm regs).1.addresses

theorem Mode.address_congr {m : Mode} (h : ∀ a ∈ m.immediates imm, mem a = mem' a) :
    m.address mem imm regs = m.address mem' imm regs := by
  cases m with
  | high => rw [address, address, h imm List.mem_cons_self]
  | direct => exact View.word_congr (h _ List.mem_cons_self) (h _ (.tail _ List.mem_cons_self))
  | _ => rfl

theorem Operand.resolve_congr {o : Operand} (h : ∀ a ∈ o.immediates imm, mem a = mem' a) :
    o.resolve mem imm regs = o.resolve mem' imm regs := by
  cases o with
  | reg r => rfl
  | mem m => rw [resolve, resolve, Mode.address_congr h]
  | imm => rw [resolve, resolve, h imm List.mem_cons_self]

theorem Location.get_congr {l : Location} (h : ∀ a ∈ l.addresses, mem a = mem' a) :
    l.get mem regs = l.get mem' regs := by
  cases l with
  | memory a => exact h a List.mem_cons_self
  | _ => rfl

/-- An operand is found and loaded alike. -/
theorem Operand.load_congr {o : Operand} (h : ∀ a ∈ o.reads mem imm regs, mem a = mem' a) :
    o.resolve mem' imm regs = o.resolve mem imm regs ∧ ∀ regs',
      (o.resolve mem imm regs).1.get mem' regs' = (o.resolve mem imm regs).1.get mem regs' := by
  obtain ⟨himm, hget⟩ := List.forall_mem_append.1 h
  exact ⟨(resolve_congr himm).symm, fun _ => (Location.get_congr hget).symm⟩

theorem alter_congr {target : Operand} {f : UInt8 → Flags → UInt8 × Flags}
    (h : ∀ a ∈ target.reads mem imm regs, mem a = mem' a) :
    alter target f mem' imm regs = alter target f mem imm regs := by
  obtain ⟨hresolve, hget⟩ := Operand.load_congr h
  simp only [alter, hresolve, hget]

/-! ### Operations -/

namespace Op

/-- The addresses of the bytes that an operation uses. -/
def reads (op : Op) (mem : View) (imm : UInt16) (regs : Registers) : List UInt16 :=
  match op with
  | .load dst src => src.reads mem imm regs ++ dst.immediates imm
  | .loadPair _ | .storeSp => [imm, imm + 1]
  | .loadHlSp | .addSp => [imm]
  | .pop _ | .reti => [regs.sp, regs.sp + 1]
  | .alu _ o | .inc o | .dec o | .shift _ o | .bit _ o | .res _ o | .set _ o =>
    o.reads mem imm regs
  | .jp cond | .call cond => if branches cond regs.flags then [imm, imm + 1] else []
  | .jr cond => if branches cond regs.flags then [imm] else []
  | .ret cond => if branches cond regs.flags then [regs.sp, regs.sp + 1] else []
  | _ => []

/-- Of memory, an operation depends on the bytes that it uses. -/
theorem apply_congr {op : Op} (h : ∀ a ∈ op.reads mem imm regs, mem a = mem' a) :
    op.apply mem' imm regs = op.apply mem imm regs := by
  have hword {a : UInt16} (ha : ∀ b ∈ [a, a + 1], mem b = mem' b) : mem'.word a = mem.word a :=
    (View.word_congr (ha _ List.mem_cons_self) (ha _ (.tail _ List.mem_cons_self))).symm
  have hbyte {a : UInt16} (ha : ∀ b ∈ [a], mem b = mem' b) : mem' a = mem a :=
    (ha a List.mem_cons_self).symm
  cases op with
  | load dst src =>
    obtain ⟨hsrc, hdst⟩ := List.forall_mem_append.1 h
    obtain ⟨hresolve, hget⟩ := Operand.load_congr hsrc
    simp only [apply, hresolve, hget, Operand.resolve_congr hdst]
  | loadPair p | storeSp => simp only [apply, hword h]
  | loadHlSp | addSp => simp only [apply, hbyte h]
  | pop p | reti => simp only [apply, Registers.popWord, hword h]
  | alu op src | bit b src =>
    obtain ⟨hresolve, hget⟩ := Operand.load_congr h
    simp only [apply, hresolve, hget]
  | inc target | dec target | shift s target | res b target | set b target =>
    simp only [apply, alter_congr h]
  | jp cond | call cond =>
    -- A branch that is not taken uses nothing.
    simp only [apply]
    split
    · next hb =>
      rw [reads, if_pos hb] at h
      simp only [hword h]
    · rfl
  | jr cond =>
    simp only [apply]
    split
    · next hb =>
      rw [reads, if_pos hb] at h
      simp only [hbyte h]
    · rfl
  | ret cond =>
    simp only [apply]
    split
    · next hb =>
      rw [reads, if_pos hb] at h
      simp only [Registers.popWord, hword h]
    · rfl
  | _ => rfl

end Op

/-! ### Instructions -/

namespace Cpu
variable {cpu : Cpu} {irq irq' : Interrupts}

/-- The bytes of the opcode at the program counter. -/
def opcodeReads (cpu : Cpu) (mem : View) : List UInt16 :=
  cpu.regs.pc :: if mem cpu.regs.pc = prefixByte then [cpu.regs.pc + 1] else []

/-- The bytes that an instruction found at the program counter uses. -/
def operandReads (cpu : Cpu) (i : Instruction) (mem : View) : List UInt16 :=
  i.op.reads mem (cpu.regs.pc + 1) { cpu.regs with pc := cpu.regs.pc + i.size.toUInt16 }

/-- The addresses of the bytes that a free processor uses on this cycle. A dispatch uses none. -/
def reads (cpu : Cpu) (irq : Interrupts) (mem : View) : List UInt16 :=
  match cpu.pendingLine? irq, cpu.fetch mem with
  | some _, _ => []
  | none, .ok i => cpu.opcodeReads mem ++ cpu.operandReads i mem
  | none, .error _ => cpu.opcodeReads mem

theorem fetch_congr (h : ∀ a ∈ cpu.opcodeReads mem, mem a = mem' a) :
    cpu.fetch mem' = cpu.fetch mem := by
  have hpc : mem cpu.regs.pc = mem' cpu.regs.pc := h _ List.mem_cons_self
  simp only [fetch, ← hpc]
  split
  · next hp =>
    have hnext := h (cpu.regs.pc + 1) (by simp [opcodeReads, hp])
    rw [hnext]
  · rfl

theorem execute_congr {i : Instruction} (h : ∀ a ∈ cpu.operandReads i mem, mem a = mem' a) :
    cpu.execute i mem' = cpu.execute i mem := by
  simp only [execute, Op.apply_congr h]

theorem pendingLine?_congr (h : irq'.active = irq.active) :
    cpu.pendingLine? irq' = cpu.pendingLine? irq := by
  rw [pendingLine?, pendingLine?, h]

/-- What a free processor starts depends on the active lines and on the bytes that it uses. -/
theorem start_congr (hact : irq'.active = irq.active)
    (h : ∀ a ∈ cpu.reads irq mem, mem a = mem' a) :
    cpu.start irq' mem' = cpu.start irq mem := by
  rw [start, start, pendingLine?_congr hact]
  cases hl : cpu.pendingLine? irq with
  | some l => rfl
  | none =>
    cases hi : cpu.fetch mem with
    | ok i =>
      simp only [reads, hl, hi, List.forall_mem_append] at h
      obtain ⟨hopcode, hoperand⟩ := h
      rw [fetch_congr hopcode, hi]
      exact congrArg Except.ok (execute_congr hoperand)
    | error e =>
      simp only [reads, hl, hi] at h
      rw [fetch_congr h, hi]
      rfl

end Cpu

/-! ### Steps -/

namespace Machine
variable {π : Type} [HostDevice π] {m m' : Machine π}

/-- The addresses of the bytes that the next step of the processor uses. -/
def consulted (m : Machine π) : List UInt16 :=
  if m.Free then m.cpu.reads m.bus.irq m.bus.read else []

/-- A step of the processor finds the same in both machines. -/
structure Agrees (m m' : Machine π) : Prop where
  cpu : m'.cpu = m.cpu
  active : m'.bus.irq.active = m.bus.irq.active
  read : ∀ a ∈ m.consulted, m'.bus.read a = m.bus.read a

namespace Agrees

theorem free_iff (h : m.Agrees m') : m'.Free ↔ m.Free := by
  rw [Free, Free, h.cpu, h.active]

theorem work (h : m.Agrees m') (hf : m.Free) : m'.work = m.work := by
  have hread : ∀ a ∈ m.cpu.reads m.bus.irq m.bus.read, m.bus.read a = m'.bus.read a := by
    intro a ha
    exact (h.read a (by rwa [consulted, if_pos hf])).symm
  -- The phase has no part in what a processor reads.
  rw [Machine.work, Machine.work, h.cpu]
  exact Cpu.start_congr h.active hread

theorem begun (h : m.Agrees m') : m'.begun = m.begun := by
  rw [Machine.begun, Machine.begun]
  by_cases hf : m.Free
  · rw [if_pos hf, if_pos (h.free_iff.2 hf), h.work hf]
  · rw [if_neg hf, if_neg fun hf' => hf (h.free_iff.1 hf')]

/-- A step fails alike, and leaves the processor alike. -/
theorem stepCpu (h : m.Agrees m') : m'.stepCpu.failure = m.stepCpu.failure ∧
    m'.stepCpu.machine.cpu = m.stepCpu.machine.cpu := by
  rcases m.step_cases with ⟨act, n, hp⟩ | ⟨hp, ha⟩ | ⟨w, hw⟩ | ⟨hf, e, he⟩
  · rw [stepCpu_busy hp, stepCpu_busy (h.cpu ▸ hp), h.cpu]
    exact ⟨rfl, rfl⟩
  · rw [stepCpu_idle hp ha, stepCpu_idle (h.cpu ▸ hp) (h.active ▸ ha)]
    exact ⟨rfl, h.cpu⟩
  · obtain ⟨hm, hnone⟩ := stepCpu_begun hw
    obtain ⟨hm', hnone'⟩ := stepCpu_begun (h.begun.trans hw)
    rw [hm, hm', hnone, hnone']
    exact ⟨rfl, rfl⟩
  · obtain ⟨hm, hsome⟩ := stepCpu_refused hf he
    obtain ⟨hm', hsome'⟩ := stepCpu_refused (h.free_iff.2 hf) ((h.work hf).trans he)
    rw [hm, hm', hsome, hsome', h.cpu]
    exact ⟨rfl, rfl⟩

end Agrees

end Machine

end Dmg
