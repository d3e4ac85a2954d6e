import Dmg.Proofs.Enabling

/-! # Interrupt arbitration

A processor that is free serves the lowest active line if IME is on, and otherwise takes the
instruction at the program counter (`Reachable.arbitration`). -/

namespace Dmg

theorem Cpu.pendingLine?_eq_some_iff {cpu : Cpu} {irq : Interrupts} {l : Line} :
    cpu.pendingLine? irq = some l ↔ cpu.ime = true ∧ Line.highest? irq.active = some l := by
  unfold pendingLine?
  split <;> simp_all

theorem Cpu.pendingLine?_eq_none_iff {cpu : Cpu} {irq : Interrupts} (h : irq.Narrow) :
    cpu.pendingLine? irq = none ↔ ¬ (cpu.ime = true ∧ irq.active ≠ 0) := by
  unfold pendingLine?
  split
  · rw [Line.highest?_eq_none_iff h.active]; simp_all
  · simp_all

theorem Bus.irq_write_of_ne {π : Type} [HostDevice π] {bus : Bus π} {a : UInt16} {v : UInt8}
    (hf : a ≠ ifAddress) (he : a ≠ ieAddress) : (bus.write a v).irq = bus.irq := by
  simp only [write]
  split
  · exact Interrupts.write_of_ne hf he v
  · rfl

namespace Machine
variable {π : Type} [HostDevice π] {m : Machine π} {l : Line}

/-- The next step begins to serve the line. -/
def Dispatches (m : Machine π) (l : Line) : Prop := .began (.dispatch l) ∈ m.milestones

/-- What the next step does when it executes the instruction. -/
structure Executes (m : Machine π) (i : Instruction) : Prop where
  begins : .began (.execute i) ∈ m.milestones
  failure : m.stepCpu.failure = none
  /-- All of the effect is there at the end of the step, whatever of the cost is left. -/
  machine : m.stepCpu.machine =
    let w := ({ m.cpu with phase := .ready } : Cpu).execute i m.bus.read
    { m with cpu := w.cpu.settle w.act w.cost, bus := m.bus.store w.writes }

/-- What the next step does when it fails: nothing but end a halt. -/
structure Fails (m : Machine π) (e : IllegalOpcode) : Prop where
  failure : m.stepCpu.failure = some e
  machine : m.stepCpu.machine = { m with cpu.phase := .ready }

/-- The next step takes the instruction at the program counter, and executes it or fails on it. -/
def Fetches (m : Machine π) : Prop :=
  match m.cpu.fetch m.bus.read with
  | .ok i => m.Executes i
  | .error e => m.Fails e

/-- What the next step does when it serves the line. -/
structure Serves (m : Machine π) (l : Line) : Prop where
  failure : m.stepCpu.failure = none
  ime : m.stepCpu.machine.cpu.ime = false
  eiArmed : m.stepCpu.machine.cpu.eiArmed = false
  regs : m.stepCpu.machine.cpu.regs =
    { m.cpu.regs with pc := 0x40 + 8 * l.index.toUInt16, sp := m.cpu.regs.sp - 2 }
  /-- The program counter goes to the stack, low byte first, once the line is acknowledged. -/
  bus : m.stepCpu.machine.bus = ((m.bus.clear l).write (m.cpu.regs.sp - 2) (lo m.cpu.regs.pc)).write
    (m.cpu.regs.sp - 1) (hi m.cpu.regs.pc)
  irq : (∀ a ∈ [m.cpu.regs.sp - 1, m.cpu.regs.sp - 2], a ≠ ifAddress ∧ a ≠ ieAddress) →
    m.stepCpu.machine.bus.irq.pending = m.bus.irq.pending &&& ~~~l.mask ∧
    m.stepCpu.machine.bus.irq.enabled = m.bus.irq.enabled
  /-- The step is the first of five, with interrupts off throughout. -/
  occupied : ∀ H m', Course m.stepCpu.machine H m' → H.length ≤ 4 →
    m'.cpu.phase = (if H.length < 4 then .busy (.dispatch l) (.ofNat (4 - H.length)) else .ready) ∧
    m'.cpu.ime = false ∧ m'.cpu.eiArmed = false

theorem dispatches_iff (hf : m.Free) :
    m.Dispatches l ↔ m.cpu.pendingLine? m.bus.irq = some l := by
  constructor
  · intro h
    obtain ⟨w, hw, hact⟩ := begun_of_mem h
    rcases work_eq_ok.1 (begun_eq_some.1 hw).2 with ⟨l', hl, rfl⟩ | ⟨-, i, -, rfl⟩
    · cases hact; exact hl
    · cases hact
  · intro h
    have hw := begun_of_work hf (work_eq_ok.2 (.inl ⟨l, h, rfl⟩))
    rw [Dispatches, milestones_begun hw]
    exact List.mem_cons_self

theorem fetches_of_pendingLine? (hf : m.Free) (h : m.cpu.pendingLine? m.bus.irq = none) :
    m.Fetches := by
  unfold Fetches
  cases hi : m.cpu.fetch m.bus.read with
  | ok i =>
    have hw := begun_of_work hf (work_eq_ok.2 (.inr ⟨h, i, hi, rfl⟩))
    obtain ⟨hm, hfail⟩ := stepCpu_begun hw
    refine ⟨?_, hfail, hm⟩
    rw [milestones_begun hw]
    exact List.mem_cons_self
  | error e =>
    obtain ⟨hm, hfail⟩ := stepCpu_refused hf (work_eq_error.2 ⟨h, hi⟩)
    exact ⟨hfail, hm⟩

theorem fetches_iff (hf : m.Free) : m.Fetches ↔ m.cpu.pendingLine? m.bus.irq = none := by
  refine ⟨fun h => ?_, fetches_of_pendingLine? hf⟩
  cases hl : m.cpu.pendingLine? m.bus.irq with
  | none => rfl
  | some l =>
    have hw := begun_of_work hf (work_eq_ok.2 (.inl ⟨l, hl, rfl⟩))
    unfold Fetches at h
    split at h
    · have hbegins := h.begins
      rw [milestones_begun hw] at hbegins
      split at hbegins <;> simp [Cpu.dispatch] at hbegins
    · have hfail := h.failure
      rw [(stepCpu_begun hw).2] at hfail
      cases hfail

theorem serves_of_pendingLine? (hf : m.Free) (h : m.cpu.pendingLine? m.bus.irq = some l) :
    m.Serves l := by
  have hw := begun_of_work hf (work_eq_ok.2 (.inl ⟨l, h, rfl⟩))
  obtain ⟨hm, hfail⟩ := stepCpu_begun hw
  have hsp : m.cpu.regs.sp - 2 + 1 = m.cpu.regs.sp - 1 := by grind
  have hbus : m.stepCpu.machine.bus = ((m.bus.clear l).write (m.cpu.regs.sp - 2)
      (lo m.cpu.regs.pc)).write (m.cpu.regs.sp - 1) (hi m.cpu.regs.pc) := by
    rw [hm, ← hsp]; rfl
  refine ⟨hfail, by rw [hm]; rfl, by rw [hm]; rfl, by rw [hm]; rfl, hbus, fun ha => ?_, ?_⟩
  · have h1 := ha (m.cpu.regs.sp - 1) (by simp)
    have h2 := ha (m.cpu.regs.sp - 2) (by simp)
    rw [hbus, Bus.irq_write_of_ne h1.1 h1.2, Bus.irq_write_of_ne h2.1 h2.2]
    exact ⟨rfl, rfl⟩
  · intro H m' h' hH
    obtain ⟨hphase, hmiles⟩ := h'.occupied hw (Nat.lt_succ_of_le hH)
    have hoff : m'.cpu.enabling = .off := by
      rw [h'.enabling_stepCpu, hmiles]
      split <;> rfl
    have h5 : H.length + 1 < 5 ↔ H.length < 4 := by omega
    have h4 : 5 - (H.length + 1) = 4 - H.length := by omega
    refine ⟨?_, congrArg Enabling.ime hoff, congrArg Enabling.armed hoff⟩
    rw [hphase]
    show (if H.length + 1 < 5 then _ else _) = _
    simp only [h5, ← h4]
    rfl

/-- A free processor serves a line if and only if IME is on and some line is active, and then the
lowest; otherwise it fetches. -/
theorem Reachable.arbitration (hr : m.Reachable) (hf : m.Free) :
    ((∃ l, m.Dispatches l) ↔ m.cpu.ime = true ∧ m.bus.irq.active ≠ 0) ∧
    (m.Fetches ↔ ¬ (m.cpu.ime = true ∧ m.bus.irq.active ≠ 0)) ∧
    ∀ l, m.Dispatches l → Line.Lowest m.bus.irq.active l ∧ m.Serves l := by
  have hnone : m.cpu.pendingLine? m.bus.irq = none ↔ _ := Cpu.pendingLine?_eq_none_iff hr.narrow
  refine ⟨?_, (fetches_iff hf).trans hnone, fun l hl => ?_⟩
  · rw [← not_iff_not, ← hnone, not_exists]
    simp only [dispatches_iff hf]
    exact Option.eq_none_iff_forall_ne_some.symm
  · have hl := (dispatches_iff hf).1 hl
    exact ⟨Line.lowest_of_highest? (Cpu.pendingLine?_eq_some_iff.1 hl).2,
      serves_of_pendingLine? hf hl⟩

/-- EI; NOP, then two enabled lines are requested: the timer is served and not the joypad. -/
theorem serves_timer : ∃ m : Machine Probe, m.Reachable ∧ m.Free ∧ m.Dispatches .timer ∧
    m.bus.irq.active = 0x14 ∧ Line.Lowest m.bus.irq.active .timer ∧ m.Serves .timer := by
  have h : Course (ofProgram [0xFB, 0x00]) _ _ := Course.start.step.step.handled (.irq ieAddress 0x14)
  have hr : Reachable _ :=
    ⟨_, _, fresh_ofProgram _, (h.handled (.request .joypad)).handled (.request .timer)⟩
  refine ⟨_, hr, .inl rfl, List.mem_cons_self, rfl, ?_⟩
  exact (hr.arbitration (.inl rfl)).2.2 .timer List.mem_cons_self

end Machine

end Dmg
