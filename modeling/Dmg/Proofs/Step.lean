import Dmg.Machine

/-! # One step of the processor

A step counts down, waits, fails, or begins an activity. `Machine.begun` is the work a step begins,
if it begins any; `stepCpu_busy`, `stepCpu_idle`, `stepCpu_begun` and `stepCpu_refused` give the
whole step in each case, and `step_cases` says that there are no others. -/

namespace Dmg

namespace Bus
variable {π : Type} [HostDevice π]

/-- The bus after writes made one after the other. -/
def store (bus : Bus π) (ws : List Write) : Bus π :=
  ws.foldl (fun b w => b.write w.address w.value) bus

theorem store_cons (bus : Bus π) (w : Write) (ws : List Write) :
    bus.store (w :: ws) = (bus.write w.address w.value).store ws := rfl

end Bus

namespace Machine
variable {π : Type} [HostDevice π] {m : Machine π}

/-- The next step of the processor begins something: it is ready, or a line wakes it. -/
def Free (m : Machine π) : Prop :=
  m.cpu.phase = .ready ∨ m.cpu.phase = .halted ∧ m.bus.irq.active ≠ 0

instance (m : Machine π) : Decidable m.Free :=
  inferInstanceAs (Decidable (_ ∨ _ ∧ _))

/-- What a processor that is free begins. -/
def work (m : Machine π) : Except IllegalOpcode Work :=
  { m.cpu with phase := .ready }.start m.bus.irq m.bus.read

/-- The work that the next step begins, if it begins any. -/
def begun (m : Machine π) : Option Work :=
  if m.Free then m.work.toOption else none

/-! ### The four kinds of step -/

theorem stepCpu_busy {act : Activity} {n : UInt8} (h : m.cpu.phase = .busy act n) :
    m.stepCpu = { machine := { m with cpu := m.cpu.countDown act n } } := by
  simp [stepCpu, h]

theorem stepCpu_idle (h : m.cpu.phase = .halted) (ha : m.bus.irq.active = 0) :
    m.stepCpu = { machine := m } := by
  simp [stepCpu, h, ha]

/-- Waking from a halt changes nothing but the phase, so a free processor starts its work alike from
either, behind the record that it wakes. -/
theorem stepCpu_of_free (h : m.Free) :
    m.stepCpu = startWork { m with cpu := { m.cpu with phase := .ready } }
      (if m.cpu.phase = .halted then #[.leavingHalt m.cycles] else #[]) := by
  rcases h with h | ⟨h, ha⟩
  · have : { m with cpu := { m.cpu with phase := .ready } } = m := by rw [← h]
    rw [this]
    simp [stepCpu, h]
  · simp [stepCpu, h, ha]

theorem stepCpu_begun {w : Work} (h : m.begun = some w) :
    m.stepCpu.machine =
      { cpu := w.cpu.settle w.act w.cost, bus := (acknowledge w.act m.bus).store w.writes,
        cycles := m.cycles } ∧
    m.stepCpu.failure = none := by
  unfold begun at h
  split at h
  · rename_i hf
    have hw : m.work = .ok w := by
      cases hm : m.work <;> simp_all [Except.toOption]
    rw [work] at hw
    rw [stepCpu_of_free hf]
    simp [startWork, hw, Bus.writeAll_fst, Bus.store]
  · cases h

theorem stepCpu_refused (hf : m.Free) {e : IllegalOpcode} (h : m.work = .error e) :
    m.stepCpu.machine = { m with cpu := { m.cpu with phase := .ready } } ∧
    m.stepCpu.failure = some e := by
  rw [work] at h
  rw [stepCpu_of_free hf]
  simp [startWork, h]

theorem begun_of_work (hf : m.Free) {w : Work} (h : m.work = .ok w) : m.begun = some w := by
  simp [begun, hf, h, Except.toOption]

theorem begun_eq_some {w : Work} : m.begun = some w ↔ m.Free ∧ m.work = .ok w := by
  constructor
  · intro h
    unfold begun at h
    split at h
    · cases hm : m.work <;> simp_all [Except.toOption]
    · cases h
  · rintro ⟨hf, h⟩
    exact begun_of_work hf h

theorem begun_of_busy {act : Activity} {n : UInt8} (h : m.cpu.phase = .busy act n) :
    m.begun = none := by
  simp [begun, Free, h]

theorem begun_of_idle (h : m.cpu.phase = .halted) (ha : m.bus.irq.active = 0) :
    m.begun = none := by
  simp [begun, Free, h, ha]

theorem begun_of_refused {e : IllegalOpcode} (h : m.work = .error e) : m.begun = none := by
  simp [begun, h, Except.toOption]

/-- A step counts down, waits, begins work, or is refused. -/
theorem step_cases (m : Machine π) :
    (∃ act n, m.cpu.phase = .busy act n) ∨ (m.cpu.phase = .halted ∧ m.bus.irq.active = 0) ∨
      (∃ w, m.begun = some w) ∨ (m.Free ∧ ∃ e, m.work = .error e) := by
  by_cases hf : m.Free
  · cases hw : m.work with
    | error e => exact .inr (.inr (.inr ⟨hf, e, rfl⟩))
    | ok w => exact .inr (.inr (.inl ⟨w, begun_of_work hf hw⟩))
  · cases hp : m.cpu.phase with
    | busy act n => exact .inl ⟨act, n, rfl⟩
    | ready => exact absurd (.inl hp) hf
    | halted =>
      exact .inr (.inl ⟨rfl, Decidable.byContradiction fun ha => hf (.inr ⟨hp, ha⟩)⟩)

/-- A step reaches the bus through the work it begins alone. -/
theorem stepCpu_bus (m : Machine π) : m.stepCpu.machine.bus =
    match m.begun with
    | some w => (acknowledge w.act m.bus).store w.writes
    | none => m.bus := by
  rcases m.step_cases with ⟨act, n, h⟩ | ⟨h, ha⟩ | ⟨w, h⟩ | ⟨hf, e, h⟩
  · rw [stepCpu_busy h, begun_of_busy h]
  · rw [stepCpu_idle h ha, begun_of_idle h ha]
  · rw [(stepCpu_begun h).1, h]
  · rw [(stepCpu_refused hf h).1, begun_of_refused h]

/-- A step of the processor is no cycle of its own. -/
theorem cycles_stepCpu (m : Machine π) : m.stepCpu.machine.cycles = m.cycles := by
  rcases m.step_cases with ⟨act, n, h⟩ | ⟨h, ha⟩ | ⟨w, h⟩ | ⟨hf, e, h⟩
  · rw [stepCpu_busy h]
  · rw [stepCpu_idle h ha]
  · rw [(stepCpu_begun h).1]
  · rw [(stepCpu_refused hf h).1]

/-! ### What is begun -/

theorem work_def (m : Machine π) : m.work = match m.cpu.pendingLine? m.bus.irq with
    | some l => .ok ({ m.cpu with phase := .ready }.dispatch l)
    | none => (m.cpu.fetch m.bus.read).map ({ m.cpu with phase := .ready }.execute · m.bus.read) := rfl

/-- Work is a dispatch of the line to serve, or the instruction at the program counter when there is
no such line. -/
theorem work_eq_ok {w : Work} : m.work = .ok w ↔
    (∃ l, m.cpu.pendingLine? m.bus.irq = some l ∧ w = { m.cpu with phase := .ready }.dispatch l) ∨
      (m.cpu.pendingLine? m.bus.irq = none ∧ ∃ i, m.cpu.fetch m.bus.read = .ok i ∧
        w = { m.cpu with phase := .ready }.execute i m.bus.read) := by
  rw [work_def]
  cases m.cpu.pendingLine? m.bus.irq with
  | some l => simp [eq_comm]
  | none =>
    cases m.cpu.fetch m.bus.read with
    | ok i => simp [Except.map, eq_comm]
    | error e => simp [Except.map]

/-- Work is refused when no line is to be served and the byte at the program counter is no
opcode. -/
theorem work_eq_error {e : IllegalOpcode} : m.work = .error e ↔
    m.cpu.pendingLine? m.bus.irq = none ∧ m.cpu.fetch m.bus.read = .error e := by
  rw [work_def]
  cases m.cpu.pendingLine? m.bus.irq with
  | some l => simp
  | none =>
    cases m.cpu.fetch m.bus.read with
    | ok i => simp [Except.map]
    | error e => simp [Except.map]

end Machine

end Dmg
