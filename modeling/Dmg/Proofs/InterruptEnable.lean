import Dmg.Proofs.Enabling

/-! # When interrupts come on

After EI, IME is still off when the next instruction starts, and on when that instruction is over
unless it is DI or another EI (`Course.ime_after_ei`). After a reset, a DI or a dispatch it stays off
until RETI, or until an EI takes effect that came later (`Course.stays_off`). -/

namespace Dmg

namespace Machine
variable {π : Type} [HostDevice π] {m m₀ m₁ : Machine π} {H : List (List Milestone)}

/-! ### The instruction after EI -/

/-- A ready processor that begins nothing stays ready. -/
theorem Course.ready_of_not_began (h : Course m₀ H m) (hp : m₀.cpu.phase = .ready)
    (hH : ∀ act, .began act ∉ H.flatten) : m.cpu.phase = .ready ∧ H.flatten = [] := by
  induction h with
  | start => exact ⟨hp, rfl⟩
  | handled _ hh ih => rw [hh.cpu]; exact ih hH
  | @step H m _ ih =>
    rw [List.flatten_append, List.flatten_singleton] at hH ⊢
    obtain ⟨hready, hnil⟩ := ih fun act hact => hH act (List.mem_append_left _ hact)
    rw [hnil, List.nil_append] at hH ⊢
    cases hw : m.work with
    | ok w =>
      have hb := begun_of_work (.inl hready) hw
      exact absurd (by rw [milestones_begun hb]; simp) (hH w.act)
    | error e =>
      rw [(stepCpu_refused (.inl hready) hw).1]
      exact ⟨rfl, milestones_refused (.inl hready) hw⟩

/-- With interrupts off, a ready processor executes the instruction at the program counter. -/
theorem begun_of_fetch {i : Instruction} (hp : m.cpu.phase = .ready) (hoff : m.cpu.ime = false)
    (hi : m.cpu.fetch m.bus.read = .ok i) : m.begun = some (m.cpu.execute i m.bus.read) := by
  refine begun_of_work (.inl hp) (work_eq_ok.2 (.inr ⟨by simp [Cpu.pendingLine?, hoff], i, hi, ?_⟩))
  rw [← hp]

/-- The step that executes EI leaves it waiting, and the processor ready. -/
theorem stepCpu_ei {i : Instruction} (hp : m.cpu.phase = .ready) (hoff : m.cpu.ime = false)
    (hi : m.cpu.fetch m.bus.read = .ok i) (ho : i.op = .ei) :
    m.stepCpu.machine.cpu.phase = .ready ∧ m.stepCpu.machine.cpu.enabling = ⟨false, true⟩ := by
  have hw := begun_of_fetch hp hoff hi
  have hc : ¬ (m.cpu.execute i m.bus.read).cost > 1 := by
    rw [Cpu.execute_ei (Cpu.fetch_listed hi) ho]; decide
  constructor
  · rw [phase_stepCpu_begun hw, if_neg hc]
    simp [Cpu.execute, Cpu.control, ho, hp]
  · rw [enabling_stepCpu, milestones_begun hw, if_neg hc]
    simp [Cpu.execute, Enabling.turn, Cpu.enabling, ho, hoff]

/-- EI is executed at `m`, and `m₁` comes before the next instruction starts. -/
theorem Course.ime_after_ei {i : Instruction} (hp : m.cpu.phase = .ready) (hoff : m.cpu.ime = false)
    (hi : m.cpu.fetch m.bus.read = .ok i) (ho : i.op = .ei)
    (h : Course m.stepCpu.machine H m₁) (hH : ∀ act, .began act ∉ H.flatten) :
    m₁.cpu.ime = false ∧
    ∀ x, m₁.cpu.fetch m₁.bus.read = .ok x →
      m₁.begun = some (m₁.cpu.execute x m₁.bus.read) ∧
      ∀ H' m₂, Course m₁.stepCpu.machine H' m₂ →
        H'.length + 1 = (m₁.cpu.execute x m₁.bus.read).cost.toNat →
        (m₂.cpu.ime = true ↔ x.op ≠ .di ∧ x.op ≠ .ei) := by
  obtain ⟨hready, hen⟩ := stepCpu_ei hp hoff hi ho
  obtain ⟨hready, hnil⟩ := h.ready_of_not_began hready hH
  have hwait : m₁.cpu.enabling = ⟨false, true⟩ := by
    rw [h.enabling, hnil]; exact hen
  have hime : m₁.cpu.ime = false := congrArg Enabling.ime hwait
  refine ⟨hime, fun x hx => ?_⟩
  have hw := begun_of_fetch hready hime hx
  refine ⟨hw, fun H' m₂ h' hlen => ?_⟩
  -- over the cycles of `x` the milestones are its beginning and its end
  have hall := (h'.occupied hw (by omega)).2
  rw [if_neg (by omega)] at hall
  have hm₂ := h'.enabling_stepCpu
  rw [hall, hwait] at hm₂
  show m₂.cpu.enabling.ime = true ↔ _
  rw [hm₂]
  cases hop : x.op <;> simp [Cpu.execute, Enabling.turn, hop, Enabling.off]

/-- EI; LD A,0x42: the load takes two cycles, and IME is on after them. -/
theorem ime_after_ei_load :
    (ofProgram [0xFB, 0x3E, 0x42]).cpu.ime = false ∧
    (ofProgram [0xFB, 0x3E, 0x42]).stepCpu.machine.stepCpu.machine.stepCpu.machine.cpu.ime = true :=
  ⟨rfl, (((Course.ime_after_ei (m := ofProgram [0xFB, 0x3E, 0x42])
    (i := ⟨.ei, 0xFB, false, 1, 1, 0⟩) rfl rfl rfl rfl .start (by simp)).2
    ⟨.load (.reg .a) .imm, 0x3E, false, 2, 2, 0⟩ rfl).2 _ _ (.step .start) rfl).2
    ⟨nofun, nofun⟩⟩

/-- After EI; EI the enable is still waiting: the second EI does not let the first take effect. -/
theorem not_ime_after_ei_ei : ¬ ∀ (m m₁ m₂ : Machine Probe) (i x : Instruction)
    (H H' : List (List Milestone)), m.Reachable → m.cpu.phase = .ready → m.cpu.ime = false →
      m.cpu.fetch m.bus.read = .ok i → i.op = .ei → Course m.stepCpu.machine H m₁ →
      (∀ act, .began act ∉ H.flatten) → m₁.cpu.fetch m₁.bus.read = .ok x → x.op ≠ .di →
      Course m₁.stepCpu.machine H' m₂ →
      H'.length + 1 = (m₁.cpu.execute x m₁.bus.read).cost.toNat → m₂.cpu.ime = true := by
  intro h
  have hon := h (ofProgram [0xFB, 0xFB]) _ _ ⟨.ei, 0xFB, false, 1, 1, 0⟩
    ⟨.ei, 0xFB, false, 1, 1, 0⟩ [] [] ⟨_, _, fresh_ofProgram _, .start⟩ rfl rfl rfl rfl .start
    (by simp) rfl nofun .start rfl
  cases hon

/-! ### After a reset, a DI or a dispatch -/

theorem Course.stays_off {A T : List Milestone} (h₀ : m₀.Fresh) (h : Course m₀ H m)
    (hH : H.flatten = A ++ T) (hA : A = [] ∨ ∃ x ∈ A.getLast?, x.Disables) :
    (m.cpu.ime = true → Grants T) ∧ (m.cpu.eiArmed = true → Arms T) ∧
      ∀ B l C, T = B ++ .began (.dispatch l) :: C → Grants B := by
  have hseq : Sequential T := (List.isChain_append.1 (hH ▸ h.sequential h₀)).2.1
  have hoff : A.foldl .turn m₀.cpu.enabling = .off := by
    rcases hA with rfl | ⟨x, hx, hdis⟩
    · rw [h₀.1]; rfl
    · exact Enabling.foldl_turn_of_disables _ hx hdis
  have hm : m.cpu.enabling = T.foldl .turn .off := by
    rw [h.enabling, hH, List.foldl_append, hoff]
  obtain ⟨hg, ha⟩ := Enabling.foldl_turn_off hseq
  refine ⟨fun hime => hg (hm ▸ hime), fun harm => ha (hm ▸ harm), ?_⟩
  rintro B l C rfl
  have hB := h.ime_of_dispatch (A := A ++ B) (by rw [hH, List.append_assoc])
  rw [List.foldl_append, hoff] at hB
  exact (Enabling.foldl_turn_off (List.isChain_append.1 hseq).1).1 hB

/-- EI; DI; EI; NOP: IME is on at the end, granted by what came after DI. -/
theorem grants_after_di : ∃ m H A T, Course (ofProgram [0xFB, 0xF3, 0xFB, 0x00]) H m ∧
    H.flatten = A ++ T ∧ A.getLast? = some (.began (.execute ⟨.di, 0xF3, false, 1, 1, 0⟩)) ∧
    m.cpu.ime = true ∧ Grants T := by
  have h := (Course.start : Course (ofProgram [0xFB, 0xF3, 0xFB, 0x00]) [] _).step.step.step.step
  refine ⟨_, _, _, _, h, (List.take_append_drop 3 _).symm, rfl, rfl, ?_⟩
  exact (h.stays_off (fresh_ofProgram _) (List.take_append_drop 3 _).symm
    (.inr ⟨.began (.execute ⟨.di, 0xF3, false, 1, 1, 0⟩), rfl, rfl⟩)).1 rfl

end Machine

end Dmg
