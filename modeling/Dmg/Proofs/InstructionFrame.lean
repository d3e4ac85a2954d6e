import Dmg.Proofs.Enabling
import Dmg.Proofs.Loading
import Dmg.Proofs.Modification
import Dmg.Proofs.Wiring

/-! # What an instruction leaves alone

An instruction changes the registers that it names as its targets (`Op.targets`) and no others, and
of the flags it leaves what `Op.LeavesFlags` says. It reaches the interrupt registers through its
writes alone, and IME comes on or goes off by DI and RETI, or by an EI that waited for it to end
(`Machine.Finds.framed`). -/

namespace Dmg

/-! ### Registers -/

def Pair.halves : Pair → List Reg
  | .bc => [.b, .c]
  | .de => [.d, .e]
  | .hl => [.h, .l]
  | .sp => []

/-- The other half of AF is the flags. -/
def StackPair.halves : StackPair → List Reg
  | .bc => [.b, .c]
  | .de => [.d, .e]
  | .hl => [.h, .l]
  | .af => [.a]

namespace Operand

def register : Operand → List Reg
  | .reg r => [r]
  | _ => []

/-- The registers that move when the address of the operand is taken. -/
def moved : Operand → List Reg
  | .mem .hlInc | .mem .hlDec => [.h, .l]
  | _ => []

theorem hlStep_eq_zero {o : Operand} {r : Reg} (hr : r ∉ o.moved) (h : r = .h ∨ r = .l) :
    o.hlStep = 0 := by
  rcases o with r' | mode | _
  · rfl
  · cases mode with
    | hlInc | hlDec => rcases h with rfl | rfl <;> simp [moved] at hr
    | _ => rfl
  · rfl

end Operand

namespace Registers
variable (regs : Registers) {r : Reg}

theorem get_setPair {p : Pair} (h : r ∉ p.halves) (v : UInt16) :
    (regs.setPair p v).get r = regs.get r := by
  cases p <;> cases r <;> first | rfl | simp [Pair.halves] at h

theorem get_setStackPair {p : StackPair} (h : r ∉ p.halves) (v : UInt16) :
    (regs.setStackPair p v).get r = regs.get r := by
  cases p <;> cases r <;> first | rfl | simp [StackPair.halves] at h

/-- The stack pointer, the program counter and the flags are none of the single registers. -/
theorem get_with (sp pc : UInt16) (flags : Flags) (r : Reg) :
    { regs with sp, pc, flags }.get r = regs.get r := by
  cases r <;> rfl

theorem get_with_a (h : r ≠ .a) (a : UInt8) (pc : UInt16) (flags : Flags) :
    { regs with a, pc, flags }.get r = regs.get r := by
  cases r <;> first | rfl | exact absurd rfl h

end Registers

namespace Op
variable {op : Op} {mem : View} {regs : Registers} {r : Reg} {pc : UInt16}

/-- The registers that an instruction may change. -/
def targets : Op → List Reg
  | .load dst src => dst.register ++ dst.moved ++ src.moved
  | .inc t | .dec t | .shift _ t | .res _ t | .set _ t => t.register
  | .alu .cp _ => []
  | .alu _ _ | .rotateA _ | .daa | .cpl => [.a]
  | .loadPair p | .incPair p | .decPair p => p.halves
  | .pop p => p.halves
  | .addHl _ | .loadHlSp => [.h, .l]
  | _ => []

theorem get_alter {t : Operand} (h : (∃ r, t = .reg r) ∨ t = .mem .hl) (hr : r ∉ t.register)
    (f : UInt8 → Flags → UInt8 × Flags) :
    (alter t f mem (regs.pc + 1) { regs with pc }).regs.get r = regs.get r := by
  rcases h with ⟨r', rfl⟩ | rfl
  · have hne : r ≠ r' := by simpa [Operand.register] using hr
    refine (Registers.get_with _ _ _ _ r).trans ((Registers.get_set_of_ne _ _ hne).trans ?_)
    exact regs.get_with regs.sp pc regs.flags r
  · exact regs.get_with regs.sp pc _ r

theorem get_load {dst src : Operand} (h : (Op.load dst src).StandsAt mem regs.pc)
    (hr : r ∉ (Op.load dst src).targets) :
    ((Op.load dst src).apply mem (regs.pc + 1) { regs with pc }).regs.get r = regs.get r := by
  replace hr : r ∉ dst.register ++ dst.moved ++ src.moved := hr
  simp only [List.mem_append, not_or] at hr
  obtain ⟨⟨hdst, hmoved⟩, hmoved'⟩ := hr
  obtain ⟨t, rfl, ht⟩ | ⟨mode, rfl, hsrc⟩ := h.load_operands
  · rw [apply_load_reg]
    refine (Loaded.set ht).others r ?_ (Operand.hlStep_eq_zero hmoved')
    rintro ⟨⟩
    exact hdst List.mem_cons_self
  · rw [apply_load_mem mode _ hsrc]
    exact (Loaded.memory (v := 0) mode).others r nofun (Operand.hlStep_eq_zero hmoved)

theorem get_alu {op : AluOp} {src : Operand} (h : (Op.alu op src).StandsAt mem regs.pc)
    (hr : r ∉ (Op.alu op src).targets) :
    ((Op.alu op src).apply mem (regs.pc + 1) { regs with pc }).regs.get r = regs.get r := by
  rw [apply_alu h]
  by_cases hop : op = .cp
  · subst hop
    exact regs.get_with regs.sp pc _ r
  · have hne : r ≠ .a := by
      rintro rfl
      cases op with
      | cp => exact hop rfl
      | _ => exact hr List.mem_cons_self
    exact regs.get_with_a hne _ pc _

theorem get_apply (h : op.StandsAt mem regs.pc) (hr : r ∉ op.targets) :
    (op.apply mem (regs.pc + 1) { regs with pc := regs.pc + op.size }).regs.get r =
      regs.get r := by
  cases op with
  | load dst src => exact get_load h hr
  | alu op src => exact get_alu h hr
  | inc t => exact get_alter (Modification.of_standsAt (x := .inc) h).2 hr _
  | dec t => exact get_alter (Modification.of_standsAt (x := .dec) h).2 hr _
  | shift s t => exact get_alter (Modification.of_standsAt (x := .shift s) h).2 hr _
  | res b t => exact get_alter (Modification.of_standsAt (x := .res b) h).2 hr _
  | set b t => exact get_alter (Modification.of_standsAt (x := .set b) h).2 hr _
  | bit b t =>
    rcases (Modification.of_standsAt (x := .bit b) h).2 with ⟨t, rfl⟩ | rfl
    all_goals exact regs.get_with regs.sp _ _ r
  | rotateA s | daa | cpl =>
    have hne : r ≠ .a := fun heq => hr (heq ▸ List.mem_cons_self)
    exact regs.get_with_a hne _ _ _
  | loadPair p | incPair p | decPair p =>
    exact (Registers.get_setPair _ hr _).trans (regs.get_with regs.sp _ regs.flags r)
  | pop p => exact (Registers.get_setStackPair _ hr _).trans (regs.get_with _ _ regs.flags r)
  | addHl p | loadHlSp =>
    refine (Registers.get_with _ _ _ _ r).trans ((Registers.get_setPair (p := .hl) _ hr _).trans ?_)
    exact regs.get_with regs.sp _ regs.flags r
  | jp cond | jr cond | call cond | ret cond =>
    simp only [apply]
    split <;> exact regs.get_with _ _ _ r
  | _ => exact regs.get_with _ _ _ r

/-! ### Flags -/

/-- What an instruction at the program counter of `regs` may leave in the flags. -/
def LeavesFlags (op : Op) (mem : View) (regs : Registers) (f : Flags) : Prop :=
  match op with
  | .alu .. | .inc _ | .dec _ | .rotateA _ | .shift .. | .bit .. => True
  | .pop .af => f.toByte = mem regs.sp &&& 0xF0
  | .addHl _ => f.z = regs.flags.z ∧ f.n = false
  | .addSp | .loadHlSp => f.z = false ∧ f.n = false
  | .cpl => f.z = regs.flags.z ∧ f.n = true ∧ f.h = true ∧ f.c = regs.flags.c
  | .scf => f.z = regs.flags.z ∧ f.n = false ∧ f.h = false ∧ f.c = true
  | .ccf => f.z = regs.flags.z ∧ f.n = false ∧ f.h = false ∧ f.c = !regs.flags.c
  | .daa => f.n = regs.flags.n ∧ f.h = false ∧ (regs.flags.c = true → f.c = true)
  | _ => f = regs.flags

theorem flags_load {dst src : Operand} (h : (Op.load dst src).StandsAt mem regs.pc) :
    ((Op.load dst src).apply mem (regs.pc + 1) { regs with pc }).regs.flags = regs.flags := by
  obtain ⟨t, rfl, ht⟩ | ⟨mode, rfl, hsrc⟩ := h.load_operands
  · rw [apply_load_reg]
    exact (Loaded.set ht).flags
  · rw [apply_load_mem mode _ hsrc]
    rfl

theorem leavesFlags_apply (h : op.StandsAt mem regs.pc) : op.LeavesFlags mem regs
    (op.apply mem (regs.pc + 1) { regs with pc := regs.pc + op.size }).regs.flags := by
  cases op with
  | alu | inc | dec | rotateA | shift | bit => trivial
  | load dst src => exact flags_load h
  | res b t => rcases (Modification.of_standsAt (x := .res b) h).2 with ⟨t, rfl⟩ | rfl <;> rfl
  | set b t => rcases (Modification.of_standsAt (x := .set b) h).2 with ⟨t, rfl⟩ | rfl <;> rfl
  | loadPair p | incPair p | decPair p => cases p <;> rfl
  | pop p =>
    cases p with
    | af =>
      refine (Flags.toByte_ofByte _).trans ?_
      rw [View.word, lo_word]
    | bc | de | hl => rfl
  | addHl p => exact ⟨rfl, rfl⟩
  | addSp | loadHlSp => exact ⟨rfl, rfl⟩
  | cpl | scf | ccf => exact ⟨rfl, rfl, rfl, rfl⟩
  | daa =>
    refine ⟨rfl, rfl, fun hc => ?_⟩
    show (regs.flags.c || _) = true
    rw [hc, Bool.true_or]
  | jp cond | jr cond | call cond | ret cond =>
    simp only [apply]
    split <;> rfl
  | _ => rfl

end Op

/-! ### Interrupt registers -/

theorem Interrupts.pending_write (i : Interrupts) {a : UInt16} (h : a ≠ ifAddress) (v : UInt8) :
    (i.write a v).pending = i.pending := by
  rw [write, if_neg h]
  split <;> rfl

namespace Bus
variable {π : Type} [HostDevice π]

/-- What no write changes, no writes change. -/
theorem irq_store_of_forall {σ : Type} (see : Interrupts → σ) {W : List Write}
    (h : ∀ w ∈ W, ∀ i : Interrupts, see (i.write w.address w.value) = see i) (bus : Bus π) :
    see (bus.store W).irq = see bus.irq := by
  induction W generalizing bus with
  | nil => rfl
  | cons w W ih =>
    obtain ⟨hw, hW⟩ := List.forall_mem_cons.1 h
    rw [store_cons, ih hW, write]
    dsimp only
    split
    · exact hw _
    · rfl

theorem pending_store {W : List Write} (h : ∀ w ∈ W, w.address ≠ ifAddress) (bus : Bus π) :
    (bus.store W).irq.pending = bus.irq.pending :=
  irq_store_of_forall (·.pending) (fun w hw i => i.pending_write (h w hw) w.value) bus

theorem enabled_store {W : List Write} (h : ∀ w ∈ W, w.address ≠ ieAddress) (bus : Bus π) :
    (bus.store W).irq.enabled = bus.irq.enabled := by
  refine irq_store_of_forall (·.enabled) (fun w hw i => ?_) bus
  exact (i.enabled_write ..).trans (if_neg (h w hw))

end Bus

/-! ### The interrupt enable -/

namespace Enabling
variable {s : Enabling} {i : Instruction}

theorem turn_began (hei : i.op ≠ .ei) (hdi : i.op ≠ .di) (hreti : i.op ≠ .reti) :
    s.turn (.began (.execute i)) = s := by
  cases hop : i.op <;> simp [turn, hop] at hei hdi hreti ⊢

/-- At the beginning of an instruction IME is turned by DI and RETI alone. -/
theorem turn_began_ime (hdi : i.op ≠ .di) (hreti : i.op ≠ .reti) :
    (s.turn (.began (.execute i))).ime = s.ime := by
  by_cases hei : i.op = .ei
  · simp only [turn, hei]
  · rw [turn_began hei hdi hreti]

/-- At its end IME is turned by an EI that waits for it, which the instruction itself is not. -/
theorem turn_ended_ime (hdi : i.op ≠ .di) (hreti : i.op ≠ .reti)
    (h : ((s.turn (.began (.execute i))).turn (.ended (.execute i))).ime ≠ s.ime) :
    i.op ≠ .ei ∧ s.armed = true ∧
      ((s.turn (.began (.execute i))).turn (.ended (.execute i))).ime = true := by
  by_cases hei : i.op = .ei
  · simp [turn, hei] at h
  · rw [turn_began hei hdi hreti] at h ⊢
    simp only [turn] at h ⊢
    split at h
    · next hc => exact ⟨hei, hc.1, by rw [if_pos hc]⟩
    · exact absurd rfl h

end Enabling

namespace Machine
variable {π : Type} [HostDevice π] {m m' : Machine π} {op : Op} {W : List Write}

/-- The step that begins an instruction is its last one too, or leaves the processor busy. -/
theorem Finds.enabling (h : m.Finds op) : ∃ i : Instruction, i.op = op ∧
    let begun := m.cpu.enabling.turn (.began (.execute i))
    m.stepCpu.machine.cpu.enabling = begun ∨
      (∀ act n, m.stepCpu.machine.cpu.phase ≠ .busy act n) ∧
        m.stepCpu.machine.cpu.enabling = begun.turn (.ended (.execute i)) := by
  obtain ⟨i, -, hop, hw⟩ := h.begun
  refine ⟨i, hop, ?_⟩
  have henabling := enabling_stepCpu m
  have hphase := phase_stepCpu_begun hw
  rw [milestones_begun hw] at henabling
  split at henabling
  · exact .inl henabling
  · next hc =>
    rw [if_neg hc] at hphase
    refine .inr ⟨fun act n hbusy => ?_, henabling⟩
    rw [hphase] at hbusy
    rcases begun_phase hw with hp | ⟨hp, -⟩ <;> cases hp.symm.trans hbusy

/-- What the step that executes an instruction of `op`, with the writes `W`, leaves as it was. -/
structure Framed (m : Machine π) (op : Op) (W : List Write) (m' : Machine π) : Prop where
  registers : ∀ r, r ∉ op.targets → m'.cpu.regs.get r = m.cpu.regs.get r
  flags : op.LeavesFlags m.bus.read m.cpu.regs m'.cpu.regs.flags
  pending : m'.bus.irq.pending ≠ m.bus.irq.pending → ∃ w ∈ W, w.address = 0xFF0F
  enabled : m'.bus.irq.enabled ≠ m.bus.irq.enabled → ∃ w ∈ W, w.address = 0xFFFF
  ime_di : op = .di → m'.cpu.ime = false
  ime_reti : op = .reti → m'.cpu.ime = true
  /-- IME comes on at the end of an instruction that an EI waited for. -/
  ime : op ≠ .di → op ≠ .reti → m'.cpu.ime ≠ m.cpu.ime →
    op ≠ .ei ∧ m.cpu.eiArmed = true ∧ (∀ act n, m'.cpu.phase ≠ .busy act n) ∧ m'.cpu.ime = true

theorem Finds.framed (h : m.Finds op) :
    ∃ regs W, m.Leaves regs W ∧ m.Framed op W m.stepCpu.machine := by
  have hleaves := h.leaves
  obtain ⟨i, hop, henabling⟩ := h.enabling
  have hime : m.stepCpu.machine.cpu.ime = m.stepCpu.machine.cpu.enabling.ime := rfl
  refine ⟨_, _, hleaves, ?_, ?_, ?_, ?_, ?_, ?_, ?_⟩
  · intro r hr
    rw [hleaves.regs]
    exact Op.get_apply h.opcode hr
  · rw [hleaves.regs]
    exact Op.leavesFlags_apply h.opcode
  · intro hne
    by_contra hnone
    rw [hleaves.bus] at hne
    exact hne (Bus.pending_store (fun w hw ha => hnone ⟨w, hw, ha⟩) m.bus)
  · intro hne
    by_contra hnone
    rw [hleaves.bus] at hne
    exact hne (Bus.enabled_store (fun w hw ha => hnone ⟨w, hw, ha⟩) m.bus)
  · rintro rfl
    rw [hime]
    rcases henabling with hen | ⟨-, hen⟩ <;> rw [hen] <;> simp [Enabling.turn, hop, Enabling.off]
  · rintro rfl
    rw [hime]
    rcases henabling with hen | ⟨-, hen⟩ <;> rw [hen]
    · simp only [Enabling.turn, hop]
    · simp only [Enabling.turn, hop]
      split <;> rfl
  · intro hdi hreti hne
    subst hop
    rw [hime] at hne ⊢
    rcases henabling with hen | ⟨hdone, hen⟩
    · rw [hen] at hne
      exact absurd (Enabling.turn_began_ime hdi hreti) hne
    · rw [hen] at hne ⊢
      obtain ⟨hei, harmed, hon⟩ := Enabling.turn_ended_ime hdi hreti hne
      exact ⟨hei, harmed, hdone, hon⟩

theorem framed_ccf :
    let m : Machine Probe := { ofProgram [0x3F] with
      cpu.regs := { b := 5, flags := { z := true, h := true } }, cpu.eiArmed := true }
    let regs := m.stepCpu.machine.cpu.regs
    m.Finds .ccf ∧ regs.b = 5 ∧ regs.flags.z = true ∧ regs.flags.h = false ∧
      regs.flags.c = true := by
  intro m regs
  have hfinds : m.Finds .ccf := ⟨.inl rfl, rfl, .inl (by decide +kernel)⟩
  obtain ⟨_, _, -, hframed⟩ := hfinds.framed
  obtain ⟨hz, -, hh, hc⟩ := hframed.flags
  exact ⟨hfinds, hframed.registers .b nofun, hz, hh, hc⟩

end Machine

end Dmg
