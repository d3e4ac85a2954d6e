import Dmg.Proofs.FullRam
import Dmg.Proofs.InterruptEnable
import Dmg.Proofs.Works

/-! # Programs in RAM, a block at a time

`Block π irq s s'` is a contract: wherever a processor that takes no interrupts finds `s` in its
registers and in the RAM, it comes to `s'`. An instruction keeps a contract that can be read off its
effect (`Block.instruction`), and contracts compose, so a program is followed in registers and memory
alone. -/

namespace Dmg

namespace Machine
variable {π : Type} [HostDevice π] {m : Machine π} {irq : Interrupts} {s s' s'' : Registers × View}
  {regs regs' : Registers} {mem : View} {i : Instruction} {pc : UInt16}

/-- A processor between two instructions that takes no interrupts, on a bus of RAM. -/
structure At (irq : Interrupts) (s : Registers × View) (m : Machine π) : Prop where
  cpu : m.cpu = { regs := s.1, ime := false, eiArmed := false, phase := .ready }
  bus : m.bus.Holds s.2
  irq : m.bus.irq = irq

/-- From the one registers and memory the processor comes to the others. -/
def Block (π : Type) [HostDevice π] (irq : Interrupts) (s s' : Registers × View) : Prop :=
  ∀ m : Machine π, m.At irq s → ∃ acts n m', Performs m acts n m' ∧ m'.At irq s'

namespace Block

theorem trans (h : Block π irq s s') (h' : Block π irq s' s'') : Block π irq s s'' := by
  intro m hm
  obtain ⟨acts, n, m', hperf, hm'⟩ := h m hm
  obtain ⟨acts', n', m'', hperf', hm''⟩ := h' m' hm'
  exact ⟨_, _, m'', hperf.trans hperf', hm''⟩

instance : Trans (Block π irq) (Block π irq) (Block π irq) := ⟨trans⟩

/-- An instruction whose effect is the same whatever the interrupt registers hide. -/
theorem instruction {W : List Write} (hi : Instruction.decode? (mem pc) = some i)
    (hv : Visible pc) (hpc : regs.pc = pc) (hcontrol : ∀ cpu : Cpu, cpu.control i.op = cpu)
    (happly : ∀ view : View, (∀ a, Visible a → view a = mem a) → ∃ taken,
      i.op.apply view (pc + 1) { regs with pc := pc + i.size.toUInt16 } =
        { regs := regs', writes := W, taken })
    (hwrites : ∀ w ∈ W, Visible w.address) : Block π irq (regs, mem) (regs', mem.after W) := by
  subst hpc
  intro m hm
  have hcpu : m.cpu = { regs, ime := false, eiArmed := false, phase := .ready } := hm.cpu
  have hread {a : UInt16} (ha : Visible a) : m.bus.read a = mem a := hm.bus.read ha
  have hfetch : m.cpu.fetch m.bus.read = .ok i := by
    refine Cpu.fetch_of_decode? ?_
    rw [hcpu, hread hv, hi]
  -- The bus differs from `mem` at the interrupt registers alone, which the effect does not depend on.
  obtain ⟨taken, heffect⟩ := happly m.bus.read fun a ha => hread ha
  have hexecute : m.cpu.execute i m.bus.read =
      { act := .execute i
        cost := if taken then i.cycles + i.penalty else i.cycles
        cpu := { regs := regs', ime := false, eiArmed := false, phase := .ready }
        writes := W } := by
    rw [hcpu, Cpu.execute, heffect, hcontrol]
  have hbegun : m.begun = some (m.cpu.execute i m.bus.read) :=
    begun_of_fetch (by rw [hcpu]) (by rw [hcpu]) hfetch
  rw [hexecute] at hbegun
  have hdone : Cpu.complete ⟨regs', false, false, .ready⟩ (.execute i) =
      ⟨regs', false, false, .ready⟩ := Cpu.complete_execute rfl i
  exact ⟨_, _, _, .one hbegun, hdone, hm.bus.store W, (Bus.irq_store hwrites).trans hm.irq⟩

/-- One that writes nothing. -/
theorem reading (hi : Instruction.decode? (mem pc) = some i) (hv : Visible pc) (hpc : regs.pc = pc)
    (hcontrol : ∀ cpu : Cpu, cpu.control i.op = cpu)
    (happly : ∀ view : View, (∀ a, Visible a → view a = mem a) → ∃ taken,
      i.op.apply view (pc + 1) { regs with pc := pc + i.size.toUInt16 } = { regs := regs', taken }) :
    Block π irq (regs, mem) (regs', mem) :=
  instruction hi hv hpc hcontrol happly nofun

/-- One that works on registers alone. -/
theorem registers (hi : Instruction.decode? (mem pc) = some i) (hv : Visible pc) (hpc : regs.pc = pc)
    (hcontrol : ∀ cpu : Cpu, cpu.control i.op = cpu)
    (happly : ∀ view, i.op.apply view (pc + 1) { regs with pc := pc + i.size.toUInt16 } =
      { regs := regs' }) : Block π irq (regs, mem) (regs', mem) :=
  reading hi hv hpc hcontrol fun view _ => ⟨false, happly view⟩

/-! ### The stack -/

theorem push {p : StackPair} {e c : UInt8}
    (hi : Instruction.decode? (mem pc) = some ⟨.push p, e, false, 1, c, 0⟩) (hv : Visible pc)
    (hpc : regs.pc = pc) (hlow : Visible (regs.sp - 2)) (hhigh : Visible (regs.sp - 2 + 1)) :
    Block π irq (regs, mem) ({ regs with sp := regs.sp - 2, pc := pc + 1 },
      mem.after (Write.ofWord (regs.sp - 2) (regs.getStackPair p))) := by
  refine instruction hi hv hpc (fun _ => rfl) (fun view _ => ⟨false, ?_⟩)
    (Write.forall_mem_ofWord hlow hhigh _)
  cases p <;> rfl

theorem pop {p : StackPair} {e c : UInt8}
    (hi : Instruction.decode? (mem pc) = some ⟨.pop p, e, false, 1, c, 0⟩) (hv : Visible pc)
    (hpc : regs.pc = pc) (hlow : Visible regs.sp) (hhigh : Visible (regs.sp + 1)) :
    Block π irq (regs, mem)
      ({ regs with sp := regs.sp + 2, pc := pc + 1 }.setStackPair p (mem.word regs.sp), mem) := by
  refine reading hi hv hpc (fun _ => rfl) (fun view hview => ⟨false, ?_⟩)
  rw [← View.word_congr (hview _ hlow) (hview _ hhigh)]
  rfl

theorem call {e c : UInt8}
    (hi : Instruction.decode? (mem pc) = some ⟨.call none, e, false, 3, c, 0⟩) (hv : Visible pc)
    (hpc : regs.pc = pc) (himm : Visible (pc + 1)) (himm' : Visible (pc + 1 + 1))
    (hlow : Visible (regs.sp - 2)) (hhigh : Visible (regs.sp - 2 + 1)) :
    Block π irq (regs, mem) ({ regs with sp := regs.sp - 2, pc := mem.word (pc + 1) },
      mem.after (Write.ofWord (regs.sp - 2) (pc + 3))) := by
  refine instruction hi hv hpc (fun _ => rfl) (fun view hview => ⟨false, ?_⟩)
    (Write.forall_mem_ofWord hlow hhigh _)
  rw [← View.word_congr (hview _ himm) (hview _ himm')]
  rfl

/-- A return that is taken. -/
theorem ret {cond : Option Condition} {e c p : UInt8}
    (hi : Instruction.decode? (mem pc) = some ⟨.ret cond, e, false, 1, c, p⟩) (hv : Visible pc)
    (hpc : regs.pc = pc) (htaken : branches cond regs.flags = true) (hlow : Visible regs.sp)
    (hhigh : Visible (regs.sp + 1)) :
    Block π irq (regs, mem) ({ regs with sp := regs.sp + 2, pc := mem.word regs.sp }, mem) := by
  refine reading hi hv hpc (fun _ => rfl) (fun view hview => ⟨cond.isSome, ?_⟩)
  rw [← View.word_congr (hview _ hlow) (hview _ hhigh), Op.apply, if_pos htaken]
  rfl

end Block

end Machine

end Dmg
