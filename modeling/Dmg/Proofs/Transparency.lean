import Dmg.Proofs.FullRam
import Dmg.Proofs.InterruptEnable
import Dmg.Proofs.Works

/-! # Interrupts are transparent

Where the handler of a line is a RETI, serving the line is a dispatch and a RETI: nine cycles that
leave registers and memory as they were, but for the two bytes below the stack pointer
(`Machine.performs_round`). With interrupts on again the next line is served before anything else, so
that all lines that are pending and enabled are served in their order and the program goes on where
it was (`Machine.serves_transparently`). -/

namespace Dmg

/-! ### The lines of a byte -/

namespace Line

/-- The lines whose bits are set, in the order of their numbers. -/
def setIn (bits : UInt8) : List Line := all.filter fun l => bits &&& l.mask != 0

variable {bits : UInt8}

theorem pairwise_setIn (bits : UInt8) : (setIn bits).Pairwise fun l l' => l.index < l'.index :=
  pairwise_all.filter _

theorem nodup_setIn (bits : UInt8) : (setIn bits).Nodup :=
  List.Pairwise.filter _ (by decide : all.Nodup)

theorem head?_setIn (bits : UInt8) : (setIn bits).head? = highest? bits := List.head?_filter

/-- Clearing a bit takes its line away, and no other. -/
theorem setIn_clear (bits : UInt8) (l : Line) : setIn (bits &&& ~~~l.mask) = (setIn bits).erase l := by
  rw [(nodup_setIn bits).erase_eq_filter, setIn, setIn, List.filter_filter]
  refine List.filter_congr fun l' _ => ?_
  have hmask : ~~~l.mask &&& l'.mask = if l' = l then 0 else l'.mask := by
    cases l <;> cases l' <;> decide
  rw [UInt8.and_assoc, hmask]
  by_cases h : l' = l
  · simp [h]
  · simp [h]

theorem visible_vector (l : Line) : Visible l.vector := by
  constructor <;> cases l <;> decide

end Line

/-- Clearing a line takes it from the lines to be served. -/
theorem Interrupts.active_clear (i : Interrupts) (l : Line) :
    (i.clear l).active = i.active &&& ~~~l.mask := by
  rw [active, active, clear, UInt8.and_assoc, UInt8.and_assoc, UInt8.and_comm i.enabled]

/-- The instruction that ends a handler. -/
def reti : Instruction where
  op := .reti
  encoding := 0xD9
  prefixed := false
  size := 1
  cycles := 4
  penalty := 0

namespace Machine
variable {π : Type} [HostDevice π] {m : Machine π} {mem : View} {l : Line} {S : List Line}

/-! ### One line -/

/-- A dispatch puts the program counter on the stack and goes to the vector of the line. -/
theorem performs_dispatch (hp : m.cpu.phase = .ready) (hon : m.cpu.ime = true) (hmem : m.bus.Holds mem)
    (hl : Line.highest? m.bus.irq.active = some l) (hlow : Visible (m.cpu.regs.sp - 2))
    (hhigh : Visible (m.cpu.regs.sp - 2 + 1)) :
    ∃ m', Performs m [.dispatch l] 5 m' ∧
      m'.cpu = { m.cpu with
        regs := { m.cpu.regs with sp := m.cpu.regs.sp - 2, pc := l.vector }
        ime := false
        eiArmed := false } ∧
      m'.bus.irq = m.bus.irq.clear l ∧
      m'.bus.Holds (mem.after (Write.ofWord (m.cpu.regs.sp - 2) m.cpu.regs.pc)) := by
  have hbegun : m.begun = some (m.cpu.dispatch l) := by
    refine begun_of_work (.inl hp) (work_eq_ok.2 (.inl ⟨l, ?_, ?_⟩))
    · exact Cpu.pendingLine?_eq_some_iff.2 ⟨hon, hl⟩
    · rw [← hp]
  refine ⟨m.perform (m.cpu.dispatch l), .one hbegun, rfl, ?_, ?_⟩
  · exact Bus.irq_store (Write.forall_mem_ofWord hlow hhigh _)
  · exact (hmem.acknowledge (.dispatch l)).store _

/-- A RETI takes the program counter from the stack and allows interrupts at once. -/
theorem performs_reti (hp : m.cpu.phase = .ready) (hoff : m.cpu.ime = false)
    (harm : m.cpu.eiArmed = false) (hmem : m.bus.Holds mem) (hpc : Visible m.cpu.regs.pc)
    (hreti : mem m.cpu.regs.pc = 0xD9) (hlow : Visible m.cpu.regs.sp)
    (hhigh : Visible (m.cpu.regs.sp + 1)) :
    ∃ m', Performs m [.execute reti] 4 m' ∧
      m'.cpu = { m.cpu with
        regs := { m.cpu.regs with pc := mem.word m.cpu.regs.sp, sp := m.cpu.regs.sp + 2 }
        ime := true } ∧
      m'.bus = m.bus := by
  have hfetch : m.cpu.fetch m.bus.read = .ok reti := by
    refine Cpu.fetch_of_decode? ?_
    rw [hmem.read hpc, hreti]
    rfl
  have hbegun : m.begun = some (m.cpu.execute reti m.bus.read) := begun_of_fetch hp hoff hfetch
  refine ⟨m.perform (m.cpu.execute reti m.bus.read), .one hbegun, ?_, rfl⟩
  rw [← hmem.word_read hlow hhigh]
  exact Cpu.complete_execute (by exact harm) reti

/-- A line is served by a dispatch and the RETI it leads to. -/
theorem performs_round (hp : m.cpu.phase = .ready) (hon : m.cpu.ime = true) (hmem : m.bus.Holds mem)
    (hl : Line.highest? m.bus.irq.active = some l) (hreti : mem l.vector = 0xD9)
    (hstack : ∀ a ∈ [m.cpu.regs.sp - 1, m.cpu.regs.sp - 2], Visible a ∧ a ≠ l.vector) :
    ∃ m', Performs m [.dispatch l, .execute reti] 9 m' ∧
      m'.cpu = { m.cpu with eiArmed := false } ∧ m'.bus.irq = m.bus.irq.clear l ∧
      m'.bus.Holds (mem.after (Write.ofWord (m.cpu.regs.sp - 2) m.cpu.regs.pc)) := by
  have hback : m.cpu.regs.sp - 2 + 2 = m.cpu.regs.sp := by grind
  have hsucc : m.cpu.regs.sp - 1 = m.cpu.regs.sp - 2 + 1 := by grind
  rw [hsucc] at hstack
  obtain ⟨hhigh, hhigh'⟩ := hstack _ List.mem_cons_self
  obtain ⟨hlow, hlow'⟩ := hstack _ (.tail _ List.mem_cons_self)
  obtain ⟨m₁, hdispatch, hcpu₁, hirq, hram⟩ := performs_dispatch hp hon hmem hl hlow hhigh
  -- The handler is where it was: the program counter has gone to other bytes.
  have hreti' : mem.after (Write.ofWord (m.cpu.regs.sp - 2) m.cpu.regs.pc) l.vector = 0xD9 := by
    rw [View.after_ofWord_of_ne hlow'.symm hhigh'.symm, hreti]
  obtain ⟨m₂, hreturn, hcpu₂, hbus⟩ := performs_reti (m := m₁) (by rw [hcpu₁, hp]) (by rw [hcpu₁])
    (by rw [hcpu₁]) hram (by rw [hcpu₁]; exact l.visible_vector) (by rw [hcpu₁]; exact hreti')
    (by rw [hcpu₁]; exact hlow) (by rw [hcpu₁]; exact hhigh)
  refine ⟨m₂, hdispatch.trans hreturn, ?_, hbus ▸ hirq, hbus ▸ hram⟩
  rw [hcpu₂, hcpu₁]
  simp only [View.word_after_ofWord, hback, ← hon]

/-! ### All lines -/

/-- What becomes of a machine with `mem` in its RAM once the lines `S` are served and over: the
program that was interrupted finds all of its own as it was. -/
structure Serviced (m : Machine π) (mem : View) (S : List Line) (m' : Machine π) : Prop where
  phase : m'.cpu.phase = .ready
  ime : m'.cpu.ime = true
  regs : m'.cpu.regs = m.cpu.regs
  pending : m'.bus.irq.pending = m.bus.irq.pending &&& ~~~bits S
  enabled : m'.bus.irq.enabled = m.bus.irq.enabled
  memory : ∃ mem', m'.bus.Holds mem' ∧
    ∀ a, a ≠ m.cpu.regs.sp - 1 → a ≠ m.cpu.regs.sp - 2 → mem' a = mem a

omit [HostDevice π] in
/-- After a first line come the others. -/
theorem Serviced.cons {m₁ m' : Machine π} {mem₁ : View} (hregs : m₁.cpu.regs = m.cpu.regs)
    (hirq : m₁.bus.irq = m.bus.irq.clear l)
    (hsame : ∀ a, a ≠ m.cpu.regs.sp - 1 → a ≠ m.cpu.regs.sp - 2 → mem₁ a = mem a)
    (h : Serviced m₁ mem₁ S m') : Serviced m mem (l :: S) m' where
  phase := h.phase
  ime := h.ime
  regs := h.regs.trans hregs
  pending := by
    have hbits : ~~~bits (l :: S) = ~~~l.mask &&& ~~~bits S :=
      UInt8.eq_of_toBitVec_eq BitVec.not_or
    rw [h.pending, hirq, hbits, ← UInt8.and_assoc]
    rfl
  enabled := by
    rw [h.enabled, hirq]
    rfl
  memory := by
    obtain ⟨mem', hmem', hsame'⟩ := h.memory
    rw [hregs] at hsame'
    exact ⟨mem', hmem', fun a ha ha' => (hsame' a ha ha').trans (hsame a ha ha')⟩

theorem performs_rounds (hp : m.cpu.phase = .ready) (hon : m.cpu.ime = true) (hmem : m.bus.Holds mem)
    (hS : Line.setIn m.bus.irq.active = S) (hreti : ∀ l ∈ S, mem l.vector = 0xD9)
    (hstack : ∀ a ∈ [m.cpu.regs.sp - 1, m.cpu.regs.sp - 2], Visible a ∧ ∀ l ∈ S, a ≠ l.vector) :
    ∃ m', Performs m (S.flatMap fun l => [.dispatch l, .execute reti]) (9 * S.length) m' ∧
      Serviced m mem S m' := by
  induction S generalizing m mem with
  | nil =>
    have hnone : m.bus.irq.pending &&& ~~~bits [] = m.bus.irq.pending := UInt8.and_neg_one
    exact ⟨m, .done m, hp, hon, rfl, hnone.symm, rfl, mem, hmem, fun _ _ _ => rfl⟩
  | cons l S ih =>
    have hl : Line.highest? m.bus.irq.active = some l := by
      rw [← Line.head?_setIn, hS]
      rfl
    obtain ⟨m₁, hround, hcpu, hirq, hram⟩ := performs_round hp hon hmem hl
      (hreti l List.mem_cons_self) fun a ha => ⟨(hstack a ha).1, (hstack a ha).2 l List.mem_cons_self⟩
    obtain ⟨mem₁, hmem₁⟩ : ∃ mem₁, mem.after (Write.ofWord (m.cpu.regs.sp - 2) m.cpu.regs.pc) = mem₁ :=
      ⟨_, rfl⟩
    rw [hmem₁] at hram
    have hsame (a : UInt16) (ha : a ≠ m.cpu.regs.sp - 1) (ha' : a ≠ m.cpu.regs.sp - 2) :
        mem₁ a = mem a := by
      have hsucc : m.cpu.regs.sp - 2 + 1 = m.cpu.regs.sp - 1 := by grind
      exact hmem₁ ▸ View.after_ofWord_of_ne ha' (hsucc ▸ ha)
    -- What is left to serve finds all as the first line has found it.
    have hregs : m₁.cpu.regs = m.cpu.regs := by rw [hcpu]
    have hrest : Line.setIn m₁.bus.irq.active = S := by
      rw [hirq, Interrupts.active_clear, Line.setIn_clear, hS, List.erase_cons_head]
    have hstack' : ∀ a ∈ [m.cpu.regs.sp - 1, m.cpu.regs.sp - 2], Visible a ∧ ∀ l ∈ S, a ≠ l.vector :=
      fun a ha => ⟨(hstack a ha).1, fun l' hl' => (hstack a ha).2 l' (.tail _ hl')⟩
    have hreti' : ∀ l' ∈ S, mem₁ l'.vector = 0xD9 := by
      intro l' hl'
      have hhigh := (hstack' _ List.mem_cons_self).2 l' hl'
      have hlow := (hstack' _ (.tail _ List.mem_cons_self)).2 l' hl'
      rw [hsame _ hhigh.symm hlow.symm, hreti l' (.tail _ hl')]
    obtain ⟨m', hrounds, hm'⟩ :=
      ih (by rw [hcpu, hp]) (by rw [hcpu, hon]) hram hrest hreti' (hregs ▸ hstack')
    refine ⟨m', ?_, hm'.cons hregs hirq hsame⟩
    rw [List.length_cons, Nat.mul_succ, Nat.add_comm]
    exact hround.trans hrounds

/-- Lines that are pending and enabled are each served once, in the order of their numbers and in nine
cycles, and the program that they interrupt finds all of its own as it was. -/
theorem serves_transparently (hp : m.cpu.phase = .ready) (hon : m.cpu.ime = true)
    (hmem : m.bus.Holds mem) (hreti : ∀ l ∈ Line.setIn m.bus.irq.active, mem l.vector = 0xD9)
    (hstack : ∀ a ∈ [m.cpu.regs.sp - 1, m.cpu.regs.sp - 2], a ≠ ifAddress ∧ a ≠ ieAddress ∧
      ∀ l ∈ Line.setIn m.bus.irq.active, a ≠ l.vector) (keep : Event → Bool) (seen : Array Event) :
    let S := Line.setIn m.bus.irq.active
    let run := iterate step keep (9 * S.length) m seen
    run.failure = none ∧ Serviced m mem S run.machine ∧
      m.activities (9 * S.length) = S.flatMap (fun l => [.dispatch l, .execute reti]) ∧
      S.Pairwise fun l l' => l.index < l'.index := by
  intro S run
  obtain ⟨m', hrounds, hm'⟩ := performs_rounds hp hon hmem rfl hreti
    fun a ha => ⟨⟨(hstack a ha).1, (hstack a ha).2.1⟩, (hstack a ha).2.2⟩
  have hout : run.outcome = (m', none) := hrounds.outcome_iterate
  obtain ⟨hrun, hnone⟩ := Prod.mk.inj hout
  exact ⟨hnone, hrun ▸ hm', hrounds.activities_eq, Line.pairwise_setIn _⟩

/-- The vertical blank and the timer are pending and enabled, the serial line is pending alone: after
eighteen steps it is what is left. -/
theorem serves_transparently_two :
    let W : List Write := [⟨Line.vblank.vector, 0xD9⟩, ⟨Line.timer.vector, 0xD9⟩]
    let m : Machine Probe :=
      { cpu.regs.sp := 0xD000, cpu.ime := true, bus := (Bus.ofCells (.zeros _) ⟨0x0D, 0x05⟩).store W }
    (iterate step (fun _ => true) 18 m #[]).failure = none ∧
      m.activities 18 = [.dispatch .vblank, .execute reti, .dispatch .timer, .execute reti] ∧
      (iterate step (fun _ => true) 18 m #[]).machine.bus.irq.pending = 0x08 := by
  intro W m
  have hS : Line.setIn m.bus.irq.active = [.vblank, .timer] := by decide
  have hmem := (Bus.holds_ofCells (π := Probe) (.zeros _) ⟨0x0D, 0x05⟩).store W
  have hall := serves_transparently (m := m) rfl rfl hmem
  rw [hS] at hall
  obtain ⟨hnone, hleft, hacts, -⟩ := hall (by decide)
    (List.forall_mem_cons.2 ⟨by decide, List.forall_mem_cons.2 ⟨by decide, nofun⟩⟩) (fun _ => true) #[]
  exact ⟨hnone, hacts, hleft.pending.trans (by decide)⟩

end Machine

end Dmg
