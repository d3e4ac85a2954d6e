import Dmg.Proofs.Cells
import Dmg.Proofs.Coherence
import Dmg.Proofs.StackArea
import Dmg.Proofs.Transfers

/-! # The stack is a stack

A program that uses the stack as a stack, in RAM that holds no byte twice, gets back from it what it
put there (`Machine.stack_returns`). By induction on the nesting: what is written between a push and
its pop lies below the word that was pushed (`Nested.confined`), so that the pop finds it as it was. -/

namespace Dmg

/-! ### Room for a stack -/

/-- The stretches of RAM in a handheld, with their last addresses. Work RAM and its echo are two. -/
def ramRegions : List (UInt16 × UInt16) := [(0xC000, 0xDFFF), (0xE000, 0xFDFF), (0xFF80, 0xFFFE)]

def Within (r : UInt16 × UInt16) (a : UInt16) : Prop := r.1 ≤ a ∧ a ≤ r.2

/-- The `k` bytes below `sp` are of one stretch of RAM. -/
def Room (sp : UInt16) (k : Nat) : Prop := ∃ r ∈ ramRegions, ∀ a, Below sp k a → Within r a

section
variable {r : UInt16 × UInt16} {sp a b : UInt16} {k : Nat}

theorem mem_ramRegions (h : r ∈ ramRegions) :
    r = (0xC000, 0xDFFF) ∨ r = (0xE000, 0xFDFF) ∨ r = (0xFF80, 0xFFFE) := by
  simpa [ramRegions] using h

theorem Within.inRam (hr : r ∈ ramRegions) (h : Within r a) : InRam a := by
  unfold Within at h
  unfold InRam
  rcases mem_ramRegions hr with rfl | rfl | rfl <;> grind

/-- Within a stretch no byte has two addresses. -/
theorem SameCell.eq_of_within (hr : r ∈ ramRegions) (h : SameCell a b) (ha : Within r a)
    (hb : Within r b) : a = b := by
  unfold Within at ha hb
  unfold SameCell Echoes at h
  rcases mem_ramRegions hr with rfl | rfl | rfl <;> grind

/-- No stretch has room for a stack that goes round. -/
theorem lt_of_within (hr : r ∈ ramRegions) (h : ∀ a, Below sp k a → Within r a) : k < 0x10000 := by
  by_contra hk
  have hzero : Within r 0 := h 0 (Nat.lt_of_lt_of_le (UInt16.toNat_lt _) (Nat.le_of_not_lt hk))
  unfold Within at hzero
  rcases mem_ramRegions hr with rfl | rfl | rfl <;> grind

end

/-! ### Runs -/

namespace Machine
variable {π : Type} [HostDevice π] {m m' m'' : Machine π} {T T' : List Transfer} {t : Transfer}

/-- `Stacks m T m'`: the machine comes from `m` to `m'` in whole cycles and requests of its host, and
`T` is what its processor does with the stack on the way. -/
inductive Stacks : Machine π → List Transfer → Machine π → Prop
  | done (m : Machine π) : Stacks m [] m
  | request {m m' : Machine π} {T : List Transfer} (l : Line) :
    Stacks (m.request l) T m' → Stacks m T m'
  | quiet {m m' : Machine π} {T : List Transfer} :
    m.advance.tickBus.Orderly → m.advance.tickBus.transfer? = none →
      Stacks m.cycle.machine T m' → Stacks m T m'
  | use {m m' : Machine π} {t : Transfer} {T : List Transfer} :
    m.advance.tickBus.Orderly → m.advance.tickBus.transfer? = some t →
      Stacks m.cycle.machine T m' → Stacks m (t :: T) m'

namespace Stacks

theorem trans (h : Stacks m T m') (h' : Stacks m' T' m'') : Stacks m (T ++ T') m'' := by
  induction h with
  | done m => exact h'
  | request l _ ih => exact .request l (ih h')
  | quiet ho ht _ ih => exact .quiet ho ht (ih h')
  | use ho ht _ ih => exact .use ho ht (ih h')

theorem exists_use (h : Stacks m (t :: T) m') : ∃ m₁, Stacks m [] m₁ ∧
    m₁.advance.tickBus.Orderly ∧ m₁.advance.tickBus.transfer? = some t ∧
    Stacks m₁.cycle.machine T m' := by
  -- On the run, which is quiet up to that cycle.
  generalize hT' : t :: T = T' at h
  induction h with
  | done m => cases hT'
  | request l _ ih =>
    obtain ⟨m₁, hquiet, hrest⟩ := ih hT'
    exact ⟨m₁, .request l hquiet, hrest⟩
  | quiet ho ht _ ih =>
    obtain ⟨m₁, hquiet, hrest⟩ := ih hT'
    exact ⟨m₁, .quiet ho ht hquiet, hrest⟩
  | @use m _ _ _ ho ht h =>
    cases hT'
    exact ⟨m, .done m, ho, ht, h⟩

theorem split (h : Stacks m (T ++ T') m'') : ∃ m', Stacks m T m' ∧ Stacks m' T' m'' := by
  induction T generalizing m with
  | nil => exact ⟨m, .done m, h⟩
  | cons t T ih =>
    obtain ⟨m₁, hquiet, ho, ht, hrest⟩ := h.exists_use
    obtain ⟨m', hT, hT'⟩ := ih hrest
    exact ⟨m', hquiet.trans (.use ho ht hT), hT'⟩

/-- Cycles one after the other, all of them orderly. -/
theorem of_cycles (n : Nat) (h : ∀ k < n, ((·.cycle.machine)^[k] m).advance.tickBus.Orderly)
    (hT : ((List.range n).filterMap fun k => ((·.cycle.machine)^[k] m).advance.tickBus.transfer?) = T) :
    Stacks m T ((·.cycle.machine)^[n] m) := by
  induction n generalizing m T with
  | zero =>
    subst hT
    exact .done m
  | succ n ih =>
    have hrest := fun T => @ih m.cycle.machine T fun k hk => h (k + 1) (Nat.succ_lt_succ hk)
    rw [List.range_succ_eq_map, List.filterMap_cons, List.filterMap_map, Function.iterate_zero_apply] at hT
    cases ht : m.advance.tickBus.transfer? with
    | none =>
      rw [ht] at hT
      exact .quiet (h 0 n.succ_pos) ht (hrest T hT)
    | some t =>
      rw [ht] at hT
      subst hT
      exact .use (h 0 n.succ_pos) ht (hrest _ rfl)

end Stacks

/-! ### A cycle -/

variable [RequestsOnly π] {overlay : BootOverlay} {n : Nat} {W : List Write} {src dst : Option StackPair} {v : UInt16}

theorem mapped_cycle_quiet (h : m.bus.Mapped overlay n W) (ho : m.advance.tickBus.Orderly)
    (ht : m.advance.tickBus.transfer? = none) : m.cycle.machine.bus.Mapped overlay n W ∧
      m.cycle.machine.cpu.regs.sp = m.cpu.regs.sp := by
  obtain ⟨hwrites, hsp⟩ := step_quiet ho ht
  have hw := h.cycle
  rw [cycleWrites, hwrites, List.append_nil] at hw
  exact ⟨hw, hsp⟩

theorem mapped_cycle_push (h : m.bus.Mapped overlay n W)
    (ht : m.advance.tickBus.transfer? = some (.push src v)) :
    m.cycle.machine.bus.Mapped overlay n (W ++ Write.ofWord (m.cpu.regs.sp - 2) v) ∧
      m.cycle.machine.cpu.regs.sp = m.cpu.regs.sp - 2 ∧ kept src v = v := by
  obtain ⟨hwrites, hsp, hkept⟩ := step_push ht
  have hw := h.cycle
  rw [cycleWrites, hwrites] at hw
  exact ⟨hw, hsp, hkept⟩

theorem mapped_cycle_pop (h : m.bus.Mapped overlay n W)
    (ht : m.advance.tickBus.transfer? = some (.pop dst v)) :
    m.cycle.machine.bus.Mapped overlay n W ∧ m.cycle.machine.cpu.regs.sp = m.cpu.regs.sp + 2 ∧
      v = kept dst (View.word (m.bus.tick (m.cycles + 1)).read m.cpu.regs.sp) := by
  obtain ⟨hwrites, hsp, hv⟩ := step_pop ht
  have hw := h.cycle
  rw [cycleWrites, hwrites, List.append_nil] at hw
  exact ⟨hw, hsp, hv⟩

theorem Stacks.mapped (hrun : Stacks m [] m') (h : m.bus.Mapped overlay n W) :
    m'.bus.Mapped overlay n W ∧ m'.cpu.regs.sp = m.cpu.regs.sp := by
  generalize hT : ([] : List Transfer) = T at hrun
  induction hrun with
  | done m => exact ⟨h, rfl⟩
  | request l _ ih => exact ih (h.request l) hT
  | quiet ho ht _ ih =>
    obtain ⟨hw, hsp⟩ := mapped_cycle_quiet h ho ht
    obtain ⟨hw', hsp'⟩ := ih hw hT
    exact ⟨hw', hsp'.trans hsp⟩
  | use => cases hT

/-- A push, what follows, a pop, and the rest: the push stores its word, and the pop finds what is there
when the devices have ticked. -/
theorem Stacks.bracket {v' : UInt16} {B C : List Transfer}
    (hrun : Stacks m (.push src v :: B ++ .pop dst v' :: C) m') (h : m.bus.Mapped overlay n W) :
    ∃ m₁ m₂ m₃ : Machine π, Stacks m₁ B m₂ ∧ Stacks m₃ C m' ∧
    (m₁.bus.Mapped overlay n (W ++ Write.ofWord (m.cpu.regs.sp - 2) v) ∧
      m₁.cpu.regs.sp = m.cpu.regs.sp - 2 ∧ kept src v = v) ∧
    ∀ W', m₂.bus.Mapped overlay n W' → m₃.bus.Mapped overlay n W' ∧
      m₃.cpu.regs.sp = m₂.cpu.regs.sp + 2 ∧
      ∃ bus : Bus π, bus.Mapped overlay n W' ∧ v' = kept dst (View.word bus.read m₂.cpu.regs.sp) := by
  obtain ⟨m₁, hquiet, -, hpush, hrun⟩ := hrun.exists_use
  obtain ⟨m₂, hB, hrun⟩ := hrun.split
  obtain ⟨m₃, hquiet', -, hpop, hC⟩ := hrun.exists_use
  refine ⟨_, m₂, _, hB, hC, ?_, fun W' hW' => ?_⟩
  · obtain ⟨hw, hsp⟩ := hquiet.mapped h
    exact hsp ▸ mapped_cycle_push hw hpush
  · obtain ⟨hw, hsp⟩ := hquiet'.mapped hW'
    obtain ⟨hw', hsp', hv⟩ := mapped_cycle_pop hw hpop
    exact ⟨hw', hsp ▸ hsp', _, hw.tick _, hsp ▸ hv⟩

end Machine

/-! ### Nested transfers -/

/-- What a pop delivers of the word of its push: all that its own pair keeps, and where that is the pair
that was pushed, the word itself. -/
def Delivers : Transfer → Transfer → Prop
  | .push src v, .pop dst v' => v' = kept dst v ∧ (src = dst → v' = v)
  | _, _ => False

section
variable {π : Type} [HostDevice π] {bus bus' : Bus π} {m m' : Machine π} {overlay : BootOverlay}
  {n d : Nat} {W ws : List Write} {r : UInt16 × UInt16} {a v : UInt16} {T : List Transfer}

/-- A word that was pushed stays, whatever else is written to the RAM around it. -/
theorem Bus.Mapped.word_pushed (h : bus.Mapped overlay n W)
    (h' : bus'.Mapped overlay n (W ++ (Write.ofWord a v ++ ws))) (hr : r ∈ ramRegions)
    (hlow : Within r a) (hhigh : Within r (a + 1))
    (hws : ∀ w ∈ ws, Within r w.address ∧ w.address ≠ a ∧ w.address ≠ a + 1) :
    View.word bus'.read a = v := by
  have hram : ∀ w ∈ Write.ofWord a v ++ ws, InRam w.address := by
    intro w hw
    rcases List.mem_append.1 hw with hw | hw
    · exact Write.forall_mem_ofWord (hlow.inRam hr) (hhigh.inRam hr) v w hw
    · exact (hws w hw).1.inRam hr
  have hread {b : UInt16} (hb : Within r b) (hne : ∀ w ∈ ws, w.address ≠ b) :
      bus'.read b = (lastWritten (Write.ofWord a v) (SameCell b)).getD (bus.read b) := by
    have hnone : lastWritten ws (SameCell b) = none := lastWritten_eq_none fun w hw hsame =>
      hne w hw (hsame.eq_of_within hr hb (hws w hw).1).symm
    rw [h.read_append h' hram ((hb.inRam hr).settled n), lastWritten_append, hnone, Option.none_or]
  have hne : ¬ SameCell a (a + 1) := fun hsame => by
    have heq := hsame.eq_of_within hr hlow hhigh
    grind
  have hlo : bus'.read a = lo v := by
    rw [hread hlow fun w hw => (hws w hw).2.1]
    simp [lastWritten, Write.ofWord, hne, SameCell.refl]
  have hhi : bus'.read (a + 1) = hi v := by
    rw [hread hhigh fun w hw => (hws w hw).2.2]
    simp [lastWritten, Write.ofWord, SameCell.refl]
  rw [View.word, hhi, hlo, word_hi_lo]

/-- Nested transfers bring the stack pointer back, every pop delivers what its push has put there, and
nothing else is written than the bytes that the stack grows over. -/
theorem Nested.confined [RequestsOnly π] {R : Transfer → Transfer → Prop} (hT : Nested R d T) (hr : r ∈ ramRegions)
    (h : m.bus.Mapped overlay n W) (hrun : Machine.Stacks m T m')
    (hroom : ∀ a, Below m.cpu.regs.sp (2 * d) a → Within r a) :
    Nested Delivers d T ∧ m'.cpu.regs.sp = m.cpu.regs.sp ∧
      ∃ ws, m'.bus.Mapped overlay n (W ++ ws) ∧ ∀ w ∈ ws, Below m.cpu.regs.sp (2 * d) w.address := by
  induction hT generalizing m m' W with
  | nil =>
    obtain ⟨hw, hsp⟩ := hrun.mapped h
    exact ⟨.nil, hsp, [], by rwa [List.append_nil], nofun⟩
  | @pair src dst v v' d e B C _ _ _ ihB ihC =>
    obtain ⟨m₁, m₂, m₃, hB, hC, hpush, hpop⟩ := hrun.bracket h
    generalize m.cpu.regs.sp = sp at hroom hpush ⊢
    obtain ⟨hw₁, hsp₁, hkept⟩ := hpush
    have hroomB : ∀ a, Below (sp - 2) (2 * d) a → Below sp (2 * max (d + 1) e) a := fun a ha =>
      ha.of_push (by omega)
    have hroomC : ∀ a, Below sp (2 * e) a → Below sp (2 * max (d + 1) e) a := fun a ha =>
      ha.mono (by omega)
    obtain ⟨hlow, hhigh⟩ : Below sp (2 * max (d + 1) e) (sp - 2) ∧
        Below sp (2 * max (d + 1) e) (sp - 2 + 1) := below_of_push (by grind) (by omega)
    have hlt := lt_of_within hr hroom
    -- What comes between the push and the pop does not reach the word that was pushed.
    obtain ⟨hB', hsp₂, ws, hw₂, hws⟩ := ihB hw₁ hB fun a ha => hroom a (hroomB a (hsp₁ ▸ ha))
    rw [hsp₁] at hsp₂ hws
    have hne : ∀ w ∈ ws, Within r w.address ∧ w.address ≠ sp - 2 ∧ w.address ≠ sp - 2 + 1 := fun w hw =>
      ⟨hroom _ (hroomB _ (hws w hw)), (hws w hw).ne_word (by omega)⟩
    -- So the pop finds it.
    obtain ⟨hw₃, hsp₃, bus, hbus, hv⟩ := hpop _ hw₂
    rw [hsp₂] at hsp₃ hv
    rw [List.append_assoc] at hbus
    rw [h.word_pushed hbus hr (hroom _ hlow) (hroom _ hhigh) hne] at hv
    have hback : m₃.cpu.regs.sp = sp := by grind
    -- What comes after the pop starts where the push did.
    obtain ⟨hC', hsp', ws', hw', hws'⟩ := ihC hw₃ hC fun a ha => hroom a (hroomC a (hback ▸ ha))
    rw [hback] at hsp' hws'
    refine ⟨.pair ⟨hv, fun heq => ?_⟩ hB' hC', hsp', Write.ofWord (sp - 2) v ++ (ws ++ ws'), ?_, ?_⟩
    · rw [hv, ← heq, hkept]
    · simpa using hw'
    · intro w hw
      rcases List.mem_append.1 hw with hw | hw
      · exact Write.forall_mem_ofWord hlow hhigh v w hw
      · rcases List.mem_append.1 hw with hw | hw
        · exact hroomB _ (hws w hw)
        · exact hroomC _ (hws' w hw)

end

/-! ### The handheld -/

namespace Machine
variable {π : Type} [HostDevice π] {m m' : Machine π} {T : List Transfer} {d : Nat}

/-- On a handheld, whatever the state of its processor, if pushes and pops match and there is room for
them, every pop delivers what its push has put there, the stack pointer comes back, and no byte changes
but those that the stack grew over, by whichever address they are read. -/
theorem stack_returns [RequestsOnly π] (hs : m.InService) (cpu : Cpu) (hrun : Stacks { m with cpu } T m')
    (hT : Nested (fun _ _ => True) d T) (hroom : Room cpu.regs.sp (2 * d)) :
    (∀ A src v B dst v' C e, T = A ++ .push src v :: B ++ .pop dst v' :: C →
      Nested (fun _ _ => True) e B → v' = kept dst v ∧ (src = dst → v' = v)) ∧
    m'.cpu.regs.sp = cpu.regs.sp ∧
    ∀ a, Settled m.bus.attached a → (∀ b, Below cpu.regs.sp (2 * d) b → ¬ SameCell a b) →
      m'.read a = m.read a := by
  obtain ⟨overlay, n, W, hw⟩ := hs.mapped
  obtain ⟨r, hr, hroom⟩ := hroom
  obtain ⟨hdelivers, hsp, ws, hw', hws⟩ := hT.confined hr (m := { m with cpu }) hw hrun hroom
  refine ⟨?_, hsp, fun a ha hcell => ?_⟩
  · rintro A src v B dst v' C e rfl hB
    exact hdelivers.of_between hB
  · have hnone : lastWritten ws (SameCell a) = none :=
      lastWritten_eq_none fun w hmem => hcell w.address (hws w hmem)
    have hram : ∀ w ∈ ws, InRam w.address := fun w hmem => (hroom _ (hws w hmem)).inRam hr
    rw [hw.toWired.attached_eq] at ha
    have hread := hw.read_append hw' hram ha
    rw [hnone] at hread
    exact hread

/-- At address 0 PUSH BC, CALL 6, POP AF and HALT; at 6 PUSH DE, POP HL and RET. -/
def nestedPushes : Cartridge :=
  let program := [0xC5, 0xCD, 0x06, 0x00, 0xF1, 0x76, 0xD5, 0xE1, 0xC9]
  ⟨⟨⟨⟨program ++ List.replicate (romSize - program.length) 0⟩, by
    rw [List.size_toArray, List.length_append, List.length_replicate]
    rfl⟩⟩⟩

/-- Three pushes deep: the low nibble is lost where BC goes to AF, HL gets what was in DE, the call
returns, and the byte below the six of the stack is not touched. -/
theorem stack_returns_through_call : ∃ core m' : Machine Probe,
    (handheld nestedPushes none).machine = .ok core ∧
    Stacks { core with cpu := { regs := { b := 0x12, c := 0x34, d := 0x56, e := 0x78, sp := 0xD000 } } }
      [.push (some .bc) 0x1234, .push none 4, .push (some .de) 0x5678, .pop (some .hl) 0x5678,
        .pop none 4, .pop (some .af) 0x1230] m' ∧
    0x1230 = kept (some .af) 0x1234 ∧ 0x5678 = kept (some .hl) 0x5678 ∧ 4 = kept none 4 ∧
    m'.cpu.regs.sp = 0xD000 ∧ m'.read 0xCFF9 = core.read 0xCFF9 := by
  obtain ⟨core, hcore, m', hrun⟩ : ∃ core : Machine Probe,
      (handheld nestedPushes none).machine = .ok core ∧
      ∃ m', Stacks { core with cpu := { regs := { b := 0x12, c := 0x34, d := 0x56, e := 0x78, sp := 0xD000 } } }
        [.push (some .bc) 0x1234, .push none 4, .push (some .de) 0x5678, .pop (some .hl) 0x5678,
          .pop none 4, .pop (some .af) 0x1230] m' :=
    ⟨_, rfl, _, .of_cycles 24 (by decide +kernel) (by decide +kernel)⟩
  have hbounds {b : UInt16} (hb : Below 0xD000 6 b) : 0xCFFA ≤ b.toNat ∧ b.toNat < 0xD000 :=
    hb.bounds (by decide)
  have hroom : Room 0xD000 6 := by
    refine ⟨(0xC000, 0xDFFF), List.mem_cons_self, fun a ha => ?_⟩
    obtain ⟨hlow, hhigh⟩ := hbounds ha
    simp only [Within, UInt16.le_iff_toNat_le, UInt16.reduceToNat]
    omega
  have hde : Nested (fun _ _ => True) 1 [.push (some .de) 0x5678, .pop (some .hl) 0x5678] :=
    .pair trivial .nil .nil
  have hcall : Nested (fun _ _ => True) 2 (.push none 4 :: _ ++ [.pop none 4]) := .pair trivial hde .nil
  obtain ⟨hdelivers, hsp, hread⟩ := stack_returns (.made hcore) _ hrun (.pair trivial hcall .nil) hroom
  have hsettled : Settled core.bus.attached 0xCFF9 := InRam.settled (.inl (by decide)) _
  refine ⟨core, m', hcore, hrun, (hdelivers [] _ _ _ _ _ [] 2 rfl hcall).1,
    (hdelivers [_, _] _ _ [] _ _ [_, _] 0 rfl .nil).1, (hdelivers [_] _ _ _ _ _ [_] 1 rfl hde).1, hsp,
    hread 0xCFF9 hsettled fun b hb => ?_⟩
  obtain ⟨hlow, hhigh⟩ := hbounds hb
  simp only [SameCell, Echoes, ← UInt16.toNat_inj, UInt16.le_iff_toNat_le, UInt16.toNat_add,
    UInt16.reduceToNat]
  omega

end Machine

end Dmg
