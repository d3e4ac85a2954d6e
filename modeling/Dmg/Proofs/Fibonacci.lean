import Dmg.Proofs.Blocks
import Dmg.Proofs.StackArea
import Mathlib.Data.Nat.Fib.Basic

/-! # A recursive routine

`fibProgram` calls a routine that computes Fibonacci numbers by calling itself twice. Followed block
by block, with the call that it makes taken from the induction on the argument, the routine returns
the number modulo 256 with all other registers as they were and no byte changed but the four for each
unit of the argument below the stack pointer (`Machine.fibonacci_returns`). -/

namespace Dmg

/-- LD SP,0xFFFF; LD A,11; CALL 0x000A; HALT; NOP, and at 0x000A the routine:
CP 2; RET C; PUSH BC; DEC A; LD B,A; CALL 0x000A; LD C,A; LD A,B; DEC A; CALL 0x000A; ADD A,C;
POP BC; RET. -/
def fibProgram : List UInt8 :=
  [0x31, 0xFF, 0xFF, 0x3E, 0x0B, 0xCD, 0x0A, 0x00, 0x76, 0x00, 0xFE, 0x02, 0xD8, 0xC5, 0x3D, 0x47,
    0xCD, 0x0A, 0x00, 0x4F, 0x78, 0x3D, 0xCD, 0x0A, 0x00, 0x81, 0xC1, 0xC9]

/-- Where the routine is. -/
def InRoutine (a : UInt16) : Prop := 0x000A ≤ a ∧ a ≤ 0x001B

instance (a : UInt16) : Decidable (InRoutine a) := inferInstanceAs (Decidable (_ ∧ _))

/-- The memory holds the routine. -/
def HasRoutine (mem : View) : Prop := ∀ a, InRoutine a → mem a = fibProgram.getD a.toNat 0

/-- An address that the routine can use as stack. -/
def Spare (a : UInt16) : Prop := ¬ InRoutine a ∧ Visible a

/-- Using such addresses as stack does the routine no harm. -/
theorem HasRoutine.of_keeps {mem mem' : View} {sp : UInt16} {n : Nat} (h : HasRoutine mem)
    (hkeeps : View.Keeps sp n mem mem') (hspare : ∀ a, Below sp n a → Spare a) : HasRoutine mem' :=
  fun a ha => (hkeeps a fun hb => (hspare a hb).1 ha).trans (h a ha)

/-- What the routine reads as. -/
structure Listing (mem : View) : Prop where
  compare : Instruction.decode? (mem 0x000A) = some ⟨.alu .cp .imm, 0xFE, false, 2, 2, 0⟩
  two : mem 0x000B = 2
  small : Instruction.decode? (mem 0x000C) = some ⟨.ret (some .c), 0xD8, false, 1, 2, 3⟩
  push : Instruction.decode? (mem 0x000D) = some ⟨.push .bc, 0xC5, false, 1, 4, 0⟩
  decrement : Instruction.decode? (mem 0x000E) = some ⟨.dec (.reg .a), 0x3D, false, 1, 1, 0⟩
  keep : Instruction.decode? (mem 0x000F) = some ⟨.load (.reg .b) (.reg .a), 0x47, false, 1, 1, 0⟩
  first : Instruction.decode? (mem 0x0010) = some ⟨.call none, 0xCD, false, 3, 6, 0⟩
  first_target : mem.word 0x0011 = 0x000A
  result : Instruction.decode? (mem 0x0013) = some ⟨.load (.reg .c) (.reg .a), 0x4F, false, 1, 1, 0⟩
  kept : Instruction.decode? (mem 0x0014) = some ⟨.load (.reg .a) (.reg .b), 0x78, false, 1, 1, 0⟩
  again : Instruction.decode? (mem 0x0015) = some ⟨.dec (.reg .a), 0x3D, false, 1, 1, 0⟩
  second : Instruction.decode? (mem 0x0016) = some ⟨.call none, 0xCD, false, 3, 6, 0⟩
  second_target : mem.word 0x0017 = 0x000A
  sum : Instruction.decode? (mem 0x0019) = some ⟨.alu .add (.reg .c), 0x81, false, 1, 1, 0⟩
  pop : Instruction.decode? (mem 0x001A) = some ⟨.pop .bc, 0xC1, false, 1, 3, 0⟩
  done : Instruction.decode? (mem 0x001B) = some ⟨.ret none, 0xC9, false, 1, 4, 0⟩

theorem HasRoutine.decode? {mem : View} (h : HasRoutine mem) {a : UInt16} {i : Instruction}
    (ha : InRoutine a) (hi : Instruction.decode? (fibProgram.getD a.toNat 0) = some i) :
    Instruction.decode? (mem a) = some i := by
  rw [h a ha, hi]

theorem HasRoutine.listing {mem : View} (h : HasRoutine mem) : Listing mem where
  compare := h.decode? (by decide) rfl
  two := h _ (by decide)
  small := h.decode? (by decide) rfl
  push := h.decode? (by decide) rfl
  decrement := h.decode? (by decide) rfl
  keep := h.decode? (by decide) rfl
  first := h.decode? (by decide) rfl
  first_target := by
    rw [View.word, h _ (by decide), h _ (by decide)]
    rfl
  result := h.decode? (by decide) rfl
  kept := h.decode? (by decide) rfl
  again := h.decode? (by decide) rfl
  second := h.decode? (by decide) rfl
  second_target := by
    rw [View.word, h _ (by decide), h _ (by decide)]
    rfl
  sum := h.decode? (by decide) rfl
  pop := h.decode? (by decide) rfl
  done := h.decode? (by decide) rfl

namespace Machine
variable {π : Type} [HostDevice π] {irq : Interrupts} {regs regs' : Registers} {mem : View}

/-! ### The pieces of the routine -/

/-- CP 2. -/
theorem block_compare (h : Listing mem) : Block π irq ({ regs with pc := 0x000A }, mem)
    ({ regs with pc := 0x000C, flags := (Alu.sub8 regs.a 2 false).2 }, mem) := by
  refine Block.reading h.compare (by decide) rfl (fun _ => rfl) fun view hview => ⟨false, ?_⟩
  have hread : view 0x000B = 2 := (hview _ (by decide)).trans h.two
  show ({ regs := { regs with
    pc := 0x000C, flags := (Alu.sub8 regs.a (view 0x000B) false).2 } } : Effect) = _
  rw [hread]

theorem carry_compare (a : UInt8) : (Alu.sub8 a 2 false).2.c = decide (a.toNat < 2) := by
  show decide (a.toUInt16 < 2) = _
  rw [decide_eq_decide, UInt16.lt_iff_toNat_lt, UInt8.toNat_toUInt16]
  rfl

/-- CP 2 and RET C, of an argument below 2. -/
theorem block_small (h : Listing mem) (ha : regs.a.toNat < 2) (hlow : Visible regs.sp)
    (hhigh : Visible (regs.sp + 1)) : ∃ flags, Block π irq ({ regs with pc := 0x000A }, mem)
    ({ regs with flags, sp := regs.sp + 2, pc := mem.word regs.sp }, mem) := by
  have hcarry : (Alu.sub8 regs.a 2 false).2.c = true := by rw [carry_compare, decide_eq_true ha]
  exact ⟨_, (block_compare h).trans (Block.ret h.small (by decide) rfl hcarry hlow hhigh)⟩

/-- CP 2, RET C and PUSH BC, of another, and DEC A and LD B,A. -/
theorem block_large (h : Listing mem) (ha : 2 ≤ regs.a.toNat) (hlow : Visible (regs.sp - 2))
    (hhigh : Visible (regs.sp - 2 + 1)) {mem' : View}
    (hmem : mem.after (Write.ofWord (regs.sp - 2) regs.bc) = mem') (h' : Listing mem') :
    ∃ flags, Block π irq ({ regs with pc := 0x000A }, mem)
      ({ regs with flags, a := regs.a - 1, b := regs.a - 1, sp := regs.sp - 2, pc := 0x0010 }, mem') := by
  obtain ⟨f, hf⟩ : ∃ f, (Alu.sub8 regs.a 2 false).2 = f := ⟨_, rfl⟩
  have hcarry : f.c = false := by rw [← hf, carry_compare, decide_eq_false (Nat.not_lt.2 ha)]
  refine ⟨(Alu.dec8 regs.a f).2, ?_⟩
  calc
    Block π irq _ ({ regs with pc := 0x000C, flags := f }, mem) := hf ▸ block_compare h
    Block π irq _ ({ regs with pc := 0x000D, flags := f }, mem) :=
      Block.registers h.small (by decide) rfl (fun _ => rfl) fun view =>
        if_neg (by simp [branches, Condition.holds, hcarry])
    Block π irq _ ({ regs with sp := regs.sp - 2, pc := 0x000E, flags := f }, mem') :=
      hmem ▸ Block.push h.push (by decide) rfl hlow hhigh
    Block π irq _ ({ regs with
        flags := (Alu.dec8 regs.a f).2, a := regs.a - 1, sp := regs.sp - 2, pc := 0x000F }, mem') :=
      Block.registers h'.decrement (by decide) rfl (fun _ => rfl) fun view => rfl
    Block π irq _ _ := Block.registers h'.keep (by decide) rfl (fun _ => rfl) fun view => rfl

/-- LD C,A; LD A,B; DEC A. -/
theorem block_between (regs : Registers) (h : Listing mem) :
    ∃ flags, Block π irq ({ regs with pc := 0x0013 }, mem)
      ({ regs with flags, a := regs.b - 1, c := regs.a, pc := 0x0016 }, mem) := by
  refine ⟨(Alu.dec8 regs.b regs.flags).2, ?_⟩
  calc
    Block π irq ({ regs with pc := 0x0013 }, mem) ({ regs with c := regs.a, pc := 0x0014 }, mem) :=
      Block.registers h.result (by decide) rfl (fun _ => rfl) fun view => rfl
    Block π irq _ ({ regs with a := regs.b, c := regs.a, pc := 0x0015 }, mem) :=
      Block.registers h.kept (by decide) rfl (fun _ => rfl) fun view => rfl
    Block π irq _ _ := Block.registers h.again (by decide) rfl (fun _ => rfl) fun view => rfl

/-- ADD A,C; POP BC; RET. -/
theorem block_leave (regs : Registers) (h : Listing mem) (h₀ : Visible regs.sp)
    (h₁ : Visible (regs.sp + 1)) (h₂ : Visible (regs.sp + 2)) (h₃ : Visible (regs.sp + 2 + 1)) :
    ∃ flags, Block π irq ({ regs with pc := 0x0019 }, mem)
      ({ regs.setBc (mem.word regs.sp) with
        flags, a := regs.a + regs.c, sp := regs.sp + 2 + 2, pc := mem.word (regs.sp + 2) }, mem) := by
  refine ⟨(Alu.add8 regs.a regs.c false).2, ?_⟩
  have hadd : regs.a + regs.c + Alu.bitOf false = regs.a + regs.c := UInt8.add_zero _
  calc
    Block π irq ({ regs with pc := 0x0019 }, mem) ({ regs with
        flags := (Alu.add8 regs.a regs.c false).2, a := regs.a + regs.c, pc := 0x001A }, mem) :=
      Block.registers h.sum (by decide) rfl (fun _ => rfl) fun view => by
        rw [← hadd]
        rfl
    Block π irq _ ({ regs.setBc (mem.word regs.sp) with
        flags := (Alu.add8 regs.a regs.c false).2, a := regs.a + regs.c
        sp := regs.sp + 2, pc := 0x001B }, mem) :=
      Block.pop h.pop (by decide) rfl h₀ h₁
    Block π irq _ _ := Block.ret h.done (by decide) rfl rfl h₂ h₃

/-! ### Calls -/

/-- What a call with the argument `n` makes of `s`, in which the program counter does not count. -/
structure Returned (n : Nat) (s s' : Registers × View) : Prop where
  regs : s'.1 = { s.1 with
    a := s'.1.a, flags := s'.1.flags, sp := s.1.sp + 2, pc := s.2.word s.1.sp }
  result : s'.1.a.toNat = Nat.fib n % 256
  memory : View.Keeps s.1.sp (4 * n) s.2 s'.2

/-- The routine returns from every call with the argument `n` that leaves it its stack. -/
def Computes (π : Type) [HostDevice π] (irq : Interrupts) (n : Nat) : Prop :=
  ∀ regs mem, regs.a.toNat = n → HasRoutine mem →
    (∀ a, Below (regs.sp + 2) (4 * n + 2) a → Spare a) →
    ∃ s', Block π irq ({ regs with pc := 0x000A }, mem) s' ∧ Returned n (regs, mem) s'

/-- A call made from within the routine. -/
theorem block_call (regs : Registers) {k : Nat} {pc : UInt16} {c e : UInt8} (hk : Computes π irq k)
    (h : HasRoutine mem) (hi : Instruction.decode? (mem pc) = some ⟨.call none, e, false, 3, c, 0⟩)
    (htarget : mem.word (pc + 1) = 0x000A) (hv : Visible pc ∧ Visible (pc + 1) ∧ Visible (pc + 1 + 1))
    (ha : regs.a.toNat = k) (hspare : ∀ a, Below regs.sp (4 * k + 2) a → Spare a) :
    ∃ v flags mem',
      Block π irq ({ regs with pc }, mem) ({ regs with a := v, flags, pc := pc + 3 }, mem') ∧
      v.toNat = Nat.fib k % 256 ∧ View.Keeps regs.sp (4 * k + 2) mem mem' := by
  have hback : regs.sp - 2 + 2 = regs.sp := by grind
  obtain ⟨hlow, hhigh⟩ := below_of_push (n := 4 * k + 2) hback (Nat.le_add_left ..)
  obtain ⟨mem₁, hmem₁⟩ : ∃ mem₁, mem.after (Write.ofWord (regs.sp - 2) (pc + 3)) = mem₁ := ⟨_, rfl⟩
  have hkeeps : View.Keeps regs.sp (4 * k + 2) mem mem₁ := hmem₁ ▸ .push hback (Nat.le_add_left ..) _
  have hword : mem₁.word (regs.sp - 2) = pc + 3 := hmem₁ ▸ View.word_after_ofWord ..
  have hcall : Block π irq ({ regs with pc }, mem)
      ({ regs with sp := regs.sp - 2, pc := 0x000A }, mem₁) :=
    hmem₁ ▸ htarget ▸ Block.call hi hv.1 rfl hv.2.1 hv.2.2 (hspare _ hlow).2 (hspare _ hhigh).2
  obtain ⟨⟨regs', mem'⟩, hinner, hreturned⟩ := hk { regs with sp := regs.sp - 2 } mem₁ ha
    (h.of_keeps hkeeps hspare) (hback.symm ▸ hspare)
  have hregs' : regs' = { regs with a := regs'.a, flags := regs'.flags, pc := pc + 3 } := by
    have hregs := hreturned.regs
    rwa [hback, hword] at hregs
  exact ⟨regs'.a, regs'.flags, mem', hregs' ▸ hcall.trans hinner, hreturned.result,
    hkeeps.trans (hreturned.memory.widen hback (Nat.le_refl _))⟩

theorem computes_small {n : Nat} (hn : n < 2) : Computes π irq n := by
  intro regs mem ha h hspare
  obtain ⟨hlow, hhigh⟩ := below_of_push (n := 4 * n + 2) (rfl : regs.sp + 2 = _) (Nat.le_add_left ..)
  obtain ⟨flags, hblock⟩ : ∃ flags, Block π irq ({ regs with pc := 0x000A }, mem)
      ({ regs with flags, sp := regs.sp + 2, pc := mem.word regs.sp }, mem) :=
    block_small h.listing (ha ▸ hn) (hspare _ hlow).2 (hspare _ hhigh).2
  have hfib : n = Nat.fib n % 256 := by
    obtain rfl | rfl : n = 0 ∨ n = 1 := by omega
    · rfl
    · rfl
  exact ⟨_, hblock, rfl, ha.trans hfib, fun _ _ => rfl⟩

theorem toNat_pred {b : UInt8} {k : Nat} (h : b.toNat = k + 1) : (b - 1).toNat = k := by
  have hle : 1 ≤ b := UInt8.le_iff_toNat_le.2 (by show 1 ≤ _; omega)
  rw [UInt8.toNat_sub_of_le _ _ hle, h]
  rfl

/-- The two calls, with the arguments before that of the caller, which stands in B. -/
theorem block_calls (regs : Registers) {n : Nat} (h₁ : Computes π irq (n + 1)) (h₂ : Computes π irq n)
    (h : HasRoutine mem) (ha : regs.a.toNat = n + 1) (hb : regs.b = regs.a)
    (hspare : ∀ a, Below regs.sp (4 * (n + 1) + 2) a → Spare a) :
    ∃ u v flags mem',
      Block π irq ({ regs with pc := 0x0010 }, mem)
        ({ regs with a := u, c := v, flags, pc := 0x0019 }, mem') ∧
      v.toNat = Nat.fib (n + 1) % 256 ∧ u.toNat = Nat.fib n % 256 ∧
      View.Keeps regs.sp (4 * (n + 1) + 2) mem mem' := by
  have hpred : (regs.b - 1).toNat = n := hb ▸ toNat_pred ha
  have hspare' (a : UInt16) (hbelow : Below regs.sp (4 * n + 2) a) : Spare a :=
    hspare a (hbelow.mono (by omega))
  obtain ⟨v, f₁, mem₁, hfirst, hv, hkeeps₁⟩ := block_call regs h₁ h h.listing.first
    h.listing.first_target (by decide) ha hspare
  have hroutine₁ := h.of_keeps hkeeps₁ hspare
  obtain ⟨f₂, hbetween⟩ : ∃ f₂, Block π irq ({ regs with a := v, flags := f₁, pc := 0x0013 }, mem₁)
      ({ regs with a := regs.b - 1, c := v, flags := f₂, pc := 0x0016 }, mem₁) :=
    block_between { regs with a := v, flags := f₁ } hroutine₁.listing
  obtain ⟨u, f₃, mem₂, hsecond, hu, hkeeps₂⟩ :=
    block_call { regs with a := regs.b - 1, c := v, flags := f₂ } h₂ hroutine₁
      hroutine₁.listing.second hroutine₁.listing.second_target (by decide) hpred hspare'
  exact ⟨u, v, f₃, mem₂, hfirst.trans (hbetween.trans hsecond), hv, hu,
    hkeeps₁.trans (hkeeps₂.widen (UInt16.add_zero _) (by show _ + 0 ≤ _; omega))⟩

theorem computes_large {n : Nat} (hn : n + 2 < 256) (h₁ : Computes π irq (n + 1))
    (h₂ : Computes π irq n) : Computes π irq (n + 2) := by
  intro regs mem ha h hspare
  obtain ⟨sp, hsp⟩ : ∃ sp, regs.sp - 2 = sp := ⟨_, rfl⟩
  have hback : sp + 2 = regs.sp := by grind
  obtain ⟨hlow, hhigh⟩ := below_of_push (n := 4 * (n + 2)) hback (by omega)
  have hframe (a : UInt16) (hb : Below regs.sp (4 * (n + 2)) a) : Spare a :=
    hspare a (hb.of_add_eq rfl (Nat.le_refl _))
  have hinner (a : UInt16) (hb : Below sp (4 * (n + 1) + 2) a) : Spare a :=
    hframe a (hb.of_add_eq hback (by show _ + 2 ≤ _; omega))
  -- BC goes to the stack.
  obtain ⟨mem₁, hmem₁⟩ : ∃ mem₁, mem.after (Write.ofWord sp regs.bc) = mem₁ := ⟨_, rfl⟩
  have hkeeps₁ : View.Keeps regs.sp (4 * (n + 2)) mem mem₁ := hmem₁ ▸ .push hback (by omega) _
  have hroutine₁ := h.of_keeps hkeeps₁ hframe
  obtain ⟨f₁, hlarge⟩ : ∃ f₁, Block π irq ({ regs with pc := 0x000A }, mem)
      ({ regs with flags := f₁, a := regs.a - 1, b := regs.a - 1, sp, pc := 0x0010 }, mem₁) := by
    rw [← hsp] at hmem₁ hlow hhigh ⊢
    exact block_large h.listing (by omega) (hframe _ hlow).2 (hframe _ hhigh).2 hmem₁ hroutine₁.listing
  -- The calls come back with the two numbers before.
  obtain ⟨u, v, f₂, mem₂, hcalls, hv, hu, hkeeps₂⟩ :=
    block_calls { regs with flags := f₁, a := regs.a - 1, b := regs.a - 1, sp } h₁ h₂ hroutine₁
      (toNat_pred ha) rfl hinner
  have hroutine₂ := hroutine₁.of_keeps hkeeps₂ hinner
  -- What stands on the stack is as it was put there.
  have hkeeps : View.Keeps regs.sp (4 * (n + 2)) mem mem₂ :=
    hkeeps₁.trans (hkeeps₂.widen hback (by show _ + 2 ≤ _; omega))
  have hbc : mem₂.word sp = regs.bc := by
    rw [hkeeps₂.word (by omega), ← hmem₁, View.word_after_ofWord]
  have hreturn : mem₂.word regs.sp = mem.word regs.sp := hkeeps.word (by omega)
  obtain ⟨hlow', hhigh'⟩ := below_of_push (n := 4 * (n + 2) + 2) (rfl : regs.sp + 2 = _) (by omega)
  obtain ⟨f₃, hleave⟩ : ∃ f₃, Block π irq
      ({ regs with flags := f₂, a := u, b := regs.a - 1, c := v, sp, pc := 0x0019 }, mem₂)
      ({ regs.setBc (mem₂.word sp) with
        flags := f₃, a := u + v, sp := sp + 2 + 2, pc := mem₂.word (sp + 2) }, mem₂) :=
    block_leave { regs with flags := f₂, a := u, b := regs.a - 1, c := v, sp } hroutine₂.listing
      (hframe _ hlow).2 (hframe _ hhigh).2 (hback ▸ (hspare _ hlow').2) (hback ▸ (hspare _ hhigh').2)
  refine ⟨_, hlarge.trans (hcalls.trans hleave), ?_, ?_, hkeeps⟩
  · simp only [hbc, hreturn, hback, Registers.setBc, Registers.bc, hi_word, lo_word]
  · show (u + v).toNat = _
    rw [UInt8.toNat_add, hu, hv, Nat.fib_add_two]
    omega

theorem computes (n : Nat) (hn : n < 256) : Computes π irq n := by
  induction n using Nat.strong_induction_on with
  | _ n ih =>
    rcases n with _ | _ | n
    · exact computes_small (by decide)
    · exact computes_small (by decide)
    · exact computes_large hn (ih _ (by omega) (by omega)) (ih _ (by omega) (by omega))

/-- Called with `n` in A and a return address on the stack, the routine returns with the `n`th Fibonacci
number modulo 256 in A, and but for the flags and the `4 * n` bytes below the stack pointer all is as
it was. -/
theorem fibonacci_returns {m : Machine π} (hp : m.cpu.phase = .ready) (hoff : m.cpu.ime = false)
    (harm : m.cpu.eiArmed = false) (hpc : m.cpu.regs.pc = 0x000A) (hmem : m.bus.Holds mem)
    (hcode : ∀ i (h : i < fibProgram.length), mem (.ofNat i) = fibProgram[i])
    (hspare : ∀ a, Below (m.cpu.regs.sp + 2) (4 * m.cpu.regs.a.toNat + 2) a →
      ¬ (0x000A ≤ a ∧ a ≤ 0x001B) ∧ a ≠ ifAddress ∧ a ≠ ieAddress)
    (keep : Event → Bool) (seen : Array Event) :
    ∃ k m', (iterate step keep k m seen).outcome = (m', none) ∧
      m'.cpu.regs.a.toNat = Nat.fib m.cpu.regs.a.toNat % 256 ∧
      m'.cpu = { m.cpu with regs := { m.cpu.regs with
        a := m'.cpu.regs.a, flags := m'.cpu.regs.flags
        sp := m.cpu.regs.sp + 2, pc := mem.word m.cpu.regs.sp } } ∧
      m'.bus.irq = m.bus.irq ∧
      ∃ mem', m'.bus.Holds mem' ∧ View.Keeps m.cpu.regs.sp (4 * m.cpu.regs.a.toNat) mem mem' := by
  have hroutine : HasRoutine mem := by
    intro a ha
    have hlt : a.toNat < fibProgram.length :=
      Nat.lt_of_le_of_lt (UInt16.le_iff_toNat_le.1 ha.2) (by decide)
    rw [List.getD_eq_getElem?_getD, List.getElem?_eq_getElem hlt, Option.getD_some, ← hcode _ hlt,
      UInt16.ofNat_toNat]
  rcases m with ⟨⟨regs, ime, eiArmed, phase⟩, bus, cycles⟩
  dsimp only at *
  subst hp hoff harm
  have hregs : { regs with pc := 0x000A } = regs := by rw [← hpc]
  have hcomputes : Computes π bus.irq regs.a.toNat := computes _ regs.a.toNat_lt
  obtain ⟨⟨regs', mem'⟩, hblock, hreturned⟩ := hcomputes regs mem rfl hroutine hspare
  rw [hregs] at hblock
  obtain ⟨acts, k, m', hperforms, hcpu, hbus, hirq⟩ :=
    hblock { cpu := { regs, ime := false, eiArmed := false, phase := .ready }, bus, cycles }
      ⟨rfl, hmem, rfl⟩
  refine ⟨k, m', hperforms.outcome_iterate, ?_, ?_, hirq, mem', hbus, hreturned.memory⟩
  · rw [hcpu]
    exact hreturned.result
  · rw [hcpu]
    exact congrArg (Cpu.mk · false false .ready) hreturned.regs

/-- The sixth number is 8. -/
theorem fibonacci_returns_six :
    let W := Write.ofBytes 0 fibProgram ++ Write.ofWord 0x0080 0x1234
    let m : Machine Probe :=
      { cpu.regs := { a := 6, sp := 0x0080, pc := 0x000A }, bus := (Bus.ofCells (.zeros _) {}).store W }
    ∃ k m', (iterate step (fun _ => true) k m #[]).outcome = (m', none) ∧ m'.cpu.regs.a = 8 ∧
      m'.cpu.regs.pc = 0x1234 := by
  intro W m
  have hmem := (Bus.holds_ofCells (π := Probe) (.zeros _) {}).store W
  have hspare : ∀ a, Below 0x0082 26 a →
      ¬ (0x000A ≤ a ∧ a ≤ 0x001B) ∧ a ≠ ifAddress ∧ a ≠ ieAddress := by
    intro a ha
    obtain ⟨hlow, hhigh⟩ := ha.bounds (by decide)
    have hlow' : 0x0068 ≤ a := UInt16.le_iff_toNat_le.2 hlow
    have hhigh' : a < 0x0082 := UInt16.lt_iff_toNat_lt.2 hhigh
    grind [ifAddress, ieAddress]
  obtain ⟨k, m', hrun, ha, hcpu, -⟩ := fibonacci_returns (m := m) rfl rfl rfl rfl hmem
    (by decide +kernel) hspare (fun _ => true) #[]
  refine ⟨k, m', hrun, UInt8.toNat_inj.1 ha, ?_⟩
  rw [hcpu]
  show (View.after (fun a => (Bytes.zeros addressSpace).get ⟨a.toNat, a.toNat_lt⟩) W).word 0x0080 = 0x1234
  decide +kernel

end Machine

end Dmg
