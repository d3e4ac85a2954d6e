import Dmg.Proofs.Atomic
import Dmg.Proofs.Session

/-! # Pushes and pops

What an operation does with the stack, told by the registers before and after it
(`Op.transfer?`): a push stores its word below the stack pointer, and a pop delivers the word that
the stack pointer points to (`Op.apply_push`, `Op.apply_pop`). -/

namespace Dmg

/-- A word that goes to the stack or comes from it, and the pair that it comes from or goes to; the
program counter where there is none. -/
inductive Transfer where
  | push (src : Option StackPair) (v : UInt16)
  | pop (dst : Option StackPair) (v : UInt16)
deriving DecidableEq

/-- What is left of a word that is popped. The low nibble of F does not exist. -/
def kept (dst : Option StackPair) (v : UInt16) : UInt16 :=
  if dst = some .af then word (hi v) (lo v &&& 0xF0) else v

/-- What the operation does with the stack. The program counter is behind the instruction before it,
which is where a call returns to. -/
def Op.transfer? (op : Op) (before after : Registers) : Option Transfer :=
  match op with
  | .push p => some (.push (some p) (before.getStackPair p))
  | .pop p => some (.pop (some p) (after.getStackPair p))
  | .call cond => if branches cond before.flags then some (.push none before.pc) else none
  | .ret cond => if branches cond before.flags then some (.pop none after.pc) else none
  | .reti => some (.pop none after.pc)
  | .rst _ => some (.push none before.pc)
  | _ => none

theorem Registers.kept_getStackPair (regs : Registers) (p : StackPair) :
    kept (some p) (regs.getStackPair p) = regs.getStackPair p := by
  cases p with
  | af =>
    have hf : regs.f &&& 0xF0 = regs.f := by rw [f, ← Flags.toByte_ofByte, Flags.ofByte_toByte]
    rw [kept, if_pos rfl, getStackPair, af, hi_word, lo_word, hf]
  | bc | de | hl => rfl

theorem Registers.getStackPair_setStackPair_kept (regs : Registers) (p : StackPair) (v : UInt16) :
    (regs.setStackPair p v).getStackPair p = kept (some p) v := by
  rw [getStackPair_setStackPair, kept]
  simp only [Option.some.injEq]

variable {op : Op} {mem : View} {imm : UInt16} {regs : Registers} {v : UInt16}

theorem Op.apply_push {src : Option StackPair}
    (h : op.transfer? regs (op.apply mem imm regs).regs = some (.push src v)) :
    (op.apply mem imm regs).writes = Write.ofWord (regs.sp - 2) v ∧
      (op.apply mem imm regs).regs.sp = regs.sp - 2 ∧ kept src v = v := by
  cases op with
  | push p =>
    obtain ⟨rfl, rfl⟩ : some p = src ∧ regs.getStackPair p = v := by simpa [transfer?] using h
    exact ⟨rfl, rfl, regs.kept_getStackPair p⟩
  | call cond =>
    obtain ⟨htaken, rfl, rfl⟩ : branches cond regs.flags = true ∧ none = src ∧ regs.pc = v := by
      simpa [transfer?] using h
    rw [apply, if_pos htaken]
    exact ⟨rfl, rfl, rfl⟩
  | rst vector =>
    obtain ⟨rfl, rfl⟩ : none = src ∧ regs.pc = v := by simpa [transfer?] using h
    exact ⟨rfl, rfl, rfl⟩
  | ret cond => simp [transfer?] at h
  | _ => cases h

theorem Op.apply_pop {dst : Option StackPair}
    (h : op.transfer? regs (op.apply mem imm regs).regs = some (.pop dst v)) :
    (op.apply mem imm regs).writes = [] ∧ (op.apply mem imm regs).regs.sp = regs.sp + 2 ∧
      v = kept dst (mem.word regs.sp) := by
  cases op with
  | pop p =>
    obtain ⟨rfl, rfl⟩ : some p = dst ∧ ((Op.pop p).apply mem imm regs).regs.getStackPair p = v := by
      simpa [transfer?] using h
    refine ⟨rfl, ?_, Registers.getStackPair_setStackPair_kept _ p _⟩
    cases p <;> rfl
  | ret cond =>
    obtain ⟨htaken, rfl, rfl⟩ : branches cond regs.flags = true ∧ none = dst ∧
        ((Op.ret cond).apply mem imm regs).regs.pc = v := by simpa [transfer?] using h
    rw [apply, if_pos htaken]
    exact ⟨rfl, rfl, rfl⟩
  | reti =>
    obtain ⟨rfl, rfl⟩ : none = dst ∧ (Op.reti.apply mem imm regs).regs.pc = v := by
      simpa [transfer?] using h
    exact ⟨rfl, rfl, rfl⟩
  | call cond => simp [transfer?] at h
  | _ => cases h

/-! ### Nesting -/

/-- Every push is taken back by a pop and every pop has such a push, at most `d` of them waiting at a
time, and `R` holds of each push and its pop. -/
inductive Nested (R : Transfer → Transfer → Prop) : Nat → List Transfer → Prop
  | nil : Nested R 0 []
  | pair {src dst : Option StackPair} {v v' : UInt16} {d e : Nat} {B C : List Transfer} :
    R (.push src v) (.pop dst v') → Nested R d B → Nested R e C →
      Nested R (max (d + 1) e) (.push src v :: B ++ .pop dst v' :: C)

/-- `Replays R s T s'`: the transfers lead from the pushes `s` that wait, the last one first, to `s'`,
and `R` holds of each push and the pop that takes it off. -/
inductive Replays (R : Transfer → Transfer → Prop) :
    List Transfer → List Transfer → List Transfer → Prop
  | done (s : List Transfer) : Replays R s [] s
  | push {src : Option StackPair} {v : UInt16} {s T s' : List Transfer} :
    Replays R (.push src v :: s) T s' → Replays R s (.push src v :: T) s'
  | pop {p : Transfer} {dst : Option StackPair} {v : UInt16} {s T s' : List Transfer} :
    R p (.pop dst v) → Replays R s T s' → Replays R (p :: s) (.pop dst v :: T) s'

section
variable {R R' : Transfer → Transfer → Prop} {s s' s'' T T' : List Transfer}

theorem Replays.trans (h : Replays R s T s') (h' : Replays R s' T' s'') :
    Replays R s (T ++ T') s'' := by
  induction h with
  | done s => exact h'
  | push _ ih => exact .push (ih h')
  | pop hR _ ih => exact .pop hR (ih h')

theorem Replays.split (h : Replays R s (T ++ T') s'') :
    ∃ s', Replays R s T s' ∧ Replays R s' T' s'' := by
  induction T generalizing s with
  | nil => exact ⟨s, .done s, h⟩
  | cons t T ih =>
    cases h with
    | push h =>
      obtain ⟨s', hT, hT'⟩ := ih h
      exact ⟨s', .push hT, hT'⟩
    | pop hR h =>
      obtain ⟨s', hT, hT'⟩ := ih h
      exact ⟨s', .pop hR hT, hT'⟩

/-- What waits is no matter of what holds of the pairs. -/
theorem Replays.unique (h : Replays R s T s') (h' : Replays R' s T s'') : s' = s'' := by
  induction h with
  | done s =>
    cases h'
    rfl
  | push _ ih =>
    cases h' with
    | push h' => exact ih h'
  | pop _ _ ih =>
    cases h' with
    | pop _ h' => exact ih h'

theorem Nested.replays {d : Nat} (h : Nested R d T) (s : List Transfer) : Replays R s T s := by
  induction h generalizing s with
  | nil => exact .done s
  | pair hR _ _ ihB ihC => exact .push ((ihB _).trans (.pop hR (ihC s)))

/-- Brackets pair off in one way: what holds of the pairs of a nesting holds of a push and a pop that
have nested transfers between them. -/
theorem Nested.of_between {src dst : Option StackPair} {v v' : UInt16} {A B C : List Transfer}
    {d e : Nat} (h : Nested R d (A ++ .push src v :: B ++ .pop dst v' :: C)) (hB : Nested R' e B) :
    R (.push src v) (.pop dst v') := by
  -- When the pop comes, the pushes that wait are the one before `B` and what waited before that, since
  -- `B` leaves them as they were.
  obtain ⟨s, hs, hpop⟩ := (h.replays []).split
  obtain ⟨s', -, hpush⟩ := hs.split
  cases hpush with
  | push hB' =>
    obtain rfl := hB'.unique (hB.replays _)
    cases hpop with
    | pop hR _ => exact hR

end

/-! ### The processor -/

def Activity.serves : Activity → Bool
  | .dispatch _ => true
  | .execute _ => false

namespace Machine
variable {π : Type} [HostDevice π] {m : Machine π} {w : Work}

theorem regs_stepCpu (m : Machine π) : m.stepCpu.machine.cpu.regs =
    match m.begun with
    | some w => w.cpu.regs
    | none => m.cpu.regs := by
  rcases m.step_cases with ⟨act, n, h⟩ | ⟨h, ha⟩ | ⟨w, h⟩ | ⟨hf, e, h⟩
  · rw [stepCpu_busy h, begun_of_busy h]
    show (m.cpu.countDown act n).regs = _
    rw [Cpu.countDown]
    split
    · rfl
    · exact Cpu.regs_complete _ _
  · rw [stepCpu_idle h ha, begun_of_idle h ha]
  · rw [(stepCpu_begun h).1, h]
    show (w.cpu.settle w.act w.cost).regs = _
    rw [Cpu.settle]
    split
    · rfl
    · exact Cpu.regs_complete _ _
  · rw [(stepCpu_refused hf h).1, begun_of_refused h]

/-- What the work does with the stack. -/
def transferOf (m : Machine π) (w : Work) : Option Transfer :=
  match w.act with
  | .execute i =>
    i.op.transfer? { m.cpu.regs with pc := m.cpu.regs.pc + i.size.toUInt16 } w.cpu.regs
  | .dispatch _ => none

/-- What the next step of the processor does with the stack. -/
def transfer? (m : Machine π) : Option Transfer := m.begun.bind m.transferOf

/-- The next step uses the stack as a stack or leaves it alone: it serves no interrupt, and unless it
pushes or pops it neither writes nor moves the stack pointer. -/
def Orderly (m : Machine π) : Prop :=
  ∀ w ∈ m.begun, w.act.serves = false ∧
    (m.transferOf w = none → w.writes = [] ∧ w.cpu.regs.sp = m.cpu.regs.sp)

instance (m : Machine π) : Decidable m.Orderly :=
  inferInstanceAs (Decidable (∀ w ∈ m.begun, _ ∧ (_ → _ ∧ _)))

theorem begun_of_transfer? {t : Transfer} (h : m.transfer? = some t) : ∃ i : Instruction,
    m.begun = some ({ m.cpu with phase := .ready }.execute i m.bus.read) ∧
    i.op.transfer? { m.cpu.regs with pc := m.cpu.regs.pc + i.size.toUInt16 }
      ({ m.cpu with phase := .ready }.execute i m.bus.read).cpu.regs = some t := by
  obtain ⟨w, hw, ht⟩ := Option.bind_eq_some_iff.1 h
  rcases work_eq_ok.1 (begun_eq_some.1 hw).2 with ⟨l, -, rfl⟩ | ⟨-, i, -, rfl⟩
  · cases ht
  · exact ⟨i, hw, ht⟩

theorem step_push {src : Option StackPair} {v : UInt16} (h : m.transfer? = some (.push src v)) :
    m.stepWrites = Write.ofWord (m.cpu.regs.sp - 2) v ∧
      m.stepCpu.machine.cpu.regs.sp = m.cpu.regs.sp - 2 ∧ kept src v = v := by
  obtain ⟨i, hbegun, ht⟩ := begun_of_transfer? h
  rw [stepWrites, regs_stepCpu, hbegun]
  exact Op.apply_push ht

theorem step_pop {dst : Option StackPair} {v : UInt16} (h : m.transfer? = some (.pop dst v)) :
    m.stepWrites = [] ∧ m.stepCpu.machine.cpu.regs.sp = m.cpu.regs.sp + 2 ∧
      v = kept dst (View.word m.bus.read m.cpu.regs.sp) := by
  obtain ⟨i, hbegun, ht⟩ := begun_of_transfer? h
  rw [stepWrites, regs_stepCpu, hbegun]
  exact Op.apply_pop ht

theorem step_quiet (ho : m.Orderly) (h : m.transfer? = none) :
    m.stepWrites = [] ∧ m.stepCpu.machine.cpu.regs.sp = m.cpu.regs.sp := by
  rw [stepWrites, regs_stepCpu]
  cases hw : m.begun with
  | none => exact ⟨rfl, rfl⟩
  | some w =>
    rw [transfer?, hw] at h
    exact (ho w hw).2 h

end Machine

end Dmg
