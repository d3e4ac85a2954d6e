import Dmg.Proofs.Accumulator
import Dmg.Proofs.Course
import Dmg.Proofs.Loading
import Dmg.Proofs.Works
import Mathlib.Data.Nat.Digits.Defs

/-! # Chains of carries

Numbers of any length are added and subtracted a byte at a time, the least significant one first:
each byte of the first number is loaded into A, and ADC or SBC takes the byte of the second one and
the carry that the byte before has left (`Machine.Chain`). Each byte turns the equation between its
operands, its result and the two carries (`IsSum.total`, `IsDifference.total`) into the one for a
number that is longer by a byte, so the bytes left in A are those of the sum or the difference, and
the carry and half carry of the last byte are those of the whole numbers
(`Machine.Chain.carries_through`). What comes between the bytes may be any code that keeps the carry;
there is a chain for any two numbers of one length (`Machine.exists_chain`). Other operations on the
bytes of numbers are put together in the same way (`Machine.Ripple`). -/

namespace Dmg

/-- The number that bytes stand for, the least significant one first. -/
def littleEndian (bytes : List UInt8) : Nat := Nat.ofDigits 256 (bytes.map UInt8.toNat)

theorem littleEndian_cons (b : UInt8) (bytes : List UInt8) :
    littleEndian (b :: bytes) = b.toNat + 256 * littleEndian bytes := Nat.ofDigits_cons

theorem littleEndian_singleton (b : UInt8) : littleEndian [b] = b.toNat := Nat.ofDigits_singleton ..

/-! ### Sums and differences of long numbers -/

/-- `r` and `f` are what adding `x` and `y`, numbers of `k + 1` bytes, and the carry `c` gives. The
half carry comes out of the low nibble of the byte on top. -/
structure IsLongSum (k x y c r : Nat) (f : Flags) : Prop where
  value : r = (x + y + c) % 256 ^ (k + 1)
  half : f.h = true ↔ 16 * 256 ^ k ≤ x % (16 * 256 ^ k) + y % (16 * 256 ^ k) + c
  carry : f.c = true ↔ 256 ^ (k + 1) ≤ x + y + c

/-- `r` and `f` are what subtracting `y` and the borrow `c` from `x` gives. -/
structure IsLongDifference (k x y c r : Nat) (f : Flags) : Prop where
  value : (r : Int) = (x - y - c) % 256 ^ (k + 1)
  half : f.h = true ↔ x % (16 * 256 ^ k) < y % (16 * 256 ^ k) + c
  borrow : f.c = true ↔ x < y + c

section
variable {a n r : UInt8} {c : Bool} {f f' : Flags} {k x y z : Nat}

theorem IsSum.total (h : IsSum a.toNat n.toNat c.toNat r f) :
    r.toNat + 256 * f.c.toNat = a.toNat + n.toNat + c.toNat := by
  have hvalue := h.value
  have hcarry := h.carry
  have ha := a.toNat_lt
  have hn := n.toNat_lt
  have hc := c.toNat_le
  cases hf : f.c <;> simp [hf] at hcarry ⊢ <;> omega

theorem IsDifference.total (h : IsDifference a.toNat n.toNat c.toNat r f) :
    a.toNat + 256 * f.c.toNat = r.toNat + n.toNat + c.toNat := by
  have hvalue := h.value
  have hborrow := h.borrow
  have ha := a.toNat_lt
  have hn := n.toNat_lt
  have hc := c.toNat_le
  cases hf : f.c <;> simp [hf] at hborrow ⊢ <;> omega

/-- The remainder by a multiple of 256 keeps the lowest byte. -/
theorem byte_add_emod (b : UInt8) (x : Int) {N : Int} (hN : 0 < N) :
    (b.toNat + 256 * x) % (256 * N) = b.toNat + 256 * (x % N) := by
  have hb := b.toNat_lt
  have hpos := Int.emod_nonneg x hN.ne'
  have hlt := Int.emod_lt_of_pos x hN
  have hsplit : (b.toNat + 256 * x : Int) = b.toNat + 256 * (x % N) + 256 * N * (x / N) := by
    linarith [Int.emod_add_mul_ediv x N]
  rw [hsplit, Int.add_mul_emod_self_left, Int.emod_eq_of_lt (by omega) (by omega)]

theorem byte_add_mod (b : UInt8) (x : Nat) {N : Nat} (hN : 0 < N) :
    (b.toNat + 256 * x) % (256 * N) = b.toNat + 256 * (x % N) := by
  exact_mod_cast byte_add_emod b x (Int.natCast_pos.2 hN)

/-- A sum is told by what is left of it and the carry out of it. -/
theorem mod_of_total {N r t : Nat} {b : Bool} (hr : r < N) (h : r + N * b.toNat = t) :
    r = t % N ∧ (b = true ↔ N ≤ t) := by
  subst h
  rw [Nat.add_mul_mod_self_left, Nat.mod_eq_of_lt hr]
  refine ⟨rfl, ?_⟩
  cases b with
  | true => simp
  | false => simpa using hr

theorem emod_of_total {N r x y : Nat} {b : Bool} (hr : r < N) (h : x + N * b.toNat = r + y) :
    (r : Int) = (x - y) % N ∧ (b = true ↔ x < y) := by
  have hdiff : (x - y : Int) = r + N * (-b.toNat) := by
    have : (x + N * b.toNat : Int) = r + y := by exact_mod_cast h
    linarith
  rw [hdiff, Int.add_mul_emod_self_left, Int.emod_eq_of_lt (by omega) (by omega)]
  refine ⟨rfl, ?_⟩
  cases b with
  | true =>
    rw [Bool.toNat_true, Nat.mul_one] at h
    exact ⟨fun _ => by omega, fun _ => rfl⟩
  | false =>
    rw [Bool.toNat_false, Nat.mul_zero] at h
    exact ⟨nofun, fun _ => by omega⟩

theorem half_unit (k : Nat) : 16 * 256 ^ (k + 1) = 256 * (16 * 256 ^ k) := by
  rw [Nat.pow_succ]
  ring

theorem IsLongSum.cons (hd : IsSum a.toNat n.toNat c.toNat r f)
    (h : IsLongSum k x y f.c.toNat z f') :
    IsLongSum (k + 1) (a.toNat + 256 * x) (n.toNat + 256 * y) c.toNat (r.toNat + 256 * z) f' := by
  have htotal := hd.total
  have hr := r.toNat_lt
  have hsum : a.toNat + 256 * x + (n.toNat + 256 * y) + c.toNat =
      r.toNat + 256 * (x + y + f.c.toNat) := by omega
  refine ⟨?_, ?_, ?_⟩
  · rw [hsum, h.value, Nat.pow_succ' (n := k + 1), byte_add_mod _ _ (by positivity)]
  · rw [half_unit, byte_add_mod _ _ (by positivity), byte_add_mod _ _ (by positivity), h.half]
    omega
  · rw [hsum, Nat.pow_succ' (n := k + 1), h.carry]
    omega

theorem IsLongDifference.cons (hd : IsDifference a.toNat n.toNat c.toNat r f)
    (h : IsLongDifference k x y f.c.toNat z f') :
    IsLongDifference (k + 1) (a.toNat + 256 * x) (n.toNat + 256 * y) c.toNat (r.toNat + 256 * z)
      f' := by
  have htotal := hd.total
  have hr := r.toNat_lt
  refine ⟨?_, ?_, ?_⟩
  · have hdiff : ((a.toNat + 256 * x : Nat) - (n.toNat + 256 * y : Nat) - c.toNat : Int) =
        r.toNat + 256 * (x - y - f.c.toNat) := by omega
    rw [hdiff, pow_succ' (256 : Int) (k + 1), byte_add_emod _ _ (by positivity), ← h.value]
    rfl
  · rw [half_unit, byte_add_mod _ _ (by positivity), byte_add_mod _ _ (by positivity), h.half]
    omega
  · rw [h.borrow]
    omega

end

/-- What ADC and SBC make of numbers of `k + 1` bytes. -/
def AluOp.MeetsLong (op : AluOp) (k x y c r : Nat) (f : Flags) : Prop :=
  match op with
  | .adc => IsLongSum k x y c r f
  | .sbc => IsLongDifference k x y c r f
  | _ => True

namespace AluOp
variable {op : AluOp} {a n r : UInt8} {c : Bool} {f f' : Flags} {k x y z : Nat}

theorem Meets.long (h : op.Meets a.toNat n.toNat c.toNat r f) :
    op.MeetsLong 0 a.toNat n.toNat c.toNat r.toNat f := by
  cases op with
  | adc => exact ⟨h.value, h.half, h.carry⟩
  | sbc => exact ⟨h.value, h.half, h.borrow⟩
  | _ => trivial

theorem MeetsLong.cons (hd : op.Meets a.toNat n.toNat c.toNat r f)
    (h : op.MeetsLong k x y f.c.toNat z f') :
    op.MeetsLong (k + 1) (a.toNat + 256 * x) (n.toNat + 256 * y) c.toNat (r.toNat + 256 * z) f' := by
  cases op with
  | adc => exact IsLongSum.cons hd h
  | sbc => exact IsLongDifference.cons hd h
  | _ => trivial

end AluOp

/-! ### Chains -/

namespace Machine
variable {π : Type} [HostDevice π] {m m' : Machine π} {op : AluOp} {x y : UInt8}
  {xs ys rs : List UInt8}

/-- The next step loads `x` into A. -/
def LoadsA (m : Machine π) (x : UInt8) : Prop :=
  ∃ src, m.Finds (.load (.reg .a) src) ∧ src.byte m.bus.read m.cpu.regs = x

/-- The next step executes `op` with the operand `y`. -/
def Operates (m : Machine π) (op : AluOp) (y : UInt8) : Prop :=
  ∃ src, m.Finds (.alu op src) ∧ src.byte m.bus.read m.cpu.regs = y

/-- Whatever comes between `m` and `m'` leaves the carry. -/
structure Carries (m m' : Machine π) : Prop where
  course : ∃ H, Course m H m'
  carry : m'.cpu.regs.flags.c = m.cpu.regs.flags.c

/-- From `m` on, `x` is loaded into A, and `m'` is where `op` has been executed with `y`. -/
inductive Digit (op : AluOp) (m : Machine π) (x y : UInt8) : Machine π → Prop
  | intro (m₁ m₂ : Machine π) : m.Carries m₁ → m₁.LoadsA x → m₁.stepCpu.machine.Carries m₂ →
    m₂.cpu.regs.a = m₁.stepCpu.machine.cpu.regs.a → m₂.Operates op y →
    Digit op m x y m₂.stepCpu.machine

/-- From `m` to `m'` the bytes `xs` and `ys` are taken one after the other, and `rs` is what is in A
after each of them. -/
inductive Chain (op : AluOp) : Machine π → List UInt8 → List UInt8 → List UInt8 → Machine π → Prop
  | last {m m' : Machine π} {x y : UInt8} :
    m.Digit op x y m' → Chain op m [x] [y] [m'.cpu.regs.a] m'
  | digit {m m₁ m' : Machine π} {x y : UInt8} {xs ys rs : List UInt8} :
    m.Digit op x y m₁ → Chain op m₁ xs ys rs m' →
    Chain op m (x :: xs) (y :: ys) (m₁.cpu.regs.a :: rs) m'

/-! ### Code that is a chain -/

theorem Finds.completes {o : Op} {regs : Registers} (h : m.Finds o) (hcpu : m.cpu = { regs })
    (hcontrol : ∀ cpu : Cpu, cpu.control o = cpu) (hwrites : m.stepWrites = []) :
    ∃ H m', Course m.stepCpu.machine H m' ∧ m'.cpu = { regs := m.stepCpu.machine.cpu.regs } ∧
      m'.bus = m.bus := by
  obtain ⟨i, -, rfl, hw⟩ := h.begun
  obtain ⟨H, hcourse⟩ := course_perform hw
  have hregs := regs_stepCpu m
  rw [stepWrites, hw] at hwrites
  rw [hw] at hregs
  refine ⟨H, _, hcourse, ?_, ?_⟩
  · rw [hregs, hcpu]
    show Cpu.complete { Cpu.control i.op _ with regs := _ } (.execute i) = _
    rw [hcontrol]
    exact Cpu.complete_execute rfl i
  · exact congrArg m.bus.store hwrites

/-- The bytes from `a` on are `code`. -/
def CodeAt (mem : View) : UInt16 → List UInt8 → Prop
  | _, [] => True
  | a, b :: code => mem a = b ∧ CodeAt mem (a + 1) code

def decidableCodeAt (mem : View) : (a : UInt16) → (code : List UInt8) → Decidable (CodeAt mem a code)
  | _, [] => .isTrue trivial
  | a, b :: code =>
    have := decidableCodeAt mem (a + 1) code
    inferInstanceAs (Decidable (mem a = b ∧ CodeAt mem (a + 1) code))

instance (mem : View) (a : UInt16) (code : List UInt8) : Decidable (CodeAt mem a code) :=
  decidableCodeAt mem a code

/-- LD A,n and the operation on an immediate byte, for each byte of the two numbers. -/
def chainCode (op : AluOp) : List UInt8 → List UInt8 → List UInt8
  | x :: xs, y :: ys => 0x3E :: x :: (0xC6 + 8 * op.field) :: y :: chainCode op xs ys
  | _, _ => []

theorem Carries.refl (m : Machine π) : m.Carries m := ⟨⟨_, .start⟩, rfl⟩

theorem Carries.trans {m₁ : Machine π} (h : m.Carries m₁) (h' : m₁.Carries m') : m.Carries m' := by
  obtain ⟨⟨H, hcourse⟩, hc⟩ := h
  obtain ⟨⟨H', hcourse'⟩, hc'⟩ := h'
  exact ⟨⟨_, hcourse.trans hcourse'⟩, hc'.trans hc⟩

theorem Carries.digit {m₁ : Machine π} (h : m.Carries m₁) (hd : m₁.Digit op x y m') :
    m.Digit op x y m' := by
  cases hd with
  | intro m₂ m₃ hcarries hload hcarries' ha hop =>
    exact .intro m₂ m₃ (h.trans hcarries) hload hcarries' ha hop

theorem Carries.chain {m₁ : Machine π} (h : m.Carries m₁) (hc : Chain op m₁ xs ys rs m') :
    Chain op m xs ys rs m' := by
  cases hc with
  | last hd => exact .last (h.digit hd)
  | digit hd hc => exact .digit (h.digit hd) hc

theorem finds_of_cpu {o : Op} {regs : Registers} (hcpu : m.cpu = { regs })
    (hopcode : o.StandsAt m.bus.read regs.pc) : m.Finds o := by
  refine ⟨.inl ?_, ?_, ?_⟩
  · rw [hcpu]
  · rw [hcpu]
    rfl
  · rwa [hcpu]

theorem next_next (a : UInt16) : a + 1 + 1 = a + 2 := UInt16.add_assoc ..

/-- LD r,n where it stands, to the end of its cycles. -/
theorem load_of_code {regs : Registers} {r : Reg} {b : UInt8} {code : List UInt8}
    (hopcode : (Op.load (.reg r) .imm).opcode? = some b) (hcpu : m.cpu = { regs })
    (hcode : CodeAt m.bus.read regs.pc (b :: x :: code)) :
    m.Finds (.load (.reg r) .imm) ∧ Operand.imm.byte m.bus.read m.cpu.regs = x ∧
      ∃ H m₁, Course m.stepCpu.machine H m₁ ∧ m₁.cpu = { regs := m.stepCpu.machine.cpu.regs } ∧
        m₁.cpu.regs = Registers.set { regs with pc := regs.pc + 2 } r x ∧
        CodeAt m₁.bus.read (regs.pc + 2) code := by
  obtain ⟨h₀, h₁, hrest⟩ := hcode
  have hload : m.Finds (.load (.reg r) .imm) := finds_of_cpu hcpu (.inl (by rw [h₀, hopcode]))
  have hx : Operand.imm.byte m.bus.read m.cpu.regs = x := by
    rw [hcpu]
    exact h₁
  have hleaves := hload.leaves
  rw [Op.apply_load_reg, hx] at hleaves
  obtain ⟨H, m₁, hcourse, hcpu₁, hbus₁⟩ := hload.completes hcpu (fun _ => rfl) hleaves.writes
  refine ⟨hload, hx, H, m₁, hcourse, hcpu₁, ?_, ?_⟩
  · have hstill : Operand.imm.hlStep = 0 := rfl
    rw [hcpu₁, hleaves.regs, hcpu, hstill, UInt16.add_zero, Registers.setHl_hl]
    rfl
  · rwa [hbus₁, ← next_next]

theorem digit_of_code {regs : Registers} {code : List UInt8} (hcpu : m.cpu = { regs })
    (hcode : CodeAt m.bus.read regs.pc (0x3E :: x :: (0xC6 + 8 * op.field) :: y :: code)) :
    ∃ m₁ m₂, m.Digit op x y m₁ ∧ (∃ H, Course m₁ H m₂) ∧ m₂.cpu = { regs := m₁.cpu.regs } ∧
      CodeAt m₂.bus.read m₁.cpu.regs.pc code := by
  obtain ⟨hload, hx, H, m₁, hcourse, hcpu₁, hregs₁, h₂, h₃, hrest⟩ :=
    load_of_code (r := .a) rfl hcpu hcode
  have hop : m₁.Finds (.alu op .imm) := finds_of_cpu hcpu₁ <| .inl <| by
    rw [← congrArg Cpu.regs hcpu₁, hregs₁]
    exact congrArg some h₂.symm
  have hy : Operand.imm.byte m₁.bus.read m₁.cpu.regs = y := by
    rw [hregs₁]
    exact h₃
  have hleaves := hop.leaves
  rw [Op.apply_alu hop.opcode] at hleaves
  obtain ⟨H₁, m₂, hcourse₁, hcpu₂, hbus₂⟩ := hop.completes hcpu₁ (fun _ => rfl) hleaves.writes
  refine ⟨_, m₂, .intro m m₁ (.refl m) ⟨_, hload, hx⟩ ⟨⟨H, hcourse⟩, ?_⟩ ?_ ⟨_, hop, hy⟩,
    ⟨H₁, hcourse₁⟩, hcpu₂, ?_⟩
  · rw [hcpu₁]
  · rw [hcpu₁]
  · rw [hbus₂, hleaves.regs, hregs₁]
    show CodeAt m₁.bus.read (regs.pc + 2 + 2) code
    rwa [← next_next]

/-- Wherever the code for two numbers of one length stands, a processor that takes no interrupts
goes through it to the end. -/
theorem exists_chain {regs : Registers} (hcpu : m.cpu = { regs }) (hlen : xs.length = ys.length)
    (hne : xs ≠ []) (hcode : CodeAt m.bus.read regs.pc (chainCode op xs ys)) :
    ∃ rs m', Chain op m xs ys rs m' := by
  induction xs generalizing m regs ys with
  | nil => exact absurd rfl hne
  | cons x xs ih =>
    cases ys with
    | nil => cases hlen
    | cons y ys =>
      obtain ⟨m₁, m₂, hd, hcourse, hcpu', hcode'⟩ := digit_of_code hcpu hcode
      have hcarries : m₁.Carries m₂ := ⟨hcourse, by rw [hcpu']⟩
      cases xs with
      | nil =>
        obtain rfl : ys = [] := List.length_eq_zero_iff.1 (Nat.succ.inj hlen).symm
        exact ⟨_, m₁, .last hd⟩
      | cons x' xs =>
        obtain ⟨rs, m', hchain⟩ := ih hcpu' (Nat.succ.inj hlen) nofun hcode'
        exact ⟨_, m', .digit hd (hcarries.chain hchain)⟩

/-! ### Links of other kinds -/

section
variable {α β : Type} {R : Machine π → α → β → Machine π → Prop}

/-- From `m` to `m'` the items `xs` are taken one after the other as `R` says, with the results `rs`,
and whatever comes before each of them leaves the carry. -/
inductive Ripple (R : Machine π → α → β → Machine π → Prop) :
    Machine π → List α → List β → Machine π → Prop
  | done (m : Machine π) : Ripple R m [] [] m
  | link {m m₁ m₂ m' : Machine π} {x : α} {r : β} {xs : List α} {rs : List β} :
    m.Carries m₁ → R m₁ x r m₂ → Ripple R m₂ xs rs m' → Ripple R m (x :: xs) (r :: rs) m'

/-- Where the code for an item stands, a processor that takes no interrupts takes the item as `R`
says and goes on behind the code. -/
def Coded (R : Machine π → α → β → Machine π → Prop) (code : α → List UInt8) : Prop :=
  ∀ (m : Machine π) (regs : Registers) (x : α) (rest : List UInt8), m.cpu = { regs } →
    CodeAt m.bus.read regs.pc (code x ++ rest) →
      ∃ r m₀ m₁ m₂ regs', m.Carries m₀ ∧ R m₀ x r m₁ ∧ m₁.Carries m₂ ∧ m₂.cpu = { regs := regs' } ∧
        CodeAt m₂.bus.read regs'.pc rest

theorem Coded.exists_ripple {code : α → List UInt8} (h : Coded R code) {m₀ m : Machine π}
    {regs : Registers} (hcarries : m₀.Carries m) (hcpu : m.cpu = { regs }) (xs : List α)
    (rest : List UInt8) (hcode : CodeAt m.bus.read regs.pc (xs.flatMap code ++ rest)) :
    ∃ rs m₁ m₂ regs', Ripple R m₀ xs rs m₁ ∧ m₁.Carries m₂ ∧ m₂.cpu = { regs := regs' } ∧
      CodeAt m₂.bus.read regs'.pc rest := by
  induction xs generalizing m₀ m regs with
  | nil => exact ⟨[], m₀, m, regs, .done m₀, hcarries, hcpu, hcode⟩
  | cons x xs ih =>
    rw [List.flatMap_cons, List.append_assoc] at hcode
    obtain ⟨r, _, _, _, regs', hbefore, hlink, hafter, hcpu', hcode'⟩ := h m regs x _ hcpu hcode
    obtain ⟨rs, m₁, m₂, regs'', hripple, hbehind⟩ := ih hafter hcpu' hcode'
    exact ⟨r :: rs, m₁, m₂, regs'', .link (hcarries.trans hbefore) hlink hripple, hbehind⟩

end

/-! ### What a chain computes -/

theorem LoadsA.regs (h : m.LoadsA x) : m.stepCpu.machine.cpu.regs.a = x ∧
    m.stepCpu.machine.cpu.regs.flags = m.cpu.regs.flags := by
  obtain ⟨src, hfinds, rfl⟩ := h
  have hregs := hfinds.leaves.regs
  rw [Op.apply_load_reg] at hregs
  rw [hregs]
  exact ⟨rfl, rfl⟩

theorem Operates.meets (h : m.Operates op y) :
    op.Meets m.cpu.regs.a.toNat y.toNat m.cpu.regs.flags.c.toNat
      m.stepCpu.machine.cpu.regs.a m.stepCpu.machine.cpu.regs.flags := by
  obtain ⟨src, hfinds, rfl⟩ := h
  have hregs := hfinds.leaves.regs
  rw [Op.apply_alu hfinds.opcode] at hregs
  rw [hregs]
  exact Alu.meets_binary ..

theorem Digit.meets (h : m.Digit op x y m') :
    op.Meets x.toNat y.toNat m.cpu.regs.flags.c.toNat m'.cpu.regs.a m'.cpu.regs.flags := by
  obtain ⟨_, _, hcarries, hload, hcarries', ha, hop⟩ := h
  obtain ⟨hx, hflags⟩ := hload.regs
  have hmeets := hop.meets
  rwa [ha, hx, hcarries'.carry, hflags, hcarries.carry] at hmeets

theorem Chain.meetsLong (h : Chain op m xs ys rs m') :
    ∃ k, xs.length = k + 1 ∧ ys.length = k + 1 ∧ rs.length = k + 1 ∧
      op.MeetsLong k (littleEndian xs) (littleEndian ys) m.cpu.regs.flags.c.toNat (littleEndian rs)
        m'.cpu.regs.flags := by
  induction h with
  | last hd =>
    refine ⟨0, rfl, rfl, rfl, ?_⟩
    simp only [littleEndian_singleton]
    exact hd.meets.long
  | digit hd _ ih =>
    obtain ⟨k, hxs, hys, hrs, hlong⟩ := ih
    refine ⟨k + 1, congrArg (· + 1) hxs, congrArg (· + 1) hys, congrArg (· + 1) hrs, ?_⟩
    simp only [littleEndian_cons]
    exact .cons hd.meets hlong

/-- A chain of ADC adds, and a chain of SBC subtracts, the numbers that the bytes are, and leaves the
carry and the half carry of the whole operation. Without a borrow at its beginning a chain of SBC is
a comparison. -/
theorem Chain.carries_through (h : Chain op m xs ys rs m') :
    let x := littleEndian xs
    let y := littleEndian ys
    let r := littleEndian rs
    let c := m.cpu.regs.flags.c
    let f := m'.cpu.regs.flags
    ∃ k, xs.length = k + 1 ∧ ys.length = k + 1 ∧ rs.length = k + 1 ∧
      (op = .adc → IsLongSum k x y c.toNat r f) ∧
      (op = .sbc → IsLongDifference k x y c.toNat r f ∧ (c = false → (f.c = true ↔ x < y))) := by
  intro x y r c f
  obtain ⟨k, hxs, hys, hrs, hlong⟩ := h.meetsLong
  refine ⟨k, hxs, hys, hrs, ?_, ?_⟩
  · rintro rfl
    exact hlong
  · rintro rfl
    refine ⟨hlong, fun hc => ?_⟩
    have hborrow := IsLongDifference.borrow hlong
    rwa [show m.cpu.regs.flags.c = false from hc] at hborrow

/-- LD A,0xFF; ADC 0x01; LD A,0xFF; ADC 0x00 with the carry set: 0xFFFF + 0x0001 + 1. -/
theorem carries_through_adc :
    let m : Machine Probe := { ofProgram [0x3E, 0xFF, 0xCE, 0x01, 0x3E, 0xFF, 0xCE, 0x00] with
      cpu.regs.flags.c := true }
    ∃ rs m', Chain .adc m [0xFF, 0xFF] [0x01, 0x00] rs m' ∧ littleEndian rs = 0x0001 ∧
      m'.cpu.regs.flags.h = true ∧ m'.cpu.regs.flags.c = true := by
  intro m
  obtain ⟨rs, m', hchain⟩ : ∃ rs m', Chain .adc m [0xFF, 0xFF] [0x01, 0x00] rs m' :=
    exists_chain (m := m) rfl rfl nofun (by decide +kernel)
  obtain ⟨k, hk, -, -, hsum, -⟩ := hchain.carries_through
  obtain rfl : k = 1 := (Nat.succ.inj hk).symm
  obtain ⟨hvalue, hhalf, hcarry⟩ := hsum rfl
  exact ⟨rs, m', hchain, hvalue.trans (by decide), hhalf.2 (by decide), hcarry.2 (by decide)⟩

end Machine

end Dmg
