import Dmg.Proofs.Accumulator
import Mathlib.Data.Nat.Bitwise

/-! # Reading, modifying and writing back

INC, DEC, the rotates and shifts, BIT, RES and SET are functions of a byte and the flags
(`Modification.result`), whatever operand the byte is in: a register is given the result, memory at
HL is written once with it, and the short rotates of A differ in the zero flag alone
(`Machine.modifies_alike`). -/

namespace Dmg

/-- The operations on one operand that is a source and a target at once. BIT only tests it. -/
inductive Modification where
  | inc
  | dec
  | shift (s : Shift)
  | bit (b : UInt8)
  | res (b : UInt8)
  | set (b : UInt8)

/-- The byte that a rotate or shift makes of the byte `v` and the carry `c`. -/
def Shift.result (s : Shift) (v c : Nat) : Nat :=
  match s with
  | .rlc => v * 2 % 256 + v / 128
  | .rrc => v / 2 + v % 2 * 128
  | .rl => v * 2 % 256 + c
  | .rr => v / 2 + c * 128
  | .sla => v * 2 % 256
  | .sra => v / 2 + v / 128 * 128
  | .swap => v % 16 * 16 + v / 16
  | .srl => v / 2

/-- The bit that is moved out of the byte `v`. -/
def Shift.out (s : Shift) (v : Nat) : Nat :=
  match s with
  | .rlc | .rl | .sla => v / 128
  | .rrc | .rr | .sra | .srl => v % 2
  | .swap => 0

namespace Modification

def op : Modification → Operand → Op
  | .inc, t => .inc t
  | .dec, t => .dec t
  | .shift s, t => .shift s t
  | .bit b, t => .bit b t
  | .res b, t => .res b t
  | .set b, t => .set b t

/-- What the operation makes of a byte `v` and the flags `f`. -/
def result (x : Modification) (v : Nat) (f : Flags) : Nat × Flags :=
  match x with
  | .inc =>
    let r := (v + 1) % 256
    (r, { z := r = 0, n := false, h := v % 16 = 15, c := f.c })
  | .dec =>
    let r := (v + 255) % 256
    (r, { z := r = 0, n := true, h := v % 16 = 0, c := f.c })
  | .shift s =>
    let r := s.result v f.c.toNat
    (r, { z := r = 0, n := false, h := false, c := s.out v = 1 })
  | .bit b => (v, { z := !v.testBit b.toNat, n := false, h := true, c := f.c })
  | .res b => (if v.testBit b.toNat then v - 2 ^ b.toNat else v, f)
  | .set b => (if v.testBit b.toNat then v else v + 2 ^ b.toNat, f)

/-- Whether the result is put back. -/
def stores : Modification → Bool
  | .bit _ => false
  | _ => true

/-- The function the processor computes. -/
def compute (x : Modification) (v : UInt8) (f : Flags) : UInt8 × Flags :=
  match x with
  | .inc => Alu.inc8 v f
  | .dec => Alu.dec8 v f
  | .shift s => Alu.shift s v f.c
  | .bit b => (v, Alu.bit b v f)
  | .res b => (v &&& ~~~(1 <<< b), f)
  | .set b => (v ||| 1 <<< b, f)

/-- The number of a bit is that of a bit of a byte. -/
def InByte : Modification → Prop
  | .bit b | .res b | .set b => b < 8
  | _ => True

end Modification

/-! ### Bytes as numbers -/

section
variable (v w : UInt8)

theorem beq_eq_decide : (v == w) = decide (v.toNat = w.toNat) :=
  Bool.eq_iff_iff.2 (by rw [beq_iff_eq, decide_eq_true_iff, UInt8.toNat_inj])

/-- Bits that are put beside each other are a sum. -/
theorem toNat_or_of_lt {v w : UInt8} {i a : Nat} (hv : v.toNat = 2 ^ i * a) (hw : w.toNat < 2 ^ i) :
    (v ||| w).toNat = v.toNat + w.toNat := by
  rw [UInt8.toNat_or, hv, Nat.two_pow_add_eq_or_of_lt hw]

theorem toNat_or_of_and_eq_zero {v w : UInt8} (h : v &&& w = 0) :
    (v ||| w).toNat = v.toNat + w.toNat := by
  have hbits : v.toBitVec &&& w.toBitVec = 0#8 := congrArg UInt8.toBitVec h
  show (v.toBitVec ||| w.toBitVec).toNat = _
  rw [← BitVec.add_eq_or_of_and_eq_zero _ _ hbits]
  exact BitVec.toNat_add_of_and_eq_zero hbits

/-- The bits of a byte are those outside a mask and those inside. -/
theorem toNat_and_not_add : (v &&& ~~~w).toNat + (v &&& w).toNat = v.toNat := by
  have hdisjoint : (v &&& ~~~w) &&& (v &&& w) = 0 := by
    apply UInt8.toBitVec_inj.1
    ext i hi
    simp only [UInt8.toBitVec_and, UInt8.toBitVec_not, BitVec.getElem_and, BitVec.getElem_not]
    cases w.toBitVec[i] <;> simp
  have hunion : (v &&& ~~~w) ||| (v &&& w) = v := by
    apply UInt8.toBitVec_inj.1
    ext i hi
    simp only [UInt8.toBitVec_or, UInt8.toBitVec_and, UInt8.toBitVec_not, BitVec.getElem_or,
      BitVec.getElem_and, BitVec.getElem_not]
    cases v.toBitVec[i] <;> simp
  rw [← toNat_or_of_and_eq_zero hdisjoint, hunion]

theorem toNat_or_eq : (v ||| w).toNat = (v &&& ~~~w).toNat + w.toNat := by
  have hdisjoint : (v &&& ~~~w) &&& w = 0 := by
    apply UInt8.toBitVec_inj.1
    ext i hi
    simp only [UInt8.toBitVec_and, UInt8.toBitVec_not, BitVec.getElem_and, BitVec.getElem_not]
    cases w.toBitVec[i] <;> simp
  have hunion : (v &&& ~~~w) ||| w = v ||| w := by
    apply UInt8.toBitVec_inj.1
    ext i hi
    simp only [UInt8.toBitVec_or, UInt8.toBitVec_and, UInt8.toBitVec_not, BitVec.getElem_or,
      BitVec.getElem_and, BitVec.getElem_not]
    cases w.toBitVec[i] <;> simp
  rw [← toNat_or_of_and_eq_zero hdisjoint, hunion]

theorem toNat_shiftLeft {k : UInt8} (h : k < 8) :
    (v <<< k).toNat = v.toNat * 2 ^ k.toNat % 256 := by
  have hk : k.toNat < 8 := UInt8.lt_iff_toNat_lt.1 h
  rw [UInt8.toNat_shiftLeft, Nat.mod_eq_of_lt hk, Nat.shiftLeft_eq]

theorem toNat_shiftRight {k : UInt8} (h : k < 8) : (v >>> k).toNat = v.toNat / 2 ^ k.toNat := by
  have hk : k.toNat < 8 := UInt8.lt_iff_toNat_lt.1 h
  rw [UInt8.toNat_shiftRight, Nat.mod_eq_of_lt hk, Nat.shiftRight_eq_div_pow]

theorem toNat_bit {b : UInt8} (h : b < 8) : (1 <<< b : UInt8).toNat = 2 ^ b.toNat := by
  have hb : b.toNat < 8 := UInt8.lt_iff_toNat_lt.1 h
  have hlt : 2 ^ b.toNat < 2 ^ 8 := Nat.pow_lt_pow_right (by decide) hb
  rw [toNat_shiftLeft 1 h, show (1 : UInt8).toNat = 1 from rfl, Nat.one_mul]
  exact Nat.mod_eq_of_lt hlt

theorem toNat_and_bit {b : UInt8} (h : b < 8) :
    (v &&& 1 <<< b).toNat = if v.toNat.testBit b.toNat then 2 ^ b.toNat else 0 := by
  rw [UInt8.toNat_and, toNat_bit h, Nat.and_two_pow]
  cases v.toNat.testBit b.toNat with
  | true => exact Nat.one_mul _
  | false => exact Nat.zero_mul _

end

namespace Alu

theorem toNat_shift (s : Shift) (v : UInt8) (c : Bool) :
    (shift s v c).1.toNat = s.result v.toNat c.toNat := by
  have hv := v.toNat_lt
  have hc := Bool.toNat_le c
  have hdouble : (v <<< 1).toNat = v.toNat * 2 % 256 := toNat_shiftLeft v (by decide)
  have hhalf : (v >>> 1).toNat = v.toNat / 2 := toNat_shiftRight v (by decide)
  have htop : (v >>> 7).toNat = v.toNat / 128 := toNat_shiftRight v (by decide)
  have hbottom : (v &&& 1).toNat = v.toNat % 2 := by
    rw [UInt8.toNat_and]
    exact Nat.and_two_pow_sub_one_eq_mod _ 1
  have hcarry := toNat_bitOf c
  cases s with
  | rlc =>
    show (v <<< 1 ||| v >>> 7).toNat = v.toNat * 2 % 256 + v.toNat / 128
    rw [toNat_or_of_lt (i := 1) (a := v.toNat % 128) (by omega) (by omega), hdouble, htop]
  | rrc =>
    have hturned : ((v &&& 1) <<< 7).toNat = v.toNat % 2 * 128 := by
      rw [toNat_shiftLeft _ (by decide), hbottom]
      show v.toNat % 2 * 128 % 256 = _
      omega
    show (v >>> 1 ||| (v &&& 1) <<< 7).toNat = v.toNat / 2 + v.toNat % 2 * 128
    rw [UInt8.or_comm, toNat_or_of_lt (i := 7) (a := v.toNat % 2) (by omega) (by omega)]
    omega
  | rl =>
    show (v <<< 1 ||| bitOf c).toNat = v.toNat * 2 % 256 + c.toNat
    rw [toNat_or_of_lt (i := 1) (a := v.toNat % 128) (by omega) (by omega), hdouble, hcarry]
  | rr =>
    have hturned : (bitOf c <<< 7).toNat = c.toNat * 128 := by cases c <;> rfl
    show (v >>> 1 ||| bitOf c <<< 7).toNat = v.toNat / 2 + c.toNat * 128
    rw [UInt8.or_comm, toNat_or_of_lt (i := 7) (a := c.toNat) (by omega) (by omega)]
    omega
  | sla => exact hdouble
  | sra =>
    have hsign : (v &&& 0x80).toNat = v.toNat / 128 * 128 := by
      rw [UInt8.toNat_and, show (0x80 : UInt8).toNat = 2 ^ 7 from rfl, Nat.and_two_pow,
        Nat.toNat_testBit]
      omega
    show (v >>> 1 ||| v &&& 0x80).toNat = v.toNat / 2 + v.toNat / 128 * 128
    rw [UInt8.or_comm, toNat_or_of_lt (i := 7) (a := v.toNat / 128) (by omega) (by omega)]
    omega
  | swap =>
    have hlow : (v <<< 4).toNat = v.toNat * 16 % 256 := toNat_shiftLeft v (by decide)
    have hhigh : (v >>> 4).toNat = v.toNat / 16 := toNat_shiftRight v (by decide)
    show (v <<< 4 ||| v >>> 4).toNat = v.toNat % 16 * 16 + v.toNat / 16
    rw [toNat_or_of_lt (i := 4) (a := v.toNat % 16) (by omega) (by omega)]
    omega
  | srl => exact hhalf

theorem shift_flags (s : Shift) (v : UInt8) (c : Bool) :
    (shift s v c).2 = {
      z := s.result v.toNat c.toNat = 0, n := false, h := false, c := s.out v.toNat = 1 } := by
  have hzero : ((shift s v c).1 == 0) = decide (s.result v.toNat c.toNat = 0) := by
    rw [beq_eq_decide, toNat_shift]
    rfl
  have htop : (v >>> 7 == 1) = decide (v.toNat / 128 = 1) := by
    rw [beq_eq_decide, toNat_shiftRight v (by decide)]
    rfl
  have hbottom : (v &&& 1 == 1) = decide (v.toNat % 2 = 1) := by
    rw [beq_eq_decide, UInt8.toNat_and]
    exact congrArg (fun r => decide (r = 1)) (Nat.and_two_pow_sub_one_eq_mod _ 1)
  rw [← hzero]
  cases s with
  | rlc | rl | sla => exact congrArg (Flags.mk _ false false) htop
  | rrc | rr | sra | srl => exact congrArg (Flags.mk _ false false) hbottom
  | swap => rfl

end Alu

namespace Modification

theorem toNat_and_not_bit {b : UInt8} (h : b < 8) (v : UInt8) :
    (v &&& ~~~(1 <<< b)).toNat =
      if v.toNat.testBit b.toNat then v.toNat - 2 ^ b.toNat else v.toNat := by
  have hsum := toNat_and_not_add v (1 <<< b)
  rw [toNat_and_bit v h] at hsum
  split_ifs at hsum ⊢ <;> omega

theorem toNat_or_bit {b : UInt8} (h : b < 8) (v : UInt8) :
    (v ||| 1 <<< b).toNat =
      if v.toNat.testBit b.toNat then v.toNat else v.toNat + 2 ^ b.toNat := by
  have hsum := toNat_and_not_add v (1 <<< b)
  rw [toNat_and_bit v h] at hsum
  rw [toNat_or_eq, toNat_bit h]
  split_ifs at hsum ⊢ <;> omega

theorem toNat_compute {x : Modification} (h : x.InByte) (v : UInt8) (f : Flags) :
    ((x.compute v f).1.toNat, (x.compute v f).2) = x.result v.toNat f := by
  cases x with
  | inc =>
    have hr : (v + 1).toNat = (v.toNat + 1) % 256 := UInt8.toNat_add v 1
    show ((v + 1).toNat, Flags.mk (v + 1 == 0) false (v &&& 0xF == 0xF) f.c) = _
    rw [beq_eq_decide, beq_eq_decide, Alu.toNat_and_nibble, hr]
    rfl
  | dec =>
    have hr : (v - 1).toNat = (v.toNat + 255) % 256 := by
      rw [UInt8.toNat_sub, Nat.add_comm]
      rfl
    show ((v - 1).toNat, Flags.mk (v - 1 == 0) true (v &&& 0xF == 0) f.c) = _
    rw [beq_eq_decide, beq_eq_decide, Alu.toNat_and_nibble, hr]
    rfl
  | shift s =>
    exact Prod.ext (Alu.toNat_shift s v f.c) (Alu.shift_flags s v f.c)
  | bit b =>
    have hz : (v &&& 1 <<< b == 0) = !v.toNat.testBit b.toNat := by
      rw [beq_eq_decide, toNat_and_bit v h]
      cases v.toNat.testBit b.toNat with
      | true => exact decide_eq_false (Nat.two_pow_pos _).ne'
      | false => rfl
    show (v.toNat, Flags.mk (v &&& 1 <<< b == 0) false true f.c) = _
    rw [hz]
    rfl
  | res b => exact congrArg (·, f) (toNat_and_not_bit h v)
  | set b => exact congrArg (·, f) (toNat_or_bit h v)

/-- The operands that are a field of their opcode are the registers and memory at HL. -/
theorem target_of_field {target : Operand} {g : UInt8 → UInt8} {b : UInt8}
    (h : (do return g (← target.field?)) = some b) :
    (∃ t, target = .reg t) ∨ target = .mem .hl := by
  cases target with
  | reg t => exact .inl ⟨t, rfl⟩
  | mem mode =>
    cases mode with
    | hl => exact .inr rfl
    | _ => cases h
  | imm => cases h

theorem of_standsAt {x : Modification} {target : Operand} {mem : View} {a : UInt16}
    (h : (x.op target).StandsAt mem a) :
    x.InByte ∧ ((∃ t, target = .reg t) ∨ target = .mem .hl) := by
  rcases h with h | ⟨-, h⟩
  · cases x with
    | inc | dec => exact ⟨trivial, target_of_field h⟩
    | _ => cases h
  · cases x with
    | inc | dec => cases h
    | shift s => exact ⟨trivial, target_of_field h⟩
    | bit b | res b | set b =>
      by_cases hb : b < 8
      · exact ⟨hb, target_of_field ((if_pos hb).symm.trans h)⟩
      · cases (if_neg hb).symm.trans h

/-- A modification puts what it computes back, but for BIT. -/
theorem apply_op (x : Modification) (target : Operand) (mem : View) (imm : UInt16)
    (regs : Registers) :
    let out := alter target x.compute mem imm regs
    (x.op target).apply mem imm regs =
      if x.stores then out
      else { regs := { (target.resolve mem imm regs).2 with flags := out.regs.flags } } := by
  cases x <;> rfl

end Modification

namespace Machine
variable {π : Type} [HostDevice π] {m : Machine π}

theorem Finds.modifies {x : Modification} {target : Operand} (h : m.Finds (x.op target)) :
    ∃ v f, (v.toNat, f) = x.result (target.byte m.bus.read m.cpu.regs).toNat m.cpu.regs.flags ∧
      let regs := { m.cpu.regs with flags := f, pc := m.cpu.regs.pc + (x.op target).size }
      (∃ t, target = .reg t ∧ m.Leaves (regs.set t v) []) ∨
        target = .mem .hl ∧
          m.Leaves regs (if x.stores then [⟨word m.cpu.regs.h m.cpu.regs.l, v⟩] else []) := by
  obtain ⟨hx, htarget⟩ := Modification.of_standsAt h.opcode
  refine ⟨_, _, Modification.toNat_compute hx _ _, ?_⟩
  have hleaves := h.leaves
  rw [Modification.apply_op] at hleaves
  obtain ⟨t, rfl⟩ | rfl := htarget
  · refine .inl ⟨t, rfl, ?_⟩
    cases x <;> cases t <;> exact hleaves
  · refine .inr ⟨rfl, ?_⟩
    cases x <;> exact hleaves

theorem Finds.rotates_a {s : Shift} (h : m.Finds (.rotateA s)) :
    ∃ v f, (v.toNat, f) = Modification.result (.shift s) m.cpu.regs.a.toNat m.cpu.regs.flags ∧
      m.Leaves { m.cpu.regs with
        a := v, flags := { f with z := false }, pc := m.cpu.regs.pc + 1 } [] :=
  ⟨_, _, Modification.toNat_compute (x := .shift s) trivial _ _, h.leaves⟩

/-- The value and the flags that a modification gives are one function of the byte that was in the
target and of the flags: a register is given the value, and memory at HL is written with it once,
or not at all if the target is only tested. The short rotates of A compute the same and leave Z
clear. -/
theorem modifies_alike (m : Machine π) :
    (∀ x target, m.Finds (Modification.op x target) → ∃ v f,
      (v.toNat, f) = x.result (target.byte m.bus.read m.cpu.regs).toNat m.cpu.regs.flags ∧
        let regs := { m.cpu.regs with flags := f, pc := m.cpu.regs.pc + (x.op target).size }
        (∃ t, target = .reg t ∧ m.Leaves (regs.set t v) []) ∨
          target = .mem .hl ∧
            m.Leaves regs (if x.stores then [⟨word m.cpu.regs.h m.cpu.regs.l, v⟩] else [])) ∧
      ∀ s, m.Finds (.rotateA s) → ∃ v f,
        (v.toNat, f) = Modification.result (.shift s) m.cpu.regs.a.toNat m.cpu.regs.flags ∧
          m.Leaves { m.cpu.regs with
            a := v, flags := { f with z := false }, pc := m.cpu.regs.pc + 1 } [] :=
  ⟨fun _ _ h => h.modifies, fun _ h => h.rotates_a⟩

/-- RLC [HL] of 0x81 moves its top bit into bit 0 and the carry. RLCA of zero leaves Z clear. -/
theorem modifies_alike_rlc :
    let m : Machine Probe := { ofProgram [0xCB, 0x06, 0x81] with cpu.regs.l := 0x02 }
    let m' : Machine Probe := ofProgram [0x07]
    (m.Finds (.shift .rlc (.mem .hl)) ∧ m.stepWrites = [⟨0x0002, 0x03⟩] ∧
      m.stepCpu.machine.cpu.regs = { flags := { c := true }, l := 0x02, pc := 0x0002 }) ∧
    m'.Finds (.rotateA .rlc) ∧ m'.stepCpu.machine.cpu.regs = { pc := 0x0001 } := by
  intro m m'
  have hfinds : m.Finds (.shift .rlc (.mem .hl)) :=
    ⟨.inl rfl, rfl, .inr ⟨by decide +kernel, by decide +kernel⟩⟩
  have hfinds' : m'.Finds (.rotateA .rlc) := ⟨.inl rfl, rfl, .inl (by decide +kernel)⟩
  have hregs : m.cpu.regs = { l := 0x02 } := rfl
  have hregs' : m'.cpu.regs = {} := rfl
  have hbyte : Operand.byte (.mem .hl) m.bus.read m.cpu.regs = 0x81 := by decide +kernel
  obtain ⟨v, f, hv, ⟨_, ht, -⟩ | ⟨-, hleaves⟩⟩ :=
    (modifies_alike m).1 (.shift .rlc) (.mem .hl) hfinds
  · cases ht
  obtain ⟨v', f', hv', hleaves'⟩ := (modifies_alike m').2 .rlc hfinds'
  rw [hbyte, hregs] at hv
  rw [hregs] at hleaves
  rw [hregs'] at hv' hleaves'
  obtain ⟨hvalue, rfl⟩ := Prod.mk.inj hv
  obtain ⟨hvalue', rfl⟩ := Prod.mk.inj hv'
  obtain rfl : v = 0x03 := UInt8.toNat_inj.1 hvalue
  obtain rfl : v' = 0 := UInt8.toNat_inj.1 hvalue'
  exact ⟨⟨hfinds, hleaves.writes, hleaves.regs⟩, hfinds', hleaves'.regs⟩

end Machine

end Dmg
