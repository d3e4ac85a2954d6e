import Dmg.Proofs.Executing

/-! # Accumulator operations

The operations of the accumulator against the integers they compute with: a sum and a difference
modulo 256, with the carries out of the low nibble and out of the byte as comparisons of the numbers
themselves (`IsSum`, `IsDifference`), and the logical operations bit by bit (`IsLogical`). Every
encoding of the eight operations meets its definition (`Machine.Finds.meets_definition`). -/

namespace Dmg

/-- `r` and `f` are what adding `n` and the carry `c` to `a` gives. -/
structure IsSum (a n c : Nat) (r : UInt8) (f : Flags) : Prop where
  value : r.toNat = (a + n + c) % 256
  zero : f.z = true ↔ r = 0
  subtract : f.n = false
  half : f.h = true ↔ 16 ≤ a % 16 + n % 16 + c
  carry : f.c = true ↔ 256 ≤ a + n + c

/-- `r` and `f` are what subtracting `n` and the borrow `c` from `a` gives. -/
structure IsDifference (a n c : Nat) (r : UInt8) (f : Flags) : Prop where
  value : (r.toNat : Int) = (a - n - c) % 256
  zero : f.z = true ↔ r = 0
  subtract : f.n = true
  half : f.h = true ↔ a % 16 < n % 16 + c
  borrow : f.c = true ↔ a < n + c

/-- `r` and `f` are a logical operation with the result `v`. -/
structure IsLogical (v : Nat) (half : Bool) (r : UInt8) (f : Flags) : Prop where
  value : r.toNat = v
  zero : f.z = true ↔ r = 0
  subtract : f.n = false
  half : f.h = half
  carry : f.c = false

/-- `r` and `f` are what the operation makes of the accumulator `a`, the operand `n` and the carry
`c`. A comparison is a subtraction that leaves the accumulator. -/
def AluOp.Meets (op : AluOp) (a n c : Nat) (r : UInt8) (f : Flags) : Prop :=
  match op with
  | .add => IsSum a n 0 r f
  | .adc => IsSum a n c r f
  | .sub => IsDifference a n 0 r f
  | .sbc => IsDifference a n c r f
  | .and => IsLogical (a &&& n) true r f
  | .xor => IsLogical (a ^^^ n) false r f
  | .or => IsLogical (a ||| n) false r f
  | .cp => r.toNat = a ∧ ∃ d, IsDifference a n 0 d f

namespace Alu

theorem toNat_bitOf (b : Bool) : (bitOf b).toNat = b.toNat := by cases b <;> rfl

theorem toNat_and_nibble (a : UInt8) : (a &&& 0xF).toNat = a.toNat % 16 := by
  rw [UInt8.toNat_and]
  exact Nat.and_two_pow_sub_one_eq_mod _ 4

theorem isSum_add8 (a n : UInt8) (carry : Bool) :
    IsSum a.toNat n.toNat carry.toNat (add8 a n carry).1 (add8 a n carry).2 := by
  have hc := toNat_bitOf carry
  have hlt : carry.toNat ≤ 1 := Bool.toNat_le carry
  have ha := a.toNat_lt
  have hn := n.toNat_lt
  refine ⟨?_, ?_, rfl, ?_, ?_⟩
  · show (a + n + bitOf carry).toNat = _
    rw [UInt8.toNat_add, UInt8.toNat_add, hc]
    omega
  · exact beq_iff_eq
  · show decide ((a &&& 0xF) + (n &&& 0xF) + bitOf carry > 0xF) = true ↔ _
    rw [decide_eq_true_iff, gt_iff_lt, UInt8.lt_iff_toNat_lt, UInt8.toNat_add, UInt8.toNat_add,
      toNat_and_nibble, toNat_and_nibble, hc]
    show 15 < _ ↔ _
    omega
  · show decide (a.toUInt16 + n.toUInt16 + (bitOf carry).toUInt16 > 0xFF) = true ↔ _
    rw [decide_eq_true_iff, gt_iff_lt, UInt16.lt_iff_toNat_lt, UInt16.toNat_add, UInt16.toNat_add,
      UInt8.toNat_toUInt16, UInt8.toNat_toUInt16, UInt8.toNat_toUInt16, hc]
    show 255 < _ ↔ _
    omega

theorem isDifference_sub8 (a n : UInt8) (borrow : Bool) :
    IsDifference a.toNat n.toNat borrow.toNat (sub8 a n borrow).1 (sub8 a n borrow).2 := by
  have hc := toNat_bitOf borrow
  have hlt : borrow.toNat ≤ 1 := Bool.toNat_le borrow
  have ha := a.toNat_lt
  have hn := n.toNat_lt
  refine ⟨?_, ?_, rfl, ?_, ?_⟩
  · show ((a - n - bitOf borrow).toNat : Int) = _
    rw [UInt8.toNat_sub, UInt8.toNat_sub, hc]
    omega
  · exact beq_iff_eq
  · show decide ((a &&& 0xF) < (n &&& 0xF) + bitOf borrow) = true ↔ _
    rw [decide_eq_true_iff, UInt8.lt_iff_toNat_lt, UInt8.toNat_add, toNat_and_nibble,
      toNat_and_nibble, hc]
    omega
  · show decide (a.toUInt16 < n.toUInt16 + (bitOf borrow).toUInt16) = true ↔ _
    rw [decide_eq_true_iff, UInt16.lt_iff_toNat_lt, UInt16.toNat_add, UInt8.toNat_toUInt16,
      UInt8.toNat_toUInt16, UInt8.toNat_toUInt16, hc]
    omega

theorem isLogical_and8 (a n : UInt8) :
    IsLogical (a.toNat &&& n.toNat) true (and8 a n).1 (and8 a n).2 :=
  ⟨UInt8.toNat_and a n, beq_iff_eq, rfl, rfl, rfl⟩

theorem isLogical_xor8 (a n : UInt8) :
    IsLogical (a.toNat ^^^ n.toNat) false (xor8 a n).1 (xor8 a n).2 :=
  ⟨UInt8.toNat_xor a n, beq_iff_eq, rfl, rfl, rfl⟩

theorem isLogical_or8 (a n : UInt8) :
    IsLogical (a.toNat ||| n.toNat) false (or8 a n).1 (or8 a n).2 :=
  ⟨UInt8.toNat_or a n, beq_iff_eq, rfl, rfl, rfl⟩

theorem meets_binary (op : AluOp) (a n : UInt8) (f : Flags) :
    op.Meets a.toNat n.toNat f.c.toNat (binary op a n f).1 (binary op a n f).2 := by
  cases op with
  | add => exact isSum_add8 a n false
  | adc => exact isSum_add8 a n f.c
  | sub => exact isDifference_sub8 a n false
  | sbc => exact isDifference_sub8 a n f.c
  | and => exact isLogical_and8 a n
  | xor => exact isLogical_xor8 a n
  | or => exact isLogical_or8 a n
  | cp => exact ⟨rfl, _, isDifference_sub8 a n false⟩

end Alu

/-- The sources of the encodings: a register, memory at HL, or an immediate byte. -/
theorem Op.StandsAt.alu_source {op : AluOp} {src : Operand} {mem : View} {a : UInt16}
    (h : (Op.alu op src).StandsAt mem a) : (∃ r, src = .reg r) ∨ src = .mem .hl ∨ src = .imm := by
  rcases h with h | ⟨-, h⟩
  · cases src with
    | reg r => exact .inl ⟨r, rfl⟩
    | mem mode =>
      cases mode with
      | hl => exact .inr (.inl rfl)
      | _ => cases h
    | imm => exact .inr (.inr rfl)
  · cases h

theorem Op.apply_alu {op : AluOp} {src : Operand} {mem : View} {regs : Registers} {pc : UInt16}
    (h : (Op.alu op src).StandsAt mem regs.pc) :
    (Op.alu op src).apply mem (regs.pc + 1) { regs with pc } =
      { regs := { regs with
          a := (Alu.binary op regs.a (src.byte mem regs) regs.flags).1
          flags := (Alu.binary op regs.a (src.byte mem regs) regs.flags).2, pc } } := by
  rw [← src.get_resolve pc]
  rcases h.alu_source with ⟨r, rfl⟩ | rfl | rfl <;> rfl

namespace Machine
variable {π : Type} [HostDevice π] {m : Machine π}

/-- Every encoding of an accumulator operation takes its operand from where it stood before the
instruction, and makes of it what the definition says. -/
theorem Finds.meets_definition {op : AluOp} {src : Operand} (h : m.Finds (.alu op src)) :
    ∃ a f, op.Meets m.cpu.regs.a.toNat (src.byte m.bus.read m.cpu.regs).toNat
        m.cpu.regs.flags.c.toNat a f ∧
      m.Leaves { m.cpu.regs with
        a, flags := f, pc := m.cpu.regs.pc + Op.size (.alu op src) } [] := by
  refine ⟨_, _, Alu.meets_binary op _ _ _, ?_⟩
  rw [← src.get_resolve (m.cpu.regs.pc + Op.size (.alu op src))]
  rcases h.opcode.alu_source with ⟨r, rfl⟩ | rfl | rfl
  · exact h.leaves
  · exact h.leaves
  · exact h.leaves

/-- ADC A,[HL] of 0xF0 and 0x0F with the carry set: all that is left of the sum is its carries. -/
theorem meets_definition_adc :
    let m : Machine Probe := { ofProgram [0x8E, 0x0F] with
      cpu.regs := { a := 0xF0, flags := { c := true }, l := 0x01 } }
    m.Finds (.alu .adc (.mem .hl)) ∧ m.stepCpu.machine.cpu.regs =
      { a := 0x00, flags := { z := true, h := true, c := true }, l := 0x01, pc := 0x0001 } := by
  intro m
  have hfinds : m.Finds (.alu .adc (.mem .hl)) := ⟨.inl rfl, rfl, .inl (by decide +kernel)⟩
  have hbyte : Operand.byte (.mem .hl) m.bus.read m.cpu.regs = 0x0F := by decide +kernel
  obtain ⟨a, ⟨z, n, h, c⟩, hsum, hleaves⟩ := hfinds.meets_definition
  rw [hbyte] at hsum
  obtain ⟨hvalue, hzero, hsub, hhalf, hcarry⟩ : IsSum 0xF0 0x0F 1 a ⟨z, n, h, c⟩ := hsum
  obtain rfl : a = 0 := UInt8.toNat_inj.1 hvalue
  obtain rfl : z = true := hzero.2 rfl
  obtain rfl : n = false := hsub
  obtain rfl : h = true := hhalf.2 (by decide)
  obtain rfl : c = true := hcarry.2 (by decide)
  exact ⟨hfinds, hleaves.regs⟩

end Machine

end Dmg
