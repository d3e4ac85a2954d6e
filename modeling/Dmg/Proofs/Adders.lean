import Dmg.Proofs.CarryChain
import Dmg.Proofs.ControlFlow

/-! # One adder for all

The processor has one adder of bytes. A subtraction is an addition of the complement with its carries
the other way round (`Alu.sub8_eq`), INC and DEC add and subtract one and keep the carry, a pair is
added a byte at a time (`Alu.add16_eq`), and the displacement of the stack pointer takes its carries
from the low byte (`Alu.addSp_flags`). The carries are compared as numbers (`IsSum`, `IsDifference`),
which leave a result and its flags no choice (`IsDifference.unique`). -/

namespace Dmg

section
variable {a n r r' : UInt8} {b : Bool} {f f' : Flags} {x y c : Nat}

theorem IsDifference.unique (h : IsDifference x y c r f) (h' : IsDifference x y c r' f') :
    r = r' ∧ f = f' := by
  obtain rfl : r = r' := UInt8.toNat_inj.1 (Int.ofNat_inj.1 (h.value.trans h'.value.symm))
  obtain ⟨z, n, hf, cf⟩ := f
  obtain ⟨z', n', hf', cf'⟩ := f'
  obtain rfl : z = z' := Bool.eq_iff_iff.2 (h.zero.trans h'.zero.symm)
  obtain rfl : n = n' := h.subtract.trans h'.subtract.symm
  obtain rfl : hf = hf' := Bool.eq_iff_iff.2 (h.half.trans h'.half.symm)
  obtain rfl : cf = cf' := Bool.eq_iff_iff.2 (h.borrow.trans h'.borrow.symm)
  exact ⟨rfl, rfl⟩

/-- Adding the complement subtracts: there is a borrow where there is no carry. -/
theorem IsSum.difference (h : IsSum a.toNat (~~~n).toNat (!b).toNat r f) :
    IsDifference a.toNat n.toNat b.toNat r { f with n := true, h := !f.h, c := !f.c } := by
  have ha := a.toNat_lt
  have hn := n.toNat_lt
  have hnot : (~~~n).toNat = 255 - n.toNat := UInt8.toNat_not n
  have hb : (!b).toNat = 1 - b.toNat := by cases b <;> rfl
  have hb' := b.toNat_le
  have hvalue := h.value
  refine ⟨?_, h.zero, rfl, ?_, ?_⟩
  · omega
  · rw [Bool.not_eq_true', ← Bool.not_eq_true, h.half]
    omega
  · rw [Bool.not_eq_true', ← Bool.not_eq_true, h.carry]
    omega

end

namespace Alu

theorem sub8_eq (a n : UInt8) (b : Bool) : sub8 a n b =
    let sum := add8 a (~~~n) (!b)
    (sum.1, { sum.2 with n := true, h := !sum.2.h, c := !sum.2.c }) := by
  obtain ⟨hr, hf⟩ := (isDifference_sub8 a n b).unique (isSum_add8 a (~~~n) (!b)).difference
  exact Prod.ext hr hf

theorem inc8_eq (n : UInt8) (f : Flags) : inc8 n f =
    let sum := add8 n 1 false
    (sum.1, { sum.2 with c := f.c }) := by
  have hr : n + 1 = (add8 n 1 false).1 := (UInt8.add_zero (n + 1)).symm
  have hh : (n &&& 0xF == 0xF) = (add8 n 1 false).2.h := by
    rw [Bool.eq_iff_iff, (isSum_add8 n 1 false).half, beq_iff_eq, ← UInt8.toNat_inj, toNat_and_nibble]
    show n.toNat % 16 = 15 ↔ 16 ≤ n.toNat % 16 + 1 + 0
    omega
  show (n + 1, Flags.mk (n + 1 == 0) false (n &&& 0xF == 0xF) f.c) = _
  rw [hr, hh]
  rfl

theorem dec8_eq (n : UInt8) (f : Flags) : dec8 n f =
    let difference := sub8 n 1 false
    (difference.1, { difference.2 with c := f.c }) := by
  have hr : n - 1 = (sub8 n 1 false).1 := (UInt8.sub_zero (n - 1)).symm
  have hh : (n &&& 0xF == 0) = (sub8 n 1 false).2.h := by
    rw [Bool.eq_iff_iff, (isDifference_sub8 n 1 false).half, beq_iff_eq, ← UInt8.toNat_inj,
      toNat_and_nibble]
    show n.toNat % 16 = 0 ↔ n.toNat % 16 < 1 + 0
    omega
  show (n - 1, Flags.mk (n - 1 == 0) true (n &&& 0xF == 0) f.c) = _
  rw [hr, hh]
  rfl

/-- The carry of the low bytes makes one number of the two sums. -/
theorem add16_of_sums {m n : UInt16} {low high : UInt8} {fl fh : Flags} (f : Flags)
    (hlow : IsSum (lo m).toNat (lo n).toNat 0 low fl)
    (hhigh : IsSum (hi m).toNat (hi n).toNat fl.c.toNat high fh) :
    add16 m n f = (word high low, { fh with z := f.z }) := by
  have hm := m.toNat_lt
  have hn := n.toNat_lt
  have hl := low.toNat_lt
  have hh := high.toNat_lt
  have hlo := hlow.total (c := false)
  have hhi := hhigh.total
  rw [toNat_lo, toNat_lo, Bool.toNat_false] at hlo
  rw [toNat_hi, toNat_hi] at hhi
  have hr : m + n = word high low := by
    apply UInt16.toNat_inj.1
    rw [UInt16.toNat_add, toNat_word]
    omega
  -- The carries out of bits 11 and 15 are those out of bits 3 and 7 of the high bytes.
  have hhalf : decide ((m &&& 0x0FFF) + (n &&& 0x0FFF) > 0x0FFF) = fh.h := by
    have hmask (w : UInt16) : (w &&& 0x0FFF).toNat = w.toNat % 4096 := by
      rw [UInt16.toNat_and]
      exact Nat.and_two_pow_sub_one_eq_mod _ 12
    rw [Bool.eq_iff_iff, hhigh.half, decide_eq_true_iff, gt_iff_lt, UInt16.lt_iff_toNat_lt,
      UInt16.toNat_add, hmask, hmask, toNat_hi, toNat_hi]
    show 4095 < _ ↔ _
    omega
  have hcarry : decide (m.toUInt32 + n.toUInt32 > 0xFFFF) = fh.c := by
    rw [Bool.eq_iff_iff, hhigh.carry, decide_eq_true_iff, gt_iff_lt, UInt32.lt_iff_toNat_lt,
      UInt32.toNat_add, UInt16.toNat_toUInt32, UInt16.toNat_toUInt32, toNat_hi, toNat_hi]
    show 65535 < _ ↔ _
    omega
  show (m + n, Flags.mk f.z false _ _) = _
  rw [hr, hhalf, hcarry, ← hhigh.subtract]

theorem add16_eq (m n : UInt16) (f : Flags) : add16 m n f =
    let low := add8 (lo m) (lo n) false
    let high := add8 (hi m) (hi n) low.2.c
    (word high.1 low.1, { high.2 with z := f.z }) :=
  add16_of_sums f (isSum_add8 (lo m) (lo n) false) (isSum_add8 (hi m) (hi n) _)

theorem lo_signExtend (e : UInt8) : lo (signExtend e) = e := by
  by_cases h : e < 0x80
  · rw [signExtend, if_pos h]
    exact UInt8.toUInt8_toUInt16 e
  · rw [signExtend, if_neg h, lo, UInt16.toUInt8_add, UInt8.toUInt8_toUInt16]
    exact UInt8.add_zero e

theorem lo_addSp (sp : UInt16) (e : UInt8) : lo (addSp sp e).1 = (add8 (lo sp) e false).1 :=
  calc lo (sp + signExtend e)
    _ = lo sp + lo (signExtend e) := UInt16.toUInt8_add sp (signExtend e)
    _ = lo sp + e := by rw [lo_signExtend]
    _ = (add8 (lo sp) e false).1 := (UInt8.add_zero _).symm

theorem toNat_addSp (sp : UInt16) (e : UInt8) :
    ((addSp sp e).1.toNat : Int) = (sp.toNat + e.toInt8.toInt) % 2 ^ 16 := by
  show ((sp + signExtend e).toNat : Int) = _
  rw [add_signExtend, displaced, UInt16.ofInt, UInt16.toNat_ofNat']
  omega

theorem addSp_flags (sp : UInt16) (e : UInt8) :
    (addSp sp e).2 = { (add8 (lo sp) e false).2 with z := false } := by
  simp [addSp, add8, bitOf]

/-- Every result and flag of the other adders is one of `add8`, or is kept; only the displaced stack
pointer goes beyond its bytes, as a signed number does. -/
theorem adders_agree :
    (∀ a n b, sub8 a n b =
      let sum := add8 a (~~~n) (!b)
      (sum.1, { sum.2 with n := true, h := !sum.2.h, c := !sum.2.c })) ∧
    (∀ n f, inc8 n f = ((add8 n 1 false).1, { (add8 n 1 false).2 with c := f.c })) ∧
    (∀ n f, dec8 n f = ((sub8 n 1 false).1, { (sub8 n 1 false).2 with c := f.c })) ∧
    (∀ m n f, add16 m n f =
      let low := add8 (lo m) (lo n) false
      let high := add8 (hi m) (hi n) low.2.c
      (word high.1 low.1, { high.2 with z := f.z })) ∧
    ∀ sp e, lo (addSp sp e).1 = (add8 (lo sp) e false).1 ∧
      (addSp sp e).2 = { (add8 (lo sp) e false).2 with z := false, n := false } ∧
      ((addSp sp e).1.toNat : Int) = (sp.toNat + e.toInt8.toInt) % 2 ^ 16 :=
  ⟨sub8_eq, inc8_eq, dec8_eq, add16_eq, fun sp e =>
    ⟨lo_addSp sp e, addSp_flags sp e, toNat_addSp sp e⟩⟩

end Alu

end Dmg
