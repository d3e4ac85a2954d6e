import Dmg.Proofs.CarryChain
import Dmg.Proofs.Modification
import Mathlib.Data.Nat.Digits.Lemmas

/-! # Chains of shifts

RL takes the carry into the lowest bit of a byte and the highest one out of it, so that from the least
significant byte on it doubles a number of any length (`Machine.Ripple.doubles`), and RR from the most
significant byte on halves it (`Machine.Ripple.halves`). What the first shift of a chain moves in
(`Shift.fill`) is all that tells SLA from RL, and SRL and SRA from RR. The two chains undo each other.
All of it is in the equation of each byte between what it was, what it becomes, and the bits that are
moved in and out (`Shift.result_add_out`, `Shift.result_add_result`). -/

namespace Dmg

/-! ### Numbers of bytes -/

section
variable {xs ys : List UInt8}

theorem littleEndian_concat (xs : List UInt8) (b : UInt8) :
    littleEndian (xs ++ [b]) = littleEndian xs + 256 ^ xs.length * b.toNat := by
  simp [littleEndian, Nat.ofDigits_append]

theorem littleEndian_lt (xs : List UInt8) : littleEndian xs < 256 ^ xs.length := by
  rw [← xs.length_map UInt8.toNat]
  refine Nat.ofDigits_lt_base_pow_length (by decide) fun d hd => ?_
  obtain ⟨b, -, rfl⟩ := List.mem_map.1 hd
  exact b.toNat_lt

theorem eq_of_littleEndian_eq (hlen : xs.length = ys.length) (h : littleEndian xs = littleEndian ys) :
    xs = ys := by
  induction xs generalizing ys with
  | nil => exact (List.length_eq_zero_iff.1 hlen.symm).symm
  | cons x xs ih =>
    cases ys with
    | nil => cases hlen
    | cons y ys =>
      have hx := x.toNat_lt
      have hy := y.toNat_lt
      rw [littleEndian_cons, littleEndian_cons] at h
      obtain rfl : x = y := UInt8.toNat_inj.1 (by omega)
      rw [ih (Nat.succ.inj hlen) (by omega)]

end

/-! ### A byte -/

namespace Shift
variable {s : Shift}

/-- The bit that is moved into the byte `v`. -/
def fill (s : Shift) (v c : Nat) : Nat :=
  match s with
  | .rlc | .sra => v / 128
  | .rrc => v % 2
  | .rl | .rr => c
  | .sla | .srl | .swap => 0

/-- What is moved out of a byte to the left is a carry of the doubled byte. -/
theorem result_add_out (hs : s = .rl ∨ s = .sla) (v c : Nat) :
    s.result v c + 256 * s.out v = 2 * v + s.fill v c := by
  rcases hs with rfl | rfl
  · show v * 2 % 256 + c + 256 * (v / 128) = 2 * v + c
    omega
  · show v * 2 % 256 + 256 * (v / 128) = 2 * v + 0
    omega

/-- What is moved out of a byte to the right is what halving it leaves over. -/
theorem result_add_result (hs : s = .rr ∨ s = .srl ∨ s = .sra) (v c : Nat) :
    2 * s.result v c + s.out v = v + 256 * s.fill v c := by
  rcases hs with rfl | rfl | rfl
  · show 2 * (v / 2 + c * 128) + v % 2 = v + 256 * c
    omega
  · show 2 * (v / 2) + v % 2 = v + 256 * 0
    omega
  · show 2 * (v / 2 + v / 128 * 128) + v % 2 = v + 256 * (v / 128)
    omega

theorem out_le (s : Shift) (v : UInt8) : s.out v.toNat ≤ 1 := by
  have hv := v.toNat_lt
  cases s with
  | rlc | rl | sla => exact Nat.le_of_lt_succ (Nat.div_lt_of_lt_mul hv)
  | rrc | rr | sra | srl => exact Nat.le_of_lt_succ (Nat.mod_lt _ (by decide))
  | swap => exact Nat.zero_le _

/-- `first` for the first of the bytes and `rest` for the others. -/
def along (first rest : Shift) : List UInt8 → List (Shift × UInt8)
  | [] => []
  | b :: bs => (first, b) :: bs.map (rest, ·)

theorem along_self (s : Shift) (xs : List UInt8) : s.along s xs = xs.map (s, ·) := by
  cases xs <;> rfl

end Shift

namespace Machine
variable {π : Type} [HostDevice π] {m m₁ m₂ m' : Machine π} {p : Shift × UInt8} {r : UInt8}
  {xs rs rs' : List UInt8}

/-- The next step shifts a byte, and `r` takes its place: in a register, in memory at HL, which is
written with it, or in A by a short rotate. -/
inductive Shifts (m : Machine π) : Shift × UInt8 → UInt8 → Machine π → Prop
  | register {s : Shift} {t : Reg} : m.Finds (.shift s (.reg t)) →
    Shifts m (s, m.cpu.regs.get t) (m.stepCpu.machine.cpu.regs.get t) m.stepCpu.machine
  | memory {s : Shift} {r : UInt8} : m.Finds (.shift s (.mem .hl)) →
    m.stepWrites = [⟨m.cpu.regs.hl, r⟩] →
      Shifts m (s, m.read m.cpu.regs.hl) r m.stepCpu.machine
  | accumulator {s : Shift} : m.Finds (.rotateA s) →
    Shifts m (s, m.cpu.regs.a) m.stepCpu.machine.cpu.regs.a m.stepCpu.machine

theorem Shifts.result (h : m.Shifts p r m') :
    r.toNat = p.1.result p.2.toNat m.cpu.regs.flags.c.toNat ∧
      m'.cpu.regs.flags.c = decide (p.1.out p.2.toNat = 1) := by
  cases h with
  | @register s t hfinds =>
    obtain ⟨v, f, hv, ⟨t', ht, hleaves⟩ | ⟨ht, -⟩⟩ := hfinds.modifies (x := .shift s)
    · cases ht
      obtain ⟨hvalue, rfl⟩ := Prod.mk.inj hv
      rw [hleaves.regs, Registers.get_set_self]
      refine ⟨hvalue, ?_⟩
      cases t <;> rfl
    · cases ht
  | @memory s r hfinds hwrites =>
    obtain ⟨v, f, hv, ⟨t, ht, -⟩ | ⟨-, hleaves⟩⟩ := hfinds.modifies (x := .shift s)
    · cases ht
    · obtain ⟨hvalue, rfl⟩ := Prod.mk.inj hv
      have hr : [(⟨m.cpu.regs.hl, r⟩ : Write)] = [⟨m.cpu.regs.hl, v⟩] :=
        hwrites.symm.trans hleaves.writes
      obtain rfl : r = v := by simpa using hr
      rw [hleaves.regs]
      exact ⟨hvalue, rfl⟩
  | @accumulator s hfinds =>
    obtain ⟨v, f, hv, hleaves⟩ := hfinds.rotates_a
    obtain ⟨hvalue, rfl⟩ := Prod.mk.inj hv
    rw [hleaves.regs]
    exact ⟨hvalue, rfl⟩

theorem Shifts.carry (h : m.Shifts p r m') : m'.cpu.regs.flags.c.toNat = p.1.out p.2.toNat := by
  rw [h.result.2]
  have hle := p.1.out_le p.2
  by_cases hout : p.1.out p.2.toNat = 1
  · rw [hout]
    rfl
  · rw [decide_eq_false hout]
    exact (Nat.lt_one_iff.1 (Nat.lt_of_le_of_ne hle hout)).symm

theorem Shifts.doubles (h : m.Shifts p r m') (hs : p.1 = .rl ∨ p.1 = .sla) :
    r.toNat + 256 * m'.cpu.regs.flags.c.toNat =
      2 * p.2.toNat + p.1.fill p.2.toNat m.cpu.regs.flags.c.toNat := by
  rw [h.result.1, h.carry]
  exact Shift.result_add_out hs _ _

theorem Shifts.halves (h : m.Shifts p r m') (hs : p.1 = .rr ∨ p.1 = .srl ∨ p.1 = .sra) :
    2 * r.toNat + m'.cpu.regs.flags.c.toNat =
      p.2.toNat + 256 * p.1.fill p.2.toNat m.cpu.regs.flags.c.toNat := by
  rw [h.result.1, h.carry]
  exact Shift.result_add_result hs _ _

/-! ### Numbers -/

/-- From the least significant byte on, `first` shifts that one and RL the others. -/
def ShiftsLeft (first : Shift) (m : Machine π) (xs rs : List UInt8) (m' : Machine π) : Prop :=
  Ripple Shifts m (first.along .rl xs) rs m'

/-- From the most significant byte on, `first` shifts that one and RR the others. The bytes of `xs`
and `rs` are named from the least significant one on. -/
def ShiftsRight (first : Shift) (m : Machine π) (xs rs : List UInt8) (m' : Machine π) : Prop :=
  Ripple Shifts m (first.along .rr xs.reverse) rs.reverse m'

/-- A byte below a number that is doubled. -/
theorem double_cons {r v c b R X N C : Nat} (hd : r + 256 * b = 2 * v + c) (h : R + N * C = 2 * X + b) :
    r + 256 * R + 256 * N * C = 2 * (v + 256 * X) + c := by
  calc r + 256 * R + 256 * N * C
    _ = r + 256 * (R + N * C) := by ring
    _ = (r + 256 * b) + 512 * X := by rw [h]; ring
    _ = 2 * (v + 256 * X) + c := by rw [hd]; ring

/-- A byte above a number that is halved. -/
theorem half_concat {r v c b R X N C : Nat} (hd : 2 * r + b = v + 256 * c) (h : 2 * R + C = X + N * b) :
    2 * (R + N * r) + C = X + N * v + 256 * N * c := by
  calc 2 * (R + N * r) + C
    _ = 2 * R + C + N * (2 * r) := by ring
    _ = X + N * (2 * r + b) := by rw [h]; ring
    _ = X + N * v + 256 * N * c := by rw [hd]; ring

theorem Ripple.doubles (h : Ripple Shifts m (xs.map (Shift.rl, ·)) rs m') :
    rs.length = xs.length ∧
      littleEndian rs + 256 ^ xs.length * m'.cpu.regs.flags.c.toNat =
        2 * littleEndian xs + m.cpu.regs.flags.c.toNat := by
  induction xs generalizing m rs with
  | nil =>
    cases h
    exact ⟨rfl, by simp [littleEndian]⟩
  | cons x xs ih =>
    cases h with
    | link hcarries hd hrest =>
      obtain ⟨hlen, hrest⟩ := ih hrest
      refine ⟨congrArg (· + 1) hlen, ?_⟩
      rw [littleEndian_cons, littleEndian_cons, List.length_cons, Nat.pow_succ', ← hcarries.carry]
      exact double_cons (hd.doubles (.inl rfl)) hrest

theorem Ripple.halves (h : Ripple Shifts m (xs.map (Shift.rr, ·)) rs m') :
    rs.length = xs.length ∧
      2 * littleEndian rs.reverse + m'.cpu.regs.flags.c.toNat =
        littleEndian xs.reverse + 256 ^ xs.length * m.cpu.regs.flags.c.toNat := by
  induction xs generalizing m rs with
  | nil =>
    cases h
    exact ⟨rfl, by simp [littleEndian]⟩
  | cons x xs ih =>
    cases h with
    | link hcarries hd hrest =>
      obtain ⟨hlen, hrest⟩ := ih hrest
      refine ⟨congrArg (· + 1) hlen, ?_⟩
      rw [List.reverse_cons, List.reverse_cons, littleEndian_concat, littleEndian_concat,
        List.length_reverse, List.length_reverse, List.length_cons, Nat.pow_succ', ← hcarries.carry,
        hlen]
      exact half_concat (hd.halves (.inl rfl)) hrest

theorem ShiftsLeft.total {first : Shift} {x : UInt8} (h : m.ShiftsLeft first (x :: xs) rs m')
    (hs : first = .rl ∨ first = .sla) : rs.length = xs.length + 1 ∧
      littleEndian rs + 256 ^ (xs.length + 1) * m'.cpu.regs.flags.c.toNat =
        2 * littleEndian (x :: xs) + first.fill x.toNat m.cpu.regs.flags.c.toNat := by
  cases h with
  | link hcarries hd hrest =>
    obtain ⟨hlen, hrest⟩ := hrest.doubles
    refine ⟨congrArg (· + 1) hlen, ?_⟩
    rw [littleEndian_cons, littleEndian_cons, Nat.pow_succ', ← hcarries.carry]
    exact double_cons (hd.doubles hs) hrest

theorem ShiftsRight.total {first : Shift} {x : UInt8} (h : m.ShiftsRight first (xs ++ [x]) rs m')
    (hs : first = .rr ∨ first = .srl ∨ first = .sra) : rs.length = xs.length + 1 ∧
      2 * littleEndian rs + m'.cpu.regs.flags.c.toNat = littleEndian (xs ++ [x]) +
        256 ^ (xs.length + 1) * first.fill x.toNat m.cpu.regs.flags.c.toNat := by
  obtain ⟨qs, rfl⟩ : ∃ qs, rs = qs.reverse := ⟨rs.reverse, rs.reverse_reverse.symm⟩
  unfold ShiftsRight at h
  rw [List.reverse_concat, List.reverse_reverse] at h
  cases h with
  | link hcarries hd hrest =>
    obtain ⟨hlen, hrest⟩ := hrest.halves
    rw [List.length_reverse] at hlen
    rw [List.reverse_reverse, List.length_reverse] at hrest
    refine ⟨by rw [List.length_reverse, List.length_cons, hlen], ?_⟩
    rw [List.reverse_cons, littleEndian_concat, littleEndian_concat, List.length_reverse, hlen,
      Nat.pow_succ', ← hcarries.carry]
    exact half_concat (hd.halves hs) hrest

end Machine

/-! ### What the equations say -/

/-- `r` and `f` are what doubling `x`, a number of `n` bytes, gives with `c` in its lowest bit. -/
structure IsDoubled (n x c r : Nat) (f : Flags) : Prop where
  value : r = (2 * x + c) % 256 ^ n
  carry : f.c = x.testBit (8 * n - 1)

/-- `r` and `f` are what halving `x`, a number of `n` bytes, gives with `c` in its highest bit. -/
structure IsHalved (n x c r : Nat) (f : Flags) : Prop where
  value : r = x / 2 + c * 2 ^ (8 * n - 1)
  carry : f.c = x.testBit 0

/-- The number that `n` bytes stand for in two's complement. -/
def twosComplement (n x : Nat) : Int := Int.bmod x (256 ^ n)

section
variable {n x c r : Nat} {f : Flags}

theorem byte_pow_eq (n : Nat) : 256 ^ (n + 1) = 2 * 2 ^ (8 * (n + 1) - 1) := by
  rw [show (256 : Nat) = 2 ^ 8 from rfl, ← Nat.pow_mul, ← Nat.pow_succ']
  rfl

theorem testBit_top_iff {k : Nat} (hx : x < 2 * 2 ^ k) : x.testBit k = true ↔ 2 ^ k ≤ x := by
  constructor
  · exact Nat.ge_two_pow_of_testBit
  · intro h
    exact Nat.testBit_of_two_pow_le_and_two_pow_add_one_gt h (by rwa [Nat.pow_succ'])

theorem IsDoubled.of_total (hc : c ≤ 1) (hx : x < 256 ^ (n + 1)) (hr : r < 256 ^ (n + 1))
    (h : r + 256 ^ (n + 1) * f.c.toNat = 2 * x + c) : IsDoubled (n + 1) x c r f := by
  obtain ⟨hvalue, hcarry⟩ := mod_of_total hr h
  refine ⟨hvalue, Bool.eq_iff_iff.2 ?_⟩
  rw [byte_pow_eq] at hx hcarry
  rw [hcarry, testBit_top_iff hx]
  omega

theorem IsHalved.of_total (h : 2 * r + f.c.toNat = x + 256 ^ (n + 1) * c) :
    IsHalved (n + 1) x c r f := by
  have hf := f.c.toNat_le
  have hsplit : 256 ^ (n + 1) * c = 2 * (c * 2 ^ (8 * (n + 1) - 1)) := by
    rw [byte_pow_eq]
    ring
  refine ⟨by omega, Bool.eq_iff_iff.2 ?_⟩
  rw [Nat.testBit_zero, decide_eq_true_iff]
  cases hfc : f.c with
  | true => rw [hfc, Bool.toNat_true] at h; exact ⟨fun _ => by omega, fun _ => rfl⟩
  | false => rw [hfc, Bool.toNat_false] at h; exact ⟨nofun, fun _ => by omega⟩

theorem bmod_of_lt {H : Nat} (hx : x < H) : Int.bmod x (2 * H) = x :=
  Int.bmod_eq_of_le (by omega) (by omega)

theorem bmod_of_le {H : Nat} (hx : H ≤ x) (hx' : x < 2 * H) : Int.bmod x (2 * H) = x - 2 * H := by
  have hshift : Int.bmod x (2 * H) = Int.bmod (x - (2 * H : Nat)) (2 * H) :=
    (Int.sub_bmod_right ..).symm
  rw [hshift]
  exact Int.bmod_eq_of_le (by omega) (by omega)

/-- A number that keeps its highest bit is halved in two's complement. -/
theorem IsHalved.signed (h : IsHalved (n + 1) x (x / 2 ^ (8 * (n + 1) - 1)) r f)
    (hx : x < 256 ^ (n + 1)) : twosComplement (n + 1) r = twosComplement (n + 1) x / 2 := by
  have hr := h.value
  unfold twosComplement
  rw [byte_pow_eq] at hx ⊢
  generalize 2 ^ (8 * (n + 1) - 1) = H at hr hx ⊢
  by_cases hlt : x < H
  · rw [Nat.div_eq_of_lt hlt, Nat.zero_mul, Nat.add_zero] at hr
    rw [bmod_of_lt hlt, bmod_of_lt (by omega : r < H), hr]
    exact Int.natCast_div x 2
  · have htop : x / H = 1 := Nat.div_eq_of_lt_le (by omega) (by omega)
    rw [htop, Nat.one_mul] at hr
    rw [bmod_of_le (by omega) hx, bmod_of_le (by omega : H ≤ r) (by omega)]
    omega

end

/-- The highest bit of a number of bytes is that of its most significant byte. -/
theorem littleEndian_div_top (xs : List UInt8) (x : UInt8) :
    littleEndian (xs ++ [x]) / 2 ^ (8 * (xs.length + 1) - 1) = x.toNat / 128 := by
  have hpow : 2 ^ (8 * (xs.length + 1) - 1) = 256 ^ xs.length * 128 := by
    have htop := byte_pow_eq xs.length
    rw [Nat.pow_succ] at htop
    omega
  rw [hpow, ← Nat.div_div_eq_div_mul, littleEndian_concat,
    Nat.add_mul_div_left _ _ (by positivity), Nat.div_eq_of_lt (littleEndian_lt xs), Nat.zero_add]

namespace Machine
variable {π : Type} [HostDevice π] {m m₁ m₂ m' : Machine π} {x : UInt8} {xs rs rs' : List UInt8}

theorem ShiftsLeft.isDoubled {first : Shift} (h : m.ShiftsLeft first xs rs m') (hne : xs ≠ [])
    (hs : first = .rl ∨ first = .sla) : rs.length = xs.length ∧
      IsDoubled xs.length (littleEndian xs) (first.fill 0 m.cpu.regs.flags.c.toNat) (littleEndian rs)
        m'.cpu.regs.flags := by
  cases xs with
  | nil => exact absurd rfl hne
  | cons x xs =>
    obtain ⟨hlen, htotal⟩ := h.total hs
    have hfill : first.fill x.toNat m.cpu.regs.flags.c.toNat =
        first.fill 0 m.cpu.regs.flags.c.toNat ∧ first.fill 0 m.cpu.regs.flags.c.toNat ≤ 1 := by
      rcases hs with rfl | rfl
      · exact ⟨rfl, Bool.toNat_le _⟩
      · exact ⟨rfl, Nat.zero_le _⟩
    rw [hfill.1] at htotal
    exact ⟨hlen, .of_total hfill.2 (littleEndian_lt _) (hlen ▸ littleEndian_lt rs) htotal⟩

theorem ShiftsRight.isHalved {first : Shift} (h : m.ShiftsRight first (xs ++ [x]) rs m')
    (hs : first = .rr ∨ first = .srl ∨ first = .sra) : rs.length = (xs ++ [x]).length ∧
      IsHalved (xs ++ [x]).length (littleEndian (xs ++ [x]))
        (first.fill x.toNat m.cpu.regs.flags.c.toNat) (littleEndian rs) m'.cpu.regs.flags := by
  obtain ⟨hlen, htotal⟩ := h.total hs
  rw [List.length_append]
  exact ⟨hlen, .of_total htotal⟩

/-- RR from the most significant byte on takes back what RL has done, the carry included. -/
theorem ShiftsLeft.undone (h : m.ShiftsLeft .rl xs rs m₁) (hc : m₁.Carries m₂)
    (h' : m₂.ShiftsRight .rr rs rs' m') :
    rs' = xs ∧ m'.cpu.regs.flags.c = m.cpu.regs.flags.c := by
  unfold ShiftsLeft at h
  unfold ShiftsRight at h'
  rw [Shift.along_self] at h h'
  obtain ⟨hlen, hleft⟩ := h.doubles
  obtain ⟨hlen', hright⟩ := h'.halves
  rw [List.length_reverse, List.length_reverse] at hlen'
  rw [List.reverse_reverse, List.reverse_reverse, List.length_reverse, hlen, hc.carry, hleft] at hright
  have hb := m.cpu.regs.flags.c.toNat_le
  have hb' := m'.cpu.regs.flags.c.toNat_le
  refine ⟨eq_of_littleEndian_eq (hlen'.trans hlen) (by omega), Bool.eq_iff_iff.2 ?_⟩
  rw [← Bool.toNat_eq_one, ← Bool.toNat_eq_one]
  omega

theorem ShiftsRight.undone (h : m.ShiftsRight .rr xs rs m₁) (hc : m₁.Carries m₂)
    (h' : m₂.ShiftsLeft .rl rs rs' m') :
    rs' = xs ∧ m'.cpu.regs.flags.c = m.cpu.regs.flags.c := by
  unfold ShiftsRight at h
  unfold ShiftsLeft at h'
  rw [Shift.along_self] at h h'
  obtain ⟨hlen, hright⟩ := h.halves
  obtain ⟨hlen', hleft⟩ := h'.doubles
  rw [List.length_reverse, List.length_reverse] at hlen
  rw [List.reverse_reverse, List.reverse_reverse, List.length_reverse] at hright
  rw [hc.carry, hlen, hright] at hleft
  -- Both numbers with the bit above them are the same, and each is below that bit.
  obtain ⟨hvalue, hcarry⟩ := mod_of_total (hlen'.trans hlen ▸ littleEndian_lt rs') hleft
  obtain ⟨hvalue', hcarry'⟩ := mod_of_total (littleEndian_lt xs) rfl
  exact ⟨eq_of_littleEndian_eq (hlen'.trans hlen) (hvalue.trans hvalue'.symm),
    Bool.eq_iff_iff.2 (hcarry.trans hcarry'.symm)⟩

/-! ### Code that shifts -/

/-- LD B,n and the shift of B. -/
def shiftCode (p : Shift × UInt8) : List UInt8 := [0x06, p.2, 0xCB, 8 * p.1.field + Reg.b.field]

theorem coded_shifts : Coded (Shifts : Machine π → _ → _ → _ → Prop) shiftCode := by
  rintro m regs ⟨s, v⟩ rest hcpu hcode
  obtain ⟨hload, -, H, m₁, hcourse, hcpu₁, hregs₁, h₂, h₃, hrest⟩ :=
    load_of_code (r := .b) rfl hcpu hcode
  have hcarries : m.Carries m₁ := by
    refine ⟨⟨_, (Course.step .start).trans hcourse⟩, ?_⟩
    rw [hregs₁, hcpu]
    rfl
  have hshift : m₁.Finds (.shift s (.reg .b)) := finds_of_cpu hcpu₁ <| .inr <| by
    rw [← congrArg Cpu.regs hcpu₁, hregs₁]
    exact ⟨h₂, congrArg some h₃.symm⟩
  have hlink := Shifts.register hshift
  have hleaves := hshift.leaves
  rw [show m₁.cpu.regs.get .b = v by rw [hregs₁]; rfl] at hlink
  obtain ⟨H₁, m₂, hcourse₁, hcpu₂, hbus₂⟩ := hshift.completes hcpu₁ (fun _ => rfl) hleaves.writes
  refine ⟨_, m₁, _, m₂, _, hcarries, hlink, ⟨⟨H₁, hcourse₁⟩, ?_⟩, hcpu₂, ?_⟩
  · rw [hcpu₂]
  · rw [hbus₂, hleaves.regs, hregs₁]
    show CodeAt m₁.bus.read (regs.pc + 2 + 2) rest
    rwa [← next_next]

/-! ### The result -/

/-- A chain to the left doubles the number that the bytes are, a chain to the right halves it, with
the bits that RL, RR, SLA, SRL or SRA moves in at its beginning, and a chain of RR takes back a chain
of RL and the other way round. -/
theorem shifts_through (m : Machine π) {xs : List UInt8} (hne : xs ≠ []) :
    let n := xs.length
    let x := littleEndian xs
    let c := m.cpu.regs.flags.c
    (∀ rs m', m.ShiftsLeft .rl xs rs m' →
      rs.length = n ∧ IsDoubled n x c.toNat (littleEndian rs) m'.cpu.regs.flags) ∧
    (∀ rs m', m.ShiftsRight .rr xs rs m' →
      rs.length = n ∧ IsHalved n x c.toNat (littleEndian rs) m'.cpu.regs.flags) ∧
    (∀ rs m', m.ShiftsLeft .sla xs rs m' →
      rs.length = n ∧ IsDoubled n x 0 (littleEndian rs) m'.cpu.regs.flags) ∧
    (∀ rs m', m.ShiftsRight .srl xs rs m' →
      rs.length = n ∧ IsHalved n x 0 (littleEndian rs) m'.cpu.regs.flags) ∧
    (∀ rs m', m.ShiftsRight .sra xs rs m' →
      rs.length = n ∧ twosComplement n (littleEndian rs) = twosComplement n x / 2 ∧
        m'.cpu.regs.flags.c = x.testBit 0) ∧
    (∀ rs m₁ m₂ rs' m', m.ShiftsLeft .rl xs rs m₁ → m₁.Carries m₂ →
      m₂.ShiftsRight .rr rs rs' m' → rs' = xs ∧ m'.cpu.regs.flags.c = c) ∧
    ∀ rs m₁ m₂ rs' m', m.ShiftsRight .rr xs rs m₁ → m₁.Carries m₂ →
      m₂.ShiftsLeft .rl rs rs' m' → rs' = xs ∧ m'.cpu.regs.flags.c = c := by
  intro n x c
  refine ⟨?_, ?_, ?_, ?_, ?_, ?_, ?_⟩
  · exact fun rs m' h => h.isDoubled hne (.inl rfl)
  · intro rs m' h
    obtain ⟨ys, y, rfl⟩ := (List.eq_nil_or_concat' xs).resolve_left hne
    exact h.isHalved (.inl rfl)
  · exact fun rs m' h => h.isDoubled hne (.inr rfl)
  · intro rs m' h
    obtain ⟨ys, y, rfl⟩ := (List.eq_nil_or_concat' xs).resolve_left hne
    exact h.isHalved (.inr (.inl rfl))
  · intro rs m' h
    obtain ⟨ys, y, rfl⟩ := (List.eq_nil_or_concat' xs).resolve_left hne
    obtain ⟨hlen, hhalved⟩ := h.isHalved (.inr (.inr rfl))
    have hlt := littleEndian_lt (ys ++ [y])
    have hfill : Shift.fill .sra y.toNat c.toNat = x / 2 ^ (8 * (ys.length + 1) - 1) :=
      (littleEndian_div_top ys y).symm
    rw [hfill, List.length_append] at hhalved
    rw [List.length_append] at hlt
    refine ⟨hlen, ?_, hhalved.carry⟩
    rw [show n = ys.length + 1 from List.length_append ..]
    exact hhalved.signed hlt
  · exact fun rs m₁ m₂ rs' m' h hc h' => h.undone hc h'
  · exact fun rs m₁ m₂ rs' m' h hc h' => h.undone hc h'

/-- RL from the low byte of 0x8001 on, with the carry set, and RR from the high byte of the result
on. -/
theorem shifts_through_rl_rr :
    let left := Shift.rl.along .rl [0x01, 0x80]
    let right := Shift.rr.along .rr [0x00, 0x03]
    let m : Machine Probe := { ofProgram (left.flatMap shiftCode ++ right.flatMap shiftCode) with
      cpu.regs.flags.c := true }
    ∃ m₁ m₂ rs' m', m.ShiftsLeft .rl [0x01, 0x80] [0x03, 0x00] m₁ ∧ m₁.cpu.regs.flags.c = true ∧
      m₁.Carries m₂ ∧ m₂.ShiftsRight .rr [0x03, 0x00] rs' m' ∧ rs' = [0x01, 0x80] ∧
        m'.cpu.regs.flags.c = true := by
  intro left right m
  have hne : [(0x01 : UInt8), 0x80] ≠ [] := nofun
  have hshifts := shifts_through m hne
  obtain ⟨rs, m₁, m₂, regs, hleft, hcarries, hcpu, hcode⟩ := coded_shifts.exists_ripple (.refl m) rfl
    left (right.flatMap shiftCode) (by decide +kernel)
  obtain ⟨hlen, hvalue, hcarry⟩ := hshifts.1 rs m₁ hleft
  obtain rfl : rs = [0x03, 0x00] := eq_of_littleEndian_eq hlen (hvalue.trans (by decide))
  rw [← List.append_nil (right.flatMap shiftCode)] at hcode
  obtain ⟨qs, m', -, -, hright, -⟩ := coded_shifts.exists_ripple (.refl m₂) hcpu right [] hcode
  rw [← qs.reverse_reverse] at hright
  obtain ⟨hback, hcarry'⟩ := hshifts.2.2.2.2.2.1 _ m₁ m₂ qs.reverse m' hleft hcarries hright
  exact ⟨m₁, m₂, _, m', hleft, hcarry.trans (by decide), hcarries, hright, hback, hcarry'⟩

end Machine

end Dmg
