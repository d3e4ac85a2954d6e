import Dmg.Proofs.CarryChain

/-! # Packed decimals

A packed byte holds two decimal digits, one in each nibble (`IsPacked`). ADC or SBC and DAA behind it
make of two packed bytes and a carry the packed byte of their decimal sum or difference, and the carry
that DAA leaves is the decimal one (`Alu.daa_of_isSum`, `Alu.daa_of_isDifference`): what each nibble
keeps and the carry out of it are a digit and the tens of a sum of digits (`exists_digit_add`,
`exists_digit_sub`). A byte at a time, numbers of any length are added and subtracted so
(`Machine.Ripple.computes_decimals`). -/

namespace Dmg

/-- Both nibbles are decimal digits. -/
def IsPacked (b : UInt8) : Prop := b.toNat / 16 ≤ 9 ∧ b.toNat % 16 ≤ 9

instance (b : UInt8) : Decidable (IsPacked b) := inferInstanceAs (Decidable (_ ∧ _))

/-- The number below 100 that a packed byte stands for. -/
def decimal (b : UInt8) : Nat := 10 * (b.toNat / 16) + b.toNat % 16

/-- The number that packed bytes stand for, the least significant one first. -/
def packedDecimal (bytes : List UInt8) : Nat := Nat.ofDigits 100 (bytes.map decimal)

/-- The lowest `n` bytes of a number when it is packed. -/
def packedBytes : Nat → Nat → List UInt8
  | 0, _ => []
  | n + 1, v => .ofNat (16 * (v / 10 % 10) + v % 10) :: packedBytes n (v / 100)

theorem packedDecimal_cons (b : UInt8) (bytes : List UInt8) :
    packedDecimal (b :: bytes) = decimal b + 100 * packedDecimal bytes := Nat.ofDigits_cons

theorem IsPacked.decimal_lt {b : UInt8} (h : IsPacked b) : decimal b < 100 := by
  unfold IsPacked at h
  unfold decimal
  omega

section
variable {bytes : List UInt8}

theorem packedDecimal_lt (h : ∀ b ∈ bytes, IsPacked b) : packedDecimal bytes < 100 ^ bytes.length := by
  rw [← bytes.length_map decimal]
  refine Nat.ofDigits_lt_base_pow_length (by decide) fun d hd => ?_
  obtain ⟨b, hb, rfl⟩ := List.mem_map.1 hd
  exact (h b hb).decimal_lt

/-- Packed bytes are those of the number they stand for. -/
theorem packedBytes_packedDecimal (h : ∀ b ∈ bytes, IsPacked b) :
    packedBytes bytes.length (packedDecimal bytes) = bytes := by
  induction bytes with
  | nil => rfl
  | cons b bytes ih =>
    obtain ⟨hb, hbytes⟩ := List.forall_mem_cons.1 h
    have hlt := hb.decimal_lt
    have hlow : packedDecimal (b :: bytes) % 100 = decimal b := by
      rw [packedDecimal_cons, Nat.add_mul_mod_self_left, Nat.mod_eq_of_lt hlt]
    have hrest : packedDecimal (b :: bytes) / 100 = packedDecimal bytes := by
      rw [packedDecimal_cons, Nat.add_mul_div_left _ _ (by decide), Nat.div_eq_of_lt hlt, Nat.zero_add]
    have hnibbles : 16 * (packedDecimal (b :: bytes) / 10 % 10) + packedDecimal (b :: bytes) % 10 =
        b.toNat := by
      unfold IsPacked at hb
      unfold decimal at hlow
      omega
    rw [List.length_cons, packedBytes, hnibbles, UInt8.ofNat_toNat, hrest, ih hbytes]

end

/-! ### A byte -/

section
variable {x y r : UInt8} {f : Flags} {b c : Bool} {s t u : Nat}

theorem isPacked_of_digits (ht : t ≤ 9) (hu : u ≤ 9) (hr : r.toNat = 16 * t + u) :
    IsPacked r ∧ decimal r = 10 * t + u := by
  unfold IsPacked decimal
  omega

/-- What is left of a sum of digits, and the carry out of it. -/
theorem exists_digit_add (hs : s ≤ 19) (hb : b = true ↔ 10 ≤ s) : ∃ d ≤ 9, d + 10 * b.toNat = s := by
  cases b with
  | true =>
    have hten := hb.1 rfl
    exact ⟨s - 10, by omega, Nat.sub_add_cancel hten⟩
  | false =>
    have hdigit : s < 10 := by simpa using hb
    exact ⟨s, by omega, rfl⟩

theorem exists_digit_sub (hs : s ≤ 9) (ht : t ≤ 10) (hb : b = true ↔ s < t) :
    ∃ d ≤ 9, d + t = s + 10 * b.toNat := by
  cases b with
  | true =>
    have hlt := hb.1 rfl
    exact ⟨s + 10 - t, by omega, Nat.sub_add_cancel (by omega)⟩
  | false =>
    have hle : t ≤ s := by simpa using hb
    exact ⟨s - t, by omega, Nat.sub_add_cancel hle⟩

namespace Alu

/-- DAA adds 6 to a nibble, or takes it off again, where `low` and `high` say. -/
theorem toNat_daa (a : UInt8) (f : Flags) :
    let low := f.h || (!f.n && 9 < a.toNat % 16)
    let high := f.c || (!f.n && 0x99 < a.toNat)
    let adjust := 0x06 * low.toNat + 0x60 * high.toNat
    (daa a f).1.toNat = (if f.n then a.toNat + (256 - adjust) else a.toNat + adjust) % 256 ∧
      (daa a f).2 = { z := (daa a f).1 == 0, n := f.n, h := false, c := high } := by
  intro low high adjust
  have hlow : (f.h || (!f.n && a &&& 0xF > 9)) = low := by
    simp only [low, gt_iff_lt, UInt8.lt_iff_toNat_lt, toNat_and_nibble]
    rfl
  have hhigh : (f.c || (!f.n && a > 0x99)) = high := by
    simp only [high, gt_iff_lt, UInt8.lt_iff_toNat_lt]
    rfl
  have hadjust : ((if low then 0x06 else 0) + (if high then 0x60 else 0) : UInt8).toNat = adjust := by
    simp only [adjust]
    cases low <;> cases high <;> rfl
  simp only [daa, hlow, hhigh, and_true]
  cases f.n with
  | true => exact (UInt8.toNat_sub ..).trans (by rw [hadjust, Nat.add_comm]; rfl)
  | false => exact (UInt8.toNat_add ..).trans (by rw [hadjust]; rfl)

/-- Whether or not the nibbles of the sum are digits, each is adjusted just where ten is reached. -/
theorem daa_of_isSum (hx : IsPacked x) (hy : IsPacked y)
    (h : IsSum x.toNat y.toNat c.toNat r f) :
    IsPacked (daa r f).1 ∧
      decimal (daa r f).1 + 100 * (daa r f).2.c.toNat = decimal x + decimal y + c.toNat := by
  obtain ⟨hvalue, hflags⟩ := toNat_daa r f
  rw [hflags]
  simp only [h.subtract, Bool.not_false, Bool.true_and, Bool.false_eq_true, if_false] at hvalue ⊢
  generalize hlow : (f.h || decide (9 < r.toNat % 16)) = low at hvalue
  generalize hhigh : (f.c || decide (0x99 < r.toNat)) = high at hvalue ⊢
  obtain ⟨hxt, hxu⟩ := hx
  obtain ⟨hyt, hyu⟩ := hy
  have hc := c.toNat_le
  have hr := h.value
  have hunits : low = true ↔ 10 ≤ x.toNat % 16 + y.toNat % 16 + c.toNat := by
    rw [← hlow, Bool.or_eq_true, decide_eq_true_iff, h.half]
    omega
  obtain ⟨u, hu, husum⟩ := exists_digit_add (by omega) hunits
  have htens : high = true ↔ 10 ≤ x.toNat / 16 + y.toNat / 16 + low.toNat := by
    rw [← hhigh, Bool.or_eq_true, decide_eq_true_iff, h.carry]
    omega
  obtain ⟨t, ht, htsum⟩ := exists_digit_add (by have := low.toNat_le; omega) htens
  have hdigits : (daa r f).1.toNat = 16 * t + u := by omega
  obtain ⟨hpacked, hdecimal⟩ := isPacked_of_digits ht hu hdigits
  refine ⟨hpacked, ?_⟩
  rw [hdecimal]
  unfold decimal
  omega

/-- After a difference the borrows out of the nibbles are all there is to adjust. -/
theorem daa_of_isDifference (hx : IsPacked x) (hy : IsPacked y)
    (h : IsDifference x.toNat y.toNat c.toNat r f) :
    IsPacked (daa r f).1 ∧
      decimal x + 100 * (daa r f).2.c.toNat = decimal (daa r f).1 + decimal y + c.toNat := by
  obtain ⟨hvalue, hflags⟩ := toNat_daa r f
  rw [hflags]
  simp only [h.subtract, Bool.not_true, Bool.false_and, Bool.or_false, if_true] at hvalue ⊢
  obtain ⟨hxt, hxu⟩ := hx
  obtain ⟨hyt, hyu⟩ := hy
  have hc := c.toNat_le
  have hr := h.value
  have hhalf := h.half
  obtain ⟨u, hu, husum⟩ := exists_digit_sub hxu (by omega) hhalf
  have htens : f.c = true ↔ x.toNat / 16 < y.toNat / 16 + f.h.toNat := by
    rw [h.borrow]
    omega
  obtain ⟨t, ht, htsum⟩ := exists_digit_sub hxt (by have := f.h.toNat_le; omega) htens
  have hdigits : (daa r f).1.toNat = 16 * t + u := by omega
  obtain ⟨hpacked, hdecimal⟩ := isPacked_of_digits ht hu hdigits
  refine ⟨hpacked, ?_⟩
  rw [hdecimal]
  unfold decimal
  omega

end Alu

end

/-! ### Numbers -/

/-- The equation between two numbers below `N`, what ADC or SBC with DAA makes of them, and the
carries before and after. -/
def AluOp.Balances (op : AluOp) (N x y c r b : Nat) : Prop :=
  match op with
  | .adc => r + N * b = x + y + c
  | .sbc => x + N * b = r + y + c
  | _ => True

theorem AluOp.Balances.cons {op : AluOp} {B N x y c r b X Y R C : Nat}
    (hd : op.Balances B x y c r b) (h : op.Balances N X Y b R C) :
    op.Balances (B * N) (x + B * X) (y + B * Y) c (r + B * R) C := by
  cases op with
  | adc =>
    have hd : r + B * b = x + y + c := hd
    have h : R + N * C = X + Y + b := h
    calc r + B * R + B * N * C
      _ = r + B * (R + N * C) := by ring
      _ = (r + B * b) + B * X + B * Y := by rw [h]; ring
      _ = x + B * X + (y + B * Y) + c := by rw [hd]; ring
  | sbc =>
    have hd : x + B * b = r + y + c := hd
    have h : X + N * C = R + Y + b := h
    calc x + B * X + B * N * C
      _ = x + B * (X + N * C) := by ring
      _ = (x + B * b) + B * R + B * Y := by rw [h]; ring
      _ = r + B * R + (y + B * Y) + c := by rw [hd]; ring
  | _ => trivial

/-- `rs` and `f` are what adding `x`, `y` and the carry `c` gives in `n` packed bytes. -/
structure IsDecimalSum (n x y c : Nat) (rs : List UInt8) (f : Flags) : Prop where
  packed : ∀ r ∈ rs, IsPacked r
  bytes : rs = packedBytes n ((x + y + c) % 100 ^ n)
  carry : f.c = true ↔ 100 ^ n ≤ x + y + c

/-- `rs` and `f` are what subtracting `y` and the borrow `c` from `x` gives in `n` packed bytes. -/
structure IsDecimalDifference (n x y c : Nat) (rs : List UInt8) (f : Flags) : Prop where
  packed : ∀ r ∈ rs, IsPacked r
  bytes : rs = packedBytes n ((x - y - c : Int) % 100 ^ n).toNat
  borrow : f.c = true ↔ x < y + c

namespace Machine
variable {π : Type} [HostDevice π] {m m' : Machine π} {op : AluOp} {p : UInt8 × UInt8}
  {ps : List (UInt8 × UInt8)} {regs : Registers} {outs : List Registers}

/-- From `m` on, `op` is executed on the two bytes, and in `m'` DAA has been executed on what it
left. -/
inductive DecimalDigit (op : AluOp) (m : Machine π) :
    UInt8 × UInt8 → Registers → Machine π → Prop
  | intro {p : UInt8 × UInt8} {m₁ m₂ : Machine π} : m.Digit op p.1 p.2 m₁ → (∃ H, Course m₁ H m₂) →
    m₂.cpu.regs.a = m₁.cpu.regs.a → m₂.cpu.regs.flags = m₁.cpu.regs.flags → m₂.Finds .daa →
    DecimalDigit op m p m₂.stepCpu.machine.cpu.regs m₂.stepCpu.machine

theorem DecimalDigit.adjusts (h : DecimalDigit op m p regs m') : m'.cpu.regs = regs ∧
    ∃ r f, op.Meets p.1.toNat p.2.toNat m.cpu.regs.flags.c.toNat r f ∧
      regs.a = (Alu.daa r f).1 ∧ regs.flags = (Alu.daa r f).2 := by
  obtain ⟨hd, -, ha, hf, hfinds⟩ := h
  refine ⟨rfl, _, _, hd.meets, ?_, ?_⟩
  · rw [hfinds.leaves.regs, ← ha, ← hf]
    rfl
  · rw [hfinds.leaves.regs, ← ha, ← hf]
    rfl

theorem DecimalDigit.flags (h : DecimalDigit op m p regs m') :
    (regs.flags.z = true ↔ regs.a = 0) ∧ regs.flags.h = false := by
  obtain ⟨-, r, f, -, ha, hf⟩ := h.adjusts
  rw [ha, hf, (Alu.toNat_daa r f).2]
  exact ⟨beq_iff_eq, rfl⟩

theorem DecimalDigit.balances (h : DecimalDigit op m p regs m') (hop : op = .adc ∨ op = .sbc)
    (hp : IsPacked p.1 ∧ IsPacked p.2) : IsPacked regs.a ∧
      op.Balances 100 (decimal p.1) (decimal p.2) m.cpu.regs.flags.c.toNat (decimal regs.a)
        m'.cpu.regs.flags.c.toNat := by
  obtain ⟨rfl, r, f, hmeets, ha, hf⟩ := h.adjusts
  rw [ha, hf]
  rcases hop with rfl | rfl
  · exact Alu.daa_of_isSum hp.1 hp.2 hmeets
  · exact Alu.daa_of_isDifference hp.1 hp.2 hmeets

theorem Ripple.flags (h : Ripple (DecimalDigit op) m ps outs m') :
    ∀ regs ∈ outs, (regs.flags.z = true ↔ regs.a = 0) ∧ regs.flags.h = false := by
  induction h with
  | done => nofun
  | link _ hd _ ih => exact List.forall_mem_cons.2 ⟨hd.flags, ih⟩

theorem Ripple.balances (h : Ripple (DecimalDigit op) m ps outs m') (hop : op = .adc ∨ op = .sbc)
    (hps : ∀ p ∈ ps, IsPacked p.1 ∧ IsPacked p.2) :
    outs.length = ps.length ∧ (∀ regs ∈ outs, IsPacked regs.a) ∧
      op.Balances (100 ^ ps.length) (packedDecimal (ps.map Prod.fst)) (packedDecimal (ps.map Prod.snd))
        m.cpu.regs.flags.c.toNat (packedDecimal (outs.map Registers.a))
        m'.cpu.regs.flags.c.toNat := by
  induction h with
  | done m =>
    refine ⟨rfl, nofun, ?_⟩
    rcases hop with rfl | rfl
    · show 0 + 100 ^ 0 * _ = 0 + 0 + _
      omega
    · show 0 + 100 ^ 0 * _ = 0 + 0 + _
      omega
  | link hcarries hd _ ih =>
    obtain ⟨hp, hps⟩ := List.forall_mem_cons.1 hps
    obtain ⟨hlen, hpacked, hrest⟩ := ih hps
    obtain ⟨hpacked', hbyte⟩ := hd.balances hop hp
    refine ⟨congrArg (· + 1) hlen, List.forall_mem_cons.2 ⟨hpacked', hpacked⟩, ?_⟩
    simp only [List.map_cons, packedDecimal_cons, List.length_cons, Nat.pow_succ']
    rw [← hcarries.carry]
    exact hbyte.cons hrest

/-! ### Code that adds or subtracts -/

/-- LD A,n, the operation on an immediate byte, and DAA. -/
def decimalCode (op : AluOp) (p : UInt8 × UInt8) : List UInt8 :=
  [0x3E, p.1, 0xC6 + 8 * op.field, p.2, 0x27]

theorem coded_decimalDigit (op : AluOp) :
    Coded (DecimalDigit op : Machine π → _ → _ → _ → Prop) (decimalCode op) := by
  intro m regs p rest hcpu hcode
  obtain ⟨m₁, m₂, hd, hcourse, hcpu₂, hdaa, hrest⟩ := digit_of_code hcpu hcode
  have hfinds : m₂.Finds .daa := finds_of_cpu hcpu₂ (.inl (by rw [hdaa]; rfl))
  have hleaves := hfinds.leaves
  obtain ⟨H, m₃, hcourse₃, hcpu₃, hbus₃⟩ := hfinds.completes hcpu₂ (fun _ => rfl) hleaves.writes
  refine ⟨_, m, _, m₃, _, .refl m, .intro hd hcourse ?_ ?_ hfinds, ⟨⟨H, hcourse₃⟩, ?_⟩, hcpu₃, ?_⟩
  · rw [hcpu₂]
  · rw [hcpu₂]
  · rw [hcpu₃]
  · rw [hbus₃, hleaves.regs, hcpu₂]
    exact hrest

/-! ### The result -/

/-- A chain of ADC and DAA adds, and a chain of SBC and DAA subtracts, the numbers that the packed
bytes stand for, and leaves the decimal carry. -/
theorem Ripple.computes_decimals (h : Ripple (DecimalDigit op) m ps outs m')
    (hps : ∀ p ∈ ps, IsPacked p.1 ∧ IsPacked p.2) :
    let n := ps.length
    let x := packedDecimal (ps.map Prod.fst)
    let y := packedDecimal (ps.map Prod.snd)
    let c := m.cpu.regs.flags.c.toNat
    let rs := outs.map Registers.a
    (op = .adc → IsDecimalSum n x y c rs m'.cpu.regs.flags) ∧
      (op = .sbc → IsDecimalDifference n x y c rs m'.cpu.regs.flags) ∧
      ∀ regs ∈ outs, (regs.flags.z = true ↔ regs.a = 0) ∧ regs.flags.h = false := by
  intro n x y c rs
  have key (hop : op = .adc ∨ op = .sbc) : (∀ r ∈ rs, IsPacked r) ∧ rs.length = n ∧
      packedDecimal rs < 100 ^ n ∧ op.Balances (100 ^ n) x y c (packedDecimal rs)
        m'.cpu.regs.flags.c.toNat := by
    obtain ⟨hlen, hpacked, hbalance⟩ := h.balances hop hps
    have hrs : ∀ r ∈ rs, IsPacked r := List.forall_mem_map.2 hpacked
    have hlen' : rs.length = n := (List.length_map ..).trans hlen
    exact ⟨hrs, hlen', hlen' ▸ packedDecimal_lt hrs, hbalance⟩
  refine ⟨?_, ?_, h.flags⟩
  · rintro rfl
    obtain ⟨hpacked, hlen, hlt, hbalance⟩ := key (.inl rfl)
    obtain ⟨hvalue, hcarry⟩ := mod_of_total hlt hbalance
    refine ⟨hpacked, ?_, hcarry⟩
    rw [← hvalue, ← hlen, packedBytes_packedDecimal hpacked]
  · rintro rfl
    obtain ⟨hpacked, hlen, hlt, hbalance⟩ := key (.inr rfl)
    obtain ⟨hvalue, hborrow⟩ := emod_of_total hlt (hbalance.trans (Nat.add_assoc ..))
    refine ⟨hpacked, ?_, hborrow⟩
    have hvalue' : (packedDecimal rs : Int) = (x - y - c : Int) % 100 ^ n := by
      rw [hvalue, Int.sub_sub]
      push_cast
      rfl
    rw [← hvalue', Int.toNat_natCast, ← hlen, packedBytes_packedDecimal hpacked]

/-- 0100 less 0001 and a borrow, two packed bytes each: 0098, and no borrow is left. -/
theorem computes_decimals_sbc :
    let ps : List (UInt8 × UInt8) := [(0x00, 0x01), (0x01, 0x00)]
    let m : Machine Probe := { ofProgram (ps.flatMap (decimalCode .sbc)) with
      cpu.regs.flags.c := true }
    ∃ outs m', Ripple (DecimalDigit .sbc) m ps outs m' ∧ outs.map Registers.a = [0x98, 0x00] ∧
      m'.cpu.regs.flags.c = false := by
  intro ps m
  obtain ⟨outs, m', -, -, hripple, -⟩ := (coded_decimalDigit .sbc).exists_ripple (.refl m) rfl ps []
    (by decide +kernel)
  have hps : ∀ p ∈ ps, IsPacked p.1 ∧ IsPacked p.2 :=
    List.forall_mem_cons.2 ⟨by decide, List.forall_mem_singleton.2 (by decide)⟩
  obtain ⟨-, hdiff, -⟩ := hripple.computes_decimals hps
  obtain ⟨-, hbytes, hborrow⟩ := hdiff rfl
  refine ⟨outs, m', hripple, hbytes.trans (by decide), ?_⟩
  rw [Bool.eq_false_iff, ne_eq, hborrow]
  decide

end Machine

end Dmg
