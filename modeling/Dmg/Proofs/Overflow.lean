import Dmg.Proofs.Edges
import Mathlib.Algebra.Group.Nat.Defs
import Mathlib.Data.Nat.Init

/-! # When the timer overflows

Between writes the counter gains four a tick, and TIMA one each time the counter comes to a multiple
of the period that TAC selects. The counter is a multiple of four throughout (`Timer.Aligned`), so
nothing is skipped, and a running timer overflows for the first time after exactly
`Timer.untilOverflow` ticks (`Timer.requests_iff`). -/

namespace Dmg

namespace Timer
variable {t : Timer} {o : TimerOp} {k : Nat}

/-- Counts from one falling edge of the selected bit to the next. -/
def period (tac : UInt8) : Nat :=
  match tac.toNat % 4 with
  | 0 => 1024
  | 1 => 16
  | 2 => 64
  | _ => 256

/-- The number of ticks up to and with the one in which TIMA overflows. -/
def untilOverflow (t : Timer) : Nat :=
  ((t.counter.toNat / period t.tac + 256 - t.tima.toNat) * period t.tac - t.counter.toNat) / 4

/-- The counter is a multiple of what it gains in a tick. -/
def Aligned (t : Timer) : Prop := 4 ∣ t.counter.toNat

theorem period_eq_or (tac : UInt8) :
    period tac = 1024 ∨ period tac = 16 ∨ period tac = 64 ∨ period tac = 256 := by
  unfold period
  split <;> simp

theorem two_pow_tap (tac : UInt8) : 2 * 2 ^ tap tac = period tac := by
  unfold tap period
  generalize tac.toNat % 4 = r
  rcases r with _ | _ | _ | r <;> rfl

/-! ### Alignment -/

theorem counter_apply (t : Timer) (o : TimerOp) : (t.apply o).counter = (t.stored o).counter := by
  cases o with
  | tick =>
    show (countEdge _ _).1.counter = _
    rw [countEdge_fst]
    rfl
  | write a v =>
    show (t.write a v).counter = _
    rw [write_eq, countEdge_fst]

theorem toNat_counter_tick (t : Timer) :
    (t.apply .tick).counter.toNat = (t.counter.toNat + 4) % 2 ^ 16 := by
  rw [counter_apply]
  exact UInt16.toNat_add _ _

/-- DIV is the high byte of the counter. -/
theorem toNat_div (t : Timer) : (t.counter >>> 8).toUInt8.toNat = t.counter.toNat / 256 := by
  have hlt := t.counter.toNat_lt
  have hhigh : (t.counter >>> 8).toNat = t.counter.toNat / 2 ^ 8 := by
    rw [UInt16.toNat_shiftRight, Nat.shiftRight_eq_div_pow]
    rfl
  rw [UInt16.toNat_toUInt8, hhigh]
  omega

theorem Aligned.apply (h : t.Aligned) (o : TimerOp) : (t.apply o).Aligned := by
  cases o with
  | tick =>
    unfold Aligned at h ⊢
    rw [toNat_counter_tick]
    omega
  | write a v =>
    unfold Aligned at h ⊢
    rw [counter_apply]
    rcases t.stored_write a v with ⟨-, hs⟩ | ⟨-, hs | hs | hs | hs⟩ <;> rw [hs]
    · exact h
    · exact Nat.dvd_zero 4
    · exact h
    · exact h
    · exact h

/-! ### The edges of a running timer -/

theorem testBit_iff_half_le (n i : Nat) : n.testBit i = true ↔ 2 ^ i ≤ n % (2 * 2 ^ i) := by
  have hmod := Nat.mod_lt n (Nat.two_pow_pos i)
  have hbit := Nat.mod_two_eq_zero_or_one (n / 2 ^ i)
  rw [Nat.testBit_eq_decide_div_mod_eq, decide_eq_true_iff, Nat.mul_comm, Nat.mod_mul]
  rcases hbit with h | h <;> rw [h] <;> omega

/-- The signal is high in the second half of each period. -/
theorem high_iff : t.High ↔
    t.tac.toNat.testBit 2 = true ∧ period t.tac ≤ 2 * (t.counter.toNat % period t.tac) := by
  have htap := two_pow_tap t.tac
  refine and_congr_right' ?_
  rw [testBit_iff_half_le, htap]
  omega

theorem tac_tick (t : Timer) : (t.apply .tick).tac = t.tac := by
  show (countEdge _ _).1.tac = _
  rw [countEdge_fst]

theorem tma_tick (t : Timer) : (t.apply .tick).tma = t.tma := by
  show (countEdge _ _).1.tma = _
  rw [countEdge_fst]

/-- A tick makes the signal of a running timer fall when it completes a period. -/
theorem falls_tick_iff (ha : t.Aligned) (hr : t.tac.toNat.testBit 2 = true) :
    t.Falls .tick ↔ period t.tac ∣ t.counter.toNat + 4 := by
  unfold Aligned at ha
  rw [Falls, high_iff, high_iff, tac_tick, toNat_counter_tick]
  simp only [hr, true_and]
  rcases period_eq_or t.tac with hp | hp | hp | hp <;> rw [hp] <;> omega

theorem not_falls_tick (hr : t.tac.toNat.testBit 2 = false) : ¬ t.Falls .tick := by
  rintro ⟨⟨hgate, -⟩, -⟩
  rw [hr] at hgate
  cases hgate

/-! ### Ticks alone -/

/-- The timer after `k` ticks. -/
def ticks (k : Nat) (t : Timer) : Timer := t.after (.replicate k .tick)

theorem ticks_succ (k : Nat) (t : Timer) : ticks (k + 1) t = (ticks k t).apply .tick := by
  rw [ticks, List.replicate_succ', after_concat]
  rfl

theorem tac_ticks (k : Nat) (t : Timer) : (ticks k t).tac = t.tac := by
  induction k with
  | zero => rfl
  | succ k ih => rw [ticks_succ, tac_tick, ih]

theorem tma_ticks (k : Nat) (t : Timer) : (ticks k t).tma = t.tma := by
  induction k with
  | zero => rfl
  | succ k ih => rw [ticks_succ, tma_tick, ih]

theorem Aligned.ticks (h : t.Aligned) (k : Nat) : (Timer.ticks k t).Aligned := by
  induction k with
  | zero => exact h
  | succ k ih =>
    rw [ticks_succ]
    exact ih.apply .tick

theorem toNat_counter_ticks (k : Nat) (t : Timer) :
    (ticks k t).counter.toNat = (t.counter.toNat + 4 * k) % 2 ^ 16 := by
  induction k with
  | zero => exact (Nat.mod_eq_of_lt t.counter.toNat_lt).symm
  | succ k ih =>
    rw [ticks_succ, toNat_counter_tick, ih]
    omega

theorem overflowed_ticks (h : t.overflowed = false) (k : Nat) : (ticks k t).overflowed = false := by
  cases k with
  | zero => exact h
  | succ k => rw [ticks_succ]; rfl

/-- The edges of a running timer are the multiples of its period, also when the counter wraps. -/
theorem falls_ticks_iff (ha : t.Aligned) (hr : t.tac.toNat.testBit 2 = true) (k : Nat) :
    (ticks k t).Falls .tick ↔ period t.tac ∣ t.counter.toNat + 4 * k + 4 := by
  rw [falls_tick_iff (ha.ticks k) (by rwa [tac_ticks]), tac_ticks, toNat_counter_ticks]
  rcases period_eq_or t.tac with hp | hp | hp | hp <;> rw [hp] <;> omega

/-! ### The count of periods -/

theorem four_dvd_period (tac : UInt8) : 4 ∣ period tac := by
  rcases period_eq_or tac with h | h | h | h <;> rw [h] <;> decide

theorem period_pos (tac : UInt8) : 0 < period tac := by
  rcases period_eq_or tac with h | h | h | h <;> rw [h] <;> decide

/-- A gain of four completes a period or stays inside one. -/
theorem add_four_div {u p : Nat} (hu : 4 ∣ u) (hp : 4 ∣ p) :
    (u + 4) / p = u / p + if p ∣ u + 4 then 1 else 0 := by
  obtain ⟨a, rfl⟩ := hu
  obtain ⟨b, rfl⟩ := hp
  have hfour : 4 * a + 4 = 4 * (a + 1) := rfl
  rw [hfour, Nat.mul_div_mul_left _ _ (by decide), Nat.mul_div_mul_left _ _ (by decide),
    Nat.succ_div]
  simp only [Nat.mul_dvd_mul_iff_left (by decide : 0 < 4)]

/-- A tick completes a period if and only if it is an edge. -/
theorem periods_succ (ha : t.Aligned) (hr : t.tac.toNat.testBit 2 = true) (k : Nat) :
    (t.counter.toNat + 4 * (k + 1)) / period t.tac = (t.counter.toNat + 4 * k) / period t.tac +
      if (ticks k t).Falls .tick then 1 else 0 := by
  simp only [falls_ticks_iff ha hr]
  exact add_four_div (Nat.dvd_add ha (Nat.dvd_mul_right 4 k)) (four_dvd_period t.tac)

/-- The span to the overflow is a whole number of ticks. -/
theorem untilOverflow_mul (ha : t.Aligned) : 4 * t.untilOverflow =
    (t.counter.toNat / period t.tac + 256 - t.tima.toNat) * period t.tac - t.counter.toNat :=
  Nat.mul_div_cancel' (Nat.dvd_sub (Nat.dvd_mul_left_of_dvd (four_dvd_period _) _) ha)

/-- There are ticks left to the overflow as long as TIMA and the periods completed stay below
256. -/
theorem lt_untilOverflow_iff (ha : t.Aligned) : k < t.untilOverflow ↔
    t.tima.toNat + (t.counter.toNat + 4 * k) / period t.tac <
      t.counter.toNat / period t.tac + 256 := by
  have htima := t.tima.toNat_lt
  have hmul := untilOverflow_mul ha
  have hdiv : (t.counter.toNat + 4 * k) / period t.tac <
      t.counter.toNat / period t.tac + 256 - t.tima.toNat ↔ _ :=
    Nat.div_lt_iff_lt_mul (period_pos t.tac)
  generalize (t.counter.toNat + 4 * k) / period t.tac = q at hdiv ⊢
  generalize t.counter.toNat / period t.tac = q₀ at hdiv hmul ⊢
  omega

theorem untilOverflow_pos (ha : t.Aligned) : 0 < t.untilOverflow := by
  rw [lt_untilOverflow_iff ha, Nat.add_comm]
  exact Nat.add_lt_add_left t.tima.toNat_lt _

theorem untilOverflow_le (t : Timer) : t.untilOverflow ≤ 65536 := by
  unfold untilOverflow
  rcases period_eq_or t.tac with hp | hp | hp | hp <;> rw [hp] <;> omega

/-- Until it overflows, TIMA gains one for each period completed. -/
theorem tima_ticks_add (ha : t.Aligned) (hr : t.tac.toNat.testBit 2 = true)
    (hk : k < t.untilOverflow) : (ticks k t).tima.toNat + t.counter.toNat / period t.tac =
      t.tima.toNat + (t.counter.toNat + 4 * k) / period t.tac := by
  induction k with
  | zero => rfl
  | succ k ih =>
    have ih := ih (by omega)
    have hroom := (lt_untilOverflow_iff ha).1 hk
    rw [periods_succ ha hr] at hroom ⊢
    rw [ticks_succ, tima_apply]
    by_cases hf : (ticks k t).Falls .tick
    · rw [if_pos hf] at hroom
      rw [if_pos hf, if_pos hf]
      have hlt : (ticks k t).tima.toNat < 255 := by omega
      rw [if_neg (fun h => absurd (congrArg UInt8.toNat h) (Nat.ne_of_lt hlt)), UInt8.toNat_add]
      show (_ + 1) % 256 + _ = _
      omega
    · rw [if_neg hf, if_neg hf]
      exact ih

/-- Of the ticks up to the overflow of a running timer only the last requests the line. -/
theorem requests_iff (ha : t.Aligned) (hr : t.tac.toNat.testBit 2 = true)
    (ho : t.overflowed = false) (hk : k < t.untilOverflow) :
    (ticks k t).tick.2 = true ↔ k + 1 = t.untilOverflow := by
  have htima := tima_ticks_add ha hr hk
  have hlt := (ticks k t).tima.toNat_lt
  have hlast : k + 1 = t.untilOverflow ↔ ¬ k + 1 < t.untilOverflow := by omega
  rw [tick_requests, overflowed_ticks ho, Overflows, ← UInt8.toNat_inj, hlast,
    lt_untilOverflow_iff ha, periods_succ ha hr]
  simp only [Bool.false_eq_true, or_false]
  show _ ∧ _ = 255 ↔ _
  generalize t.counter.toNat / period t.tac = q₀ at htima ⊢
  generalize (t.counter.toNat + 4 * k) / period t.tac = q at htima ⊢
  by_cases hf : (ticks k t).Falls .tick
  · rw [if_pos hf, and_iff_right hf]
    omega
  · rw [if_neg hf, iff_false_left fun h => hf h.1]
    omega

/-- A timer that is stopped requests nothing. -/
theorem not_requests_of_stopped (hr : t.tac.toNat.testBit 2 = false) (ho : t.overflowed = false)
    (k : Nat) : (ticks k t).tick.2 = false := by
  rw [← Bool.not_eq_true, tick_requests, overflowed_ticks ho]
  rintro (⟨hf, -⟩ | hf)
  · exact not_falls_tick (by rwa [tac_ticks]) hf
  · cases hf

end Timer

end Dmg
