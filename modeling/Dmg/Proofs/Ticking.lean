import Dmg.Bus
import Dmg.Proofs.Overflow

/-! # The timer after many ticks

Left to itself, TIMA counts the periods that the counter completes (`Timer.edges`), whatever the
counter starts from, and goes round from TMA to its last value once it has overflowed
(`Timer.reloaded`). Each tick counts at most one edge, so the closed form follows an edge at a time
(`Timer.toNat_tima_ticks`), and with it whether some tick has asked for the interrupt
(`Timer.hasAsked_succ`). -/

namespace Dmg

namespace Timer
variable {t : Timer} {n k x y : Nat}

/-- The falling edges that `n` ticks make. -/
def edges (n : Nat) (t : Timer) : Nat :=
  if t.tac.toNat.testBit 2 then
    (t.counter.toNat + 4 * n) / period t.tac - t.counter.toNat / period t.tac
  else 0

/-- A byte that starts from `x` and is counted up `k` times, from `y` again after 255. -/
def reloaded (x y k : Nat) : Nat :=
  if x + k ≤ 255 then x + k else y + (x + k - 256) % (256 - y)

/-- One of `n` ticks asks for the interrupt: TIMA overflows in it, or an overflow was owed before. -/
def HasAsked (n : Nat) (t : Timer) : Prop :=
  256 ≤ t.tima.toNat + edges n t ∨ t.overflowed = true ∧ 1 ≤ n

instance (n : Nat) (t : Timer) : Decidable (HasAsked n t) := inferInstanceAs (Decidable (_ ∨ _ ∧ _))

/-! ### Edges -/

/-- Four counts are less than half a period, so none is passed over. -/
theorem falls_ticks_iff_lt (hr : t.tac.toNat.testBit 2 = true) (n : Nat) :
    (ticks n t).Falls .tick ↔ (t.counter.toNat + 4 * n) / period t.tac <
      (t.counter.toNat + 4 * (n + 1)) / period t.tac := by
  rw [Falls, high_iff, high_iff, tac_tick, tac_ticks, toNat_counter_tick, toNat_counter_ticks]
  simp only [hr, true_and]
  rcases period_eq_or t.tac with hp | hp | hp | hp <;> rw [hp] <;> omega

@[simp] theorem edges_zero (t : Timer) : edges 0 t = 0 := by simp [edges]

theorem edges_succ (n : Nat) (t : Timer) :
    edges (n + 1) t = edges n t + if (ticks n t).Falls .tick then 1 else 0 := by
  unfold edges
  cases hr : t.tac.toNat.testBit 2 with
  | false =>
    have hnot : ¬ (ticks n t).Falls .tick := not_falls_tick (by rw [tac_ticks]; exact hr)
    rw [if_neg hnot]
    rfl
  | true =>
    have hbase : t.counter.toNat / period t.tac ≤ (t.counter.toNat + 4 * n) / period t.tac :=
      Nat.div_le_div_right (Nat.le_add_right _ _)
    have hnext : (t.counter.toNat + 4 * n) / period t.tac ≤
        (t.counter.toNat + 4 * (n + 1)) / period t.tac ∧
        (t.counter.toNat + 4 * (n + 1)) / period t.tac ≤
          (t.counter.toNat + 4 * n) / period t.tac + 1 := by
      rcases period_eq_or t.tac with hp | hp | hp | hp <;> rw [hp] <;> omega
    simp only [if_true, falls_ticks_iff_lt hr]
    generalize t.counter.toNat / period t.tac = start at hbase ⊢
    generalize (t.counter.toNat + 4 * n) / period t.tac = now at hbase hnext ⊢
    generalize (t.counter.toNat + 4 * (n + 1)) / period t.tac = next at hnext ⊢
    split <;> omega

/-! ### TIMA -/

theorem reloaded_of_le (h : x + k ≤ 255) : reloaded x y k = x + k := if_pos h

theorem reloaded_of_eq {q : Nat} (h : x + k = 256 + q) : reloaded x y k = y + q % (256 - y) := by
  rw [reloaded, if_neg (by omega), h, Nat.add_sub_cancel_left]

/-- Counting once more goes on from 255 with the reload value. -/
theorem reloaded_succ (hy : y ≤ 255) (x k : Nat) : reloaded x y (k + 1) =
    if reloaded x y k = 255 then y else reloaded x y k + 1 := by
  rcases Nat.lt_trichotomy (x + k) 255 with hlt | heq | hgt
  · rw [reloaded_of_le (by omega : x + k ≤ 255), reloaded_of_le (by omega : x + (k + 1) ≤ 255),
      if_neg (by omega), Nat.add_assoc]
  · rw [reloaded_of_le (by omega : x + k ≤ 255), reloaded_of_eq (by omega : x + (k + 1) = 256 + 0),
      if_pos heq, Nat.zero_mod, Nat.add_zero]
  · obtain ⟨q, hq⟩ : ∃ q, x + k = 256 + q := Nat.exists_eq_add_of_le hgt
    have hmod : q % (256 - y) < 256 - y := Nat.mod_lt _ (by omega)
    rw [reloaded_of_eq hq, reloaded_of_eq (by omega : x + (k + 1) = 256 + (q + 1)),
      ← Nat.mod_add_mod]
    -- The last value before the reload is the last remainder.
    by_cases hlast : q % (256 - y) + 1 = 256 - y
    · rw [if_pos (by omega), hlast, Nat.mod_self, Nat.add_zero]
    · rw [if_neg (by omega), Nat.mod_eq_of_lt (by omega), Nat.add_assoc]

theorem toNat_tima_ticks (n : Nat) (t : Timer) :
    (ticks n t).tima.toNat = reloaded t.tima.toNat t.tma.toNat (edges n t) := by
  have hy : t.tma.toNat ≤ 255 := Nat.le_of_lt_succ t.tma.toNat_lt
  induction n with
  | zero =>
    rw [edges_zero, reloaded_of_le (Nat.le_of_lt_succ t.tima.toNat_lt)]
    rfl
  | succ n ih =>
    have hmax : (ticks n t).tima = 0xFF ↔ reloaded t.tima.toNat t.tma.toNat (edges n t) = 255 := by
      rw [← ih, ← UInt8.toNat_inj]
      rfl
    rw [edges_succ, ticks_succ, tima_apply]
    by_cases hf : (ticks n t).Falls .tick
    · rw [if_pos hf, if_pos hf, reloaded_succ hy, tma_ticks]
      simp only [hmax]
      split
      · rfl
      · next hne =>
        rw [← ih] at hne ⊢
        have hlt := (ticks n t).tima.toNat_lt
        rw [UInt8.toNat_add]
        exact Nat.mod_eq_of_lt (by show _ + 1 < 2 ^ 8; omega)
    · rw [if_neg hf, if_neg hf]
      exact ih

/-! ### The interrupt -/

/-- The ticks have asked once one more has, or when they had before. -/
theorem hasAsked_succ (n : Nat) (t : Timer) :
    HasAsked (n + 1) t ↔ HasAsked n t ∨ (ticks n t).tick.2 = true := by
  have howed : (ticks n t).overflowed = true ↔ t.overflowed = true ∧ n = 0 := by
    cases n with
    | zero => simp [ticks, after]
    | succ n =>
      rw [ticks_succ]
      exact iff_of_false Bool.false_ne_true fun h => Nat.succ_ne_zero n h.2
  have hover : (ticks n t).Overflows .tick ↔ (ticks n t).Falls .tick ∧
      reloaded t.tima.toNat t.tma.toNat (edges n t) = 255 := by
    rw [Overflows, ← UInt8.toNat_inj, toNat_tima_ticks]
    rfl
  rw [tick_requests, howed, hover, HasAsked, HasAsked, edges_succ]
  by_cases hroom : t.tima.toNat + edges n t ≤ 255
  · rw [reloaded_of_le hroom]
    by_cases hf : (ticks n t).Falls .tick
    · rw [if_pos hf]
      grind
    · rw [if_neg hf]
      grind
  · exact iff_of_true (.inl (by omega)) (.inl (.inl (by omega)))

end Timer

theorem Interrupts.request_request (i : Interrupts) (l : Line) :
    (i.request l).request l = i.request l := by
  simp only [request, UInt8.or_assoc, UInt8.or_self]

namespace Bus
variable {π : Type} [HostDevice π]

theorem tick_timer (t : Timer) (irq : Interrupts) (cycle : UInt64) :
    Bus.tick { devices := [(.timer t : Device π)], irq } cycle =
      { devices := [.timer (t.apply .tick)]
        irq := if t.tick.2 then irq.request .timer else irq } := rfl

/-- Ticks of a timer, on whatever cycles they come. -/
theorem foldl_tick_timer (t : Timer) (irq : Interrupts) (cycles : List UInt64) :
    cycles.foldl Bus.tick { devices := [(.timer t : Device π)], irq } =
      { devices := [.timer (Timer.ticks cycles.length t)]
        irq := if Timer.HasAsked cycles.length t then irq.request .timer else irq } := by
  induction cycles using List.reverseRecOn with
  | nil =>
    have hnot : ¬ Timer.HasAsked 0 t := by
      simpa [Timer.HasAsked] using t.tima.toNat_lt
    rw [List.length_nil, if_neg hnot]
    rfl
  | append_singleton cycles cycle ih =>
    rw [List.foldl_append, ih, List.foldl_cons, List.foldl_nil, tick_timer, List.length_append,
      List.length_singleton, Timer.ticks_succ]
    refine congrArg (Bus.mk _) ?_
    simp only [Timer.hasAsked_succ]
    by_cases hasked : Timer.HasAsked cycles.length t
    · simp only [hasked, if_true, true_or, Interrupts.request_request, ite_self]
    · simp only [hasked, if_false, false_or]

end Bus

namespace Timer
variable {π : Type} [HostDevice π]

theorem testBit_request_timer (i : Interrupts) :
    (i.request .timer).pending.toNat.testBit 2 = true := by
  show (i.pending ||| 4).toNat.testBit 2 = true
  rw [UInt8.toNat_or, Nat.testBit_or]
  exact Bool.or_true _

/-- A timer that is only ticked, from whatever counter, registers and interrupts it starts. -/
theorem ticks_closed_form (t : Timer) (irq : Interrupts) (cycles : List UInt64) :
    let bus : Bus π := cycles.foldl Bus.tick { devices := [.timer t], irq }
    let n := cycles.length
    let x := t.tima.toNat
    let y := t.tma.toNat
    let k := if t.tac.toNat.testBit 2 then
      (t.counter.toNat + 4 * n) / period t.tac - t.counter.toNat / period t.tac else 0
    (bus.read divAddress).toNat = (t.counter.toNat + 4 * n) % 65536 / 256 ∧
    (bus.read timaAddress).toNat =
      (if x + k ≤ 255 then x + k else y + (x + k - 256) % (256 - y)) ∧
    (∃ t', bus.devices = [.timer t'] ∧ t'.tma = t.tma ∧ t'.tac = t.tac) ∧
    (bus.irq.pending.toNat.testBit 2 = true ↔
      irq.pending.toNat.testBit 2 = true ∨ 256 ≤ x + k ∨ t.overflowed = true ∧ 1 ≤ n) ∧
    (bus.irq = irq ∨ bus.irq = irq.request .timer) := by
  intro bus n x y k
  have hbus : bus = _ := Bus.foldl_tick_timer t irq cycles
  refine ⟨?_, ?_, ⟨ticks n t, ?_, tma_ticks n t, tac_ticks n t⟩, ?_, ?_⟩
  · rw [hbus]
    show ((ticks n t).counter >>> 8).toUInt8.toNat = _
    rw [toNat_div, toNat_counter_ticks]
    rfl
  · rw [hbus]
    exact toNat_tima_ticks n t
  · rw [hbus]
  · rw [hbus]
    show (if HasAsked n t then _ else _ : Interrupts).pending.toNat.testBit 2 = true ↔
      _ ∨ HasAsked n t
    split
    · next h => exact iff_of_true (testBit_request_timer irq) (.inr h)
    · next h => rw [or_iff_left h]
  · rw [hbus]
    exact (ite_eq_or_eq _ _ _).symm

end Timer

end Dmg
