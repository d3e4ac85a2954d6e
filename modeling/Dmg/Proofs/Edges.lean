import Dmg.Bus
import Mathlib.Data.List.Induction

/-! # The edges the timer counts

TIMA counts the falling edges of one signal, the bit of the counter that TAC selects under the
enable bit of TAC (`Timer.High`), whether a tick or a register write makes them (`Timer.Falls`). An
overflow in a tick requests the line in that tick, and one in a write on the tick that comes next,
for which the timer keeps a latch: it is set if and only if a write has overflowed since the last
tick (`Timer.overflowed_after`). -/

namespace Dmg

/-- What happens to a timer. -/
inductive TimerOp where
  | tick
  | write (a : UInt16) (v : UInt8)
deriving DecidableEq

/-- What an operation writes to TIMA itself. -/
def TimerOp.toTima : TimerOp → Option UInt8
  | .tick => none
  | .write a v => if a = timaAddress then some v else none

namespace Timer
variable {t : Timer} {o : TimerOp} {a : UInt16} {v : UInt8}

def apply (t : Timer) : TimerOp → Timer
  | .tick => t.tick.1
  | .write a v => t.write a v

/-- The timer after operations one after the other. -/
def after (t : Timer) (ops : List TimerOp) : Timer := ops.foldl apply t

/-- The bit of the counter that bits 1 and 0 of TAC select. -/
def tap (tac : UInt8) : Nat :=
  match tac.toNat % 4 with
  | 0 => 9
  | 1 => 3
  | 2 => 5
  | _ => 7

/-- Bit 2 of TAC and the selected bit of the counter are set. -/
def High (t : Timer) : Prop :=
  t.tac.toNat.testBit 2 = true ∧ t.counter.toNat.testBit (tap t.tac) = true

instance (t : Timer) : Decidable t.High := inferInstanceAs (Decidable (_ ∧ _))

/-- The signal is high before the operation and low after it. -/
def Falls (t : Timer) (o : TimerOp) : Prop := t.High ∧ ¬ (t.apply o).High

instance (t : Timer) (o : TimerOp) : Decidable (t.Falls o) := inferInstanceAs (Decidable (_ ∧ ¬ _))

/-- The operation counts TIMA past its last value. -/
def Overflows (t : Timer) (o : TimerOp) : Prop := t.Falls o ∧ t.tima = 0xFF

/-! ### The signal -/

theorem watchedBit_eq (tac : UInt8) : (watchedBit tac).toNat = tap tac ∧ tap tac < 16 := by
  have key : ∀ n : Fin 256,
      (watchedBit (.ofNat n)).toNat = tap (.ofNat n) ∧ tap (.ofNat n) < 16 := by decide +kernel
  simpa using key ⟨tac.toNat, tac.toNat_lt⟩

theorem gate_eq (tac : UInt8) : (tac &&& 4 != 0) = tac.toNat.testBit 2 := by
  have key : ∀ n : Fin 256, ((.ofNat n : UInt8) &&& 4 != 0) = n.val.testBit 2 := by decide +kernel
  simpa using key ⟨tac.toNat, tac.toNat_lt⟩

theorem signal_iff : t.signal = true ↔ t.High := by
  obtain ⟨hbit, hlt⟩ := watchedBit_eq t.tac
  have htap :
      ((t.counter >>> watchedBit t.tac) &&& 1 == 1) = t.counter.toNat.testBit (tap t.tac) := by
    rw [Nat.testBit, ← hbit, Bool.eq_iff_iff]
    simp only [beq_iff_eq, bne_iff_ne, ← UInt16.toNat_inj, UInt16.toNat_and,
      UInt16.toNat_shiftRight, hbit, Nat.mod_eq_of_lt hlt, Nat.and_comm 1]
    show _ &&& 1 = 1 ↔ _ &&& 1 ≠ 0
    rw [Nat.and_one_is_mod]
    omega
  rw [signal, gate_eq, htap, Bool.and_eq_true]
  rfl

/-! ### One operation -/

/-- The timer with the operation's own effect, before the edge is counted. -/
def stored (t : Timer) : TimerOp → Timer
  | .tick => { t with counter := t.counter + 4 }
  | .write a v => (t.store? a v).getD t

/-- A write to the timer changes one register, and one elsewhere none. -/
theorem stored_write (t : Timer) (a : UInt16) (v : UInt8) :
    (a = timaAddress ∧ t.stored (.write a v) = { t with tima := v }) ∨
      (a ≠ timaAddress ∧ (t.stored (.write a v) = { t with counter := 0 } ∨
        t.stored (.write a v) = { t with tma := v } ∨
        t.stored (.write a v) = { t with tac := v &&& 7 } ∨ t.stored (.write a v) = t)) := by
  by_cases htima : a = timaAddress
  · subst htima
    exact .inl ⟨rfl, rfl⟩
  · refine .inr ⟨htima, ?_⟩
    by_cases hdiv : a = divAddress
    · subst hdiv
      exact .inl rfl
    by_cases htma : a = tmaAddress
    · subst htma
      exact .inr (.inl rfl)
    by_cases htac : a = tacAddress
    · subst htac
      exact .inr (.inr (.inl rfl))
    · exact .inr (.inr (.inr (by simp [stored, store?, hdiv, htima, htma, htac])))

theorem stored_tima (t : Timer) (o : TimerOp) : (t.stored o).tima = o.toTima.getD t.tima := by
  cases o with
  | tick => rfl
  | write a v =>
    rcases t.stored_write a v with ⟨ha, h⟩ | ⟨ha, h | h | h | h⟩ <;> rw [h, TimerOp.toTima]
    · rw [if_pos ha]; rfl
    all_goals rw [if_neg ha]; rfl

theorem countEdge_fst (before : Bool) (t : Timer) : (countEdge before t).1 =
    { t with tima := if before && !t.signal then if t.tima = 0xFF then t.tma else t.tima + 1
      else t.tima } := by
  unfold countEdge
  split
  · split <;> rfl
  · rfl

theorem countEdge_snd (before : Bool) (t : Timer) :
    (countEdge before t).2 = (before && !t.signal && t.tima == 0xFF) := by
  unfold countEdge
  split
  · split <;> simp_all
  · simp_all

theorem countEdge_self (t : Timer) : countEdge t.signal t = (t, false) := by
  simp [countEdge]

theorem write_eq (t : Timer) (a : UInt16) (v : UInt8) : t.write a v =
    { (countEdge t.signal (t.stored (.write a v))).1 with
      overflowed := t.overflowed || (countEdge t.signal (t.stored (.write a v))).2 } := by
  cases h : t.store? a v with
  | none =>
    have hs : t.stored (.write a v) = t := by simp [stored, h]
    rw [hs, countEdge_self, Bool.or_false, write, h]
  | some s =>
    have hs : t.stored (.write a v) = s := by simp [stored, h]
    rw [hs, write, h]

theorem high_apply (t : Timer) (o : TimerOp) : (t.apply o).High ↔ (t.stored o).High := by
  cases o with
  | tick =>
    show Timer.High { (countEdge _ _).1 with overflowed := false } ↔ _
    rw [countEdge_fst]
    rfl
  | write a v =>
    show (t.write a v).High ↔ _
    rw [write_eq, countEdge_fst]
    rfl

theorem falls_iff : t.Falls o ↔ (t.signal && !(t.stored o).signal) = true := by
  rw [Falls, high_apply, Bool.and_eq_true, Bool.not_eq_true', ← Bool.not_eq_true,
    signal_iff, signal_iff]

theorem tima_apply_stored (t : Timer) (o : TimerOp) : (t.apply o).tima =
    if t.Falls o then if (t.stored o).tima = 0xFF then (t.stored o).tma else (t.stored o).tima + 1
    else (t.stored o).tima := by
  simp only [falls_iff]
  cases o with
  | tick => exact congrArg tima (countEdge_fst _ _)
  | write a v =>
    show (t.write a v).tima = _
    rw [write_eq, countEdge_fst]

/-- What makes the signal fall leaves TIMA and TMA alone. -/
theorem stored_of_falls (h : t.Falls o) :
    o.toTima = none ∧ (t.stored o).tima = t.tima ∧ (t.stored o).tma = t.tma := by
  obtain ⟨hhigh, hlow⟩ := h
  rw [high_apply] at hlow
  cases o with
  | tick => exact ⟨rfl, rfl, rfl⟩
  | write a v =>
    rcases t.stored_write a v with ⟨ha, h⟩ | ⟨ha, h | h | h | h⟩ <;> rw [h] at hlow ⊢
    · exact absurd hhigh hlow
    · exact ⟨if_neg ha, rfl, rfl⟩
    · exact absurd hhigh hlow
    · exact ⟨if_neg ha, rfl, rfl⟩
    · exact absurd hhigh hlow

theorem tima_apply (t : Timer) (o : TimerOp) : (t.apply o).tima =
    if t.Falls o then if t.tima = 0xFF then t.tma else t.tima + 1 else o.toTima.getD t.tima := by
  rw [tima_apply_stored]
  by_cases h : t.Falls o
  · obtain ⟨-, htima, htma⟩ := stored_of_falls h
    rw [if_pos h, if_pos h, htima, htma]
  · rw [if_neg h, if_neg h, stored_tima]

/-! ### The latch -/

theorem overflows_iff : t.Overflows o ↔ (countEdge t.signal (t.stored o)).2 = true := by
  rw [countEdge_snd, Bool.and_eq_true, ← falls_iff, beq_iff_eq]
  constructor
  · rintro ⟨h, hmax⟩
    exact ⟨h, (stored_of_falls h).2.1.trans hmax⟩
  · rintro ⟨h, hmax⟩
    exact ⟨h, (stored_of_falls h).2.1.symm.trans hmax⟩

theorem tick_requests : t.tick.2 = true ↔ t.Overflows .tick ∨ t.overflowed = true := by
  rw [overflows_iff, ← Bool.or_eq_true]
  rfl

theorem overflowed_write : (t.write a v).overflowed = true ↔
    t.overflowed = true ∨ t.Overflows (.write a v) := by
  rw [write_eq, overflows_iff, ← Bool.or_eq_true]

/-- A write has overflowed since the last of the ticks. -/
def Owing (ops : List TimerOp) : Prop :=
  ∃ A B a v, ops = A ++ .write a v :: B ∧ .tick ∉ B ∧
    (({} : Timer).after A).Overflows (.write a v)

theorem after_concat (t : Timer) (ops : List TimerOp) (o : TimerOp) :
    t.after (ops ++ [o]) = (t.after ops).apply o := by
  rw [after, List.foldl_append]
  rfl

theorem not_owing_tick (ops : List TimerOp) : ¬ Owing (ops ++ [.tick]) := by
  rintro ⟨A, B, a, v, hops, hB, -⟩
  have hlast := congrArg List.getLast? hops
  cases B using List.reverseRecOn with
  | nil => simp at hlast
  | append_singleton B x =>
    rw [← List.cons_append, ← List.append_assoc, List.getLast?_concat,
      List.getLast?_concat] at hlast
    cases hlast
    exact hB (by simp)

theorem owing_write (ops : List TimerOp) : Owing (ops ++ [.write a v]) ↔
    Owing ops ∨ (({} : Timer).after ops).Overflows (.write a v) := by
  constructor
  · rintro ⟨A, B, a', v', hops, hB, hover⟩
    cases B using List.reverseRecOn with
    | nil =>
      obtain ⟨rfl, heq⟩ := List.append_inj' hops rfl
      cases heq
      exact .inr hover
    | append_singleton B x =>
      rw [← List.cons_append, ← List.append_assoc] at hops
      obtain ⟨rfl, -⟩ := List.append_inj' hops rfl
      exact .inl ⟨A, B, a', v', rfl, fun h => hB (by simp [h]), hover⟩
  · rintro (⟨A, B, a', v', rfl, hB, hover⟩ | hover)
    · exact ⟨A, B ++ [.write a v], a', v', by simp, by simpa using hB, hover⟩
    · exact ⟨ops, [], a, v, rfl, by simp, hover⟩

/-- The latch is set if and only if a tick is owed an interrupt. -/
theorem overflowed_after (ops : List TimerOp) :
    (({} : Timer).after ops).overflowed = true ↔ Owing ops := by
  induction ops using List.reverseRecOn with
  | nil =>
    refine ⟨nofun, ?_⟩
    rintro ⟨A, B, a, v, hops, -⟩
    simp at hops
  | append_singleton ops o ih =>
    rw [after_concat]
    cases o with
    | tick =>
      refine ⟨fun h => ?_, fun h => absurd h (not_owing_tick ops)⟩
      have hclear : (({} : Timer).after ops).tick.1.overflowed = false := rfl
      exact absurd h (by rw [apply, hclear]; decide)
    | write a v =>
      show (Timer.write _ a v).overflowed = true ↔ _
      rw [overflowed_write, ih, owing_write]

/-! ### All of it -/

/-- TIMA is counted up by the edges and otherwise changed only by a write to it, and a tick requests
the line for an overflow of its own or of a write since the last one. -/
theorem counts_falling_edges {π : Type} [HostDevice π] (ops : List TimerOp) :
    let t := ({} : Timer).after ops
    (∀ o, (t.apply o).tima = if t.Falls o then if t.tima = 0xFF then t.tma else t.tima + 1
      else o.toTima.getD t.tima) ∧
    (∀ v, ¬ t.Falls (.write timaAddress v)) ∧
    (t.tick.2 = true ↔ t.Overflows .tick ∨ Owing ops) ∧
    ∀ (cycle : UInt64) (irq : Interrupts), Bus.tickDevices cycle [(.timer t : Device π)] irq =
      ([.timer (t.apply .tick)],
        { irq with pending := irq.pending ||| if t.tick.2 then Line.timer.mask else 0 }) := by
  intro t
  refine ⟨tima_apply t, fun v h => ?_, ?_, fun cycle irq => ?_⟩
  · exact absurd (stored_of_falls h).1 (by simp [TimerOp.toTima])
  · rw [tick_requests, overflowed_after]
  · show ([_], if t.tick.2 then irq.request .timer else irq) = _
    cases t.tick.2 with
    | true => rfl
    | false =>
      have hzero : irq.pending ||| 0 = irq.pending := UInt8.or_zero
      exact congrArg (_, ·) (congrArg (Interrupts.mk · irq.enabled) hzero.symm)

end Timer

end Dmg
