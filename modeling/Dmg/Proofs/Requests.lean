import Dmg.Proofs.Arbitration
import Dmg.Proofs.Chronicle

/-! # Requests are kept

A pending line stays pending through every deed but two: its own service, and a write to the request
register in which its bit is clear (`Machine.pending_apply`). So wherever in a chronicle a line has
stopped being pending, one of the two came before (`Machine.requests_are_kept`). -/

namespace Dmg

namespace Interrupts
variable {i : Interrupts} {l l' : Line} {a : UInt16} {v : UInt8}

def Pending (l : Line) (i : Interrupts) : Prop := i.pending &&& l.mask ≠ 0

instance (l : Line) (i : Interrupts) : Decidable (i.Pending l) :=
  inferInstanceAs (Decidable (_ ≠ _))

namespace Pending

theorem request (h : i.Pending l) (l' : Line) : (i.request l').Pending l := by
  intro hzero
  have hor : (i.pending ||| l'.mask) &&& l.mask = i.pending &&& l.mask ||| l'.mask &&& l.mask :=
    UInt8.toBitVec_inj.1 BitVec.and_or_distrib_right
  exact h (UInt8.or_eq_zero_iff.1 (hor.symm.trans hzero)).1

theorem clear (h : i.Pending l) (hl : l ≠ l') : (i.clear l').Pending l := by
  have hmask : ~~~l'.mask &&& l.mask = l.mask := by
    revert hl
    cases l <;> cases l' <;> decide
  unfold Pending Interrupts.clear
  rw [UInt8.and_assoc, hmask]
  exact h

theorem write (h : i.Pending l) (hw : a = ifAddress → v &&& l.mask ≠ 0) :
    (i.write a v).Pending l := by
  unfold Interrupts.write
  split
  · next ha =>
    have hmask : lineBits &&& l.mask = l.mask := by cases l <;> decide
    unfold Pending
    rw [UInt8.and_assoc, hmask]
    exact hw ha
  · split <;> exact h

end Pending

end Interrupts

/-- The deed takes a line back: the line is served, or its bit is clear in a write to the request
register. -/
def Deed.Withdraws (l : Line) (d : Deed) : Prop :=
  d = .serve l ∨ ∃ v, d = .write ⟨ifAddress, v⟩ ∧ v &&& l.mask = 0

namespace Bus
variable {π : Type} [HostDevice π] {l : Line}

/-- All that a cycle of the devices does to the pending lines is to add to them. -/
theorem pending_tickDevices [RequestsOnly π] (cycle : UInt64) (ds : List (Device π))
    {irq : Interrupts} (h : irq.Pending l) : (tickDevices cycle ds irq).2.Pending l := by
  induction ds generalizing irq with
  | nil => exact h
  | cons d ds ih =>
    have hrequests (lines : List Line) {i : Interrupts} (hi : i.Pending l) :
        (lines.foldl Interrupts.request i).Pending l := by
      induction lines generalizing i with
      | nil => exact hi
      | cons l' lines ihl => exact ihl (hi.request l')
    obtain ⟨lines, hlines⟩ := d.tick_requests cycle irq
    rw [tickDevices_cons]
    exact ih (hlines ▸ hrequests lines h)

end Bus

namespace Machine
variable {π : Type} [HostDevice π] {m : Machine π} {l : Line} {D : List Deed}

theorem pending_apply [RequestsOnly π] {d : Deed} (h : m.bus.irq.Pending l) (hd : ¬ d.Withdraws l) :
    (d.apply m).bus.irq.Pending l := by
  cases d with
  | tick => exact Bus.pending_tickDevices _ _ h
  | request l' => exact h.request l'
  | serve l' =>
    have hl : l ≠ l' := by
      rintro rfl
      exact hd (.inl rfl)
    exact h.clear hl
  | write w =>
    have hw : w.address = ifAddress → w.value &&& l.mask ≠ 0 := by
      rintro ha hv
      exact hd (.inr ⟨w.value, by rw [← ha], hv⟩)
    show (m.bus.write w.address w.value).irq.Pending l
    simp only [Bus.write]
    split
    · exact h.write hw
    · exact h

theorem pending_after [RequestsOnly π] (h : m.bus.irq.Pending l) (hD : ∀ d ∈ D, ¬ d.Withdraws l) :
    (m.after D).bus.irq.Pending l := by
  induction D generalizing m with
  | nil => exact h
  | cons d D ih =>
    rw [after_cons]
    refine ih (pending_apply h (hD d List.mem_cons_self)) ?_
    intro e he
    exact hD e (List.mem_cons_of_mem d he)

/-! ### The deeds of a cycle -/

theorem serve_mem_stepDeeds : .serve l ∈ m.stepDeeds ↔ m.Dispatches l := by
  unfold stepDeeds
  cases hb : m.begun with
  | none =>
    refine ⟨nofun, ?_⟩
    intro h
    obtain ⟨w, hw, -⟩ := begun_of_mem h
    rw [hb] at hw
    cases hw
  | some w =>
    have hmem : .serve l ∈ w.act.deeds ++ w.writes.map .write ↔ w.act = .dispatch l := by
      cases w.act <;> simp [Activity.deeds, eq_comm]
    rw [hmem]
    constructor
    · intro hact
      rw [Dispatches, milestones_begun hb, hact]
      exact List.mem_cons_self
    · intro h
      obtain ⟨w', hw', hact⟩ := begun_of_mem h
      rw [hb] at hw'
      cases hw'
      exact hact

theorem serve_mem_cycleDeeds : .serve l ∈ m.cycleDeeds ↔ m.advance.tickBus.Dispatches l := by
  rw [cycleDeeds, List.mem_cons, ← serve_mem_stepDeeds]
  simp

/-- The next cycle is one in which the processor starts nothing: it is in the middle of something,
it stays halted, or it fails. -/
def Uneventful (m : Machine π) : Prop :=
  (∃ act n, m.cpu.phase = .busy act n) ∨
    m.cpu.phase = .halted ∧ m.advance.tickBus.bus.irq.active = 0 ∨ m.cycle.failure ≠ none

theorem cycleDeeds_of_uneventful (h : m.Uneventful) : m.cycleDeeds = [.tick] := by
  have hbegun : m.advance.tickBus.begun = none := by
    rcases h with ⟨act, n, h⟩ | ⟨h, ha⟩ | h
    · exact begun_of_busy h
    · exact begun_of_idle h ha
    · cases hb : m.advance.tickBus.begun with
      | none => rfl
      | some w => exact absurd (stepCpu_begun hb).2 h
  rw [cycleDeeds, stepDeeds, hbegun]

/-! ### All of it -/

/-- Between two points of a run at the first of which a line is pending and at the second not, the
line was served, or a write to the request register had its bit clear. A cycle serves the line that
it dispatches, and in one that starts nothing the devices tick and nothing else happens. -/
theorem requests_are_kept [RequestsOnly π] (m : Machine π) (keep : Event → Bool) (ops : List HostOp) (l : Line) :
    (m.Follows (m.deeds ops) (m.operate keep ops) ∧
      ∀ ops', m.deeds (ops ++ ops') = m.deeds ops ++ (m.operate keep ops).deeds ops') ∧
    (∀ A B C, m.deeds ops = A ++ B ++ C → (m.after A).bus.irq.Pending l →
      ¬ (m.after (A ++ B)).bus.irq.Pending l →
        .serve l ∈ B ∨ ∃ v, .write ⟨ifAddress, v⟩ ∈ B ∧ v &&& l.mask = 0) ∧
    ∀ m' : Machine π, (.serve l ∈ m'.cycleDeeds ↔ m'.advance.tickBus.Dispatches l) ∧
      (m'.Uneventful → m'.cycleDeeds = [.tick]) := by
  refine ⟨⟨follows_operate keep ops m, deeds_append keep ops⟩, ?_,
    fun m' => ⟨serve_mem_cycleDeeds, cycleDeeds_of_uneventful⟩⟩
  intro A B C _ hA hB
  -- Were there neither in `B`, the line would have stayed pending through it.
  rw [after_append] at hB
  by_contra hnone
  rw [not_or] at hnone
  refine hB (pending_after hA ?_)
  rintro d hd (rfl | ⟨v, rfl, hv⟩)
  · exact hnone.1 hd
  · exact hnone.2 ⟨v, hd, hv⟩

/-- EI; NOP with a request of the timer: it is pending until the third cycle, which serves it. -/
theorem requests_are_kept_until_served : let m := ofProgram [0xFB, 0x00]
    let ops := [.write ieAddress 4, .request .timer, .runUntil 3]
    ∃ A B, m.deeds ops = A ++ B ∧ (m.after A).bus.irq.Pending .timer ∧
      ¬ (m.after (A ++ B)).bus.irq.Pending .timer ∧ .serve .timer ∈ B := by
  intro m ops
  obtain ⟨A, B, hdeeds, hA, hB, hlast⟩ : ∃ A B, m.deeds ops = A ++ B ++ [] ∧
      (m.after A).bus.irq.Pending .timer ∧ ¬ (m.after (A ++ B)).bus.irq.Pending .timer ∧
      ∀ v, .write ⟨ifAddress, v⟩ ∉ B := by
    refine ⟨[.write ⟨ieAddress, 4⟩, .request .timer], [.tick, .tick, .tick, .serve .timer,
      .write ⟨0xFFFE, 2⟩, .write ⟨0xFFFF, 0⟩], ?_, ?_, ?_, ?_⟩
    · decide +kernel
    · decide +kernel
    · decide +kernel
    · simp [ifAddress]
  refine ⟨A, B, by rw [hdeeds, List.append_nil], hA, hB, ?_⟩
  rcases (requests_are_kept m (fun _ => true) ops .timer).2.1 A B [] hdeeds hA hB with h | ⟨v, h, -⟩
  · exact h
  · exact absurd h (hlast v)

end Machine

end Dmg
