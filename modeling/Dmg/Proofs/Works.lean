import Dmg.Proofs.Atomic
import Dmg.Proofs.Pieces

/-! # Works one after another

`Machine.Performs` is what a program does on a processor that is left to itself: activities one after
the other, each begun where the one before it ended. The steps of the processor go through the same
works without failing and begin nothing else (`Machine.Performs.outcome_iterate`,
`Machine.Performs.activities_eq`), so that a program can be followed an instruction at a time. -/

namespace Dmg

/-- No instruction starts with the prefix byte, so an opcode that stands for one is all there is to
fetch. -/
theorem Cpu.fetch_of_decode? {cpu : Cpu} {mem : View} {i : Instruction}
    (h : Instruction.decode? (mem cpu.regs.pc) = some i) : cpu.fetch mem = .ok i := by
  have hne : mem cpu.regs.pc ≠ prefixByte := by
    intro heq
    rw [heq] at h
    cases h
  simp only [fetch, if_neg hne, h]

/-- Where no EI is waiting, the end of an instruction changes nothing. -/
theorem Cpu.complete_execute {cpu : Cpu} (h : cpu.eiArmed = false) (i : Instruction) :
    cpu.complete (.execute i) = cpu := by
  simp [complete, h]

namespace Machine
variable {π : Type} [HostDevice π] {m m' m'' : Machine π} {w : Work} {acts acts' : List Activity}
  {n n' i : Nat} {keep : Event → Bool} {seen seen' : Array Event}

/-- The activities that begin in the next `n` steps of the processor. -/
def activities : Nat → Machine π → List Activity
  | 0, _ => []
  | n + 1, m => (m.begun.map Work.act).toList ++ activities n m.step.machine

/-- `Performs m acts n m'`: the processor of `m` begins and completes `acts` one after the other, in
`n` steps that leave `m'`. -/
inductive Performs : Machine π → List Activity → Nat → Machine π → Prop
  | done (m : Machine π) : Performs m [] 0 m
  | next {m m' : Machine π} {w : Work} {acts : List Activity} {n : Nat} :
    m.begun = some w → Performs (m.perform w) acts n m' →
      Performs m (w.act :: acts) (w.cost.toNat + n) m'

theorem Performs.one (h : m.begun = some w) :
    Performs m [w.act] w.cost.toNat (m.perform w) :=
  .next h (.done _)

theorem Performs.trans (h : Performs m acts n m') (h' : Performs m' acts' n' m'') :
    Performs m (acts ++ acts') (n + n') m'' := by
  induction h with
  | done m =>
    rw [Nat.zero_add]
    exact h'
  | next hw _ ih =>
    rw [Nat.add_assoc]
    exact .next hw (ih h')

/-! ### One work, step by step -/

theorem begun_amid (h : m.begun = some w) (hi' : 1 ≤ i) (hi : i < w.cost.toNat) :
    (m.amid w i).begun = none ∧ (m.amid w i).step.failure = none ∧
      (m.amid w i).step.machine = m.amid w (i + 1) := by
  have hbusy : (m.amid w i).cpu.phase = .busy w.act (.ofNat (w.cost.toNat - i)) := by
    rw [amid, if_pos hi]
  refine ⟨begun_of_busy hbusy, ?_, step_amid h hi' hi []⟩
  rw [step, stepCpu_busy (m := (m.amid w i).advance) hbusy]

/-- What is left of work leads to its end, whatever was seen before. -/
theorem outcome_amid (h : m.begun = some w) (hi : 1 ≤ i) {j : Nat} (hj : i + j = w.cost.toNat)
    (n : Nat) : (iterate step keep (j + n) (m.amid w i) seen).outcome =
      (iterate step keep n (m.perform w) seen').outcome := by
  -- On the cycles that are left. What was seen has no part in the outcome, so it may grow on the way.
  induction j generalizing i seen with
  | zero =>
    obtain rfl : i = w.cost.toNat := hj
    rw [Nat.zero_add, amid_cost]
    exact outcome_iterate step n
  | succ j ih =>
    obtain ⟨-, hfail, hnext⟩ := begun_amid h hi (by omega)
    rw [Nat.succ_add, iterate_succ, if_pos (by rw [hfail]; rfl), hnext]
    exact ih (Nat.le_succ_of_le hi) (by omega)

theorem activities_amid (h : m.begun = some w) (hi : 1 ≤ i) {j : Nat} (hj : i + j = w.cost.toNat)
    (n : Nat) : activities (j + n) (m.amid w i) = activities n (m.perform w) := by
  induction j generalizing i with
  | zero =>
    obtain rfl : i = w.cost.toNat := hj
    rw [Nat.zero_add, amid_cost]
  | succ j ih =>
    obtain ⟨hnone, -, hnext⟩ := begun_amid h hi (by omega)
    rw [Nat.succ_add, activities, hnone, hnext]
    exact ih (Nat.le_succ_of_le hi) (by omega)

theorem exists_cost (h : m.begun = some w) : ∃ j, w.cost.toNat = 1 + j :=
  ⟨w.cost.toNat - 1, (Nat.add_sub_cancel' (begun_cost h).1).symm⟩

theorem outcome_begun (h : m.begun = some w) (n : Nat) :
    (iterate step keep (w.cost.toNat + n) m seen).outcome =
      (iterate step keep n (m.perform w) seen').outcome := by
  obtain ⟨j, hj⟩ := exists_cost h
  have hfail : m.step.failure = none := (stepCpu_begun (m := m.advance) h).2
  rw [hj, Nat.add_assoc, Nat.add_comm 1, iterate_succ, if_pos (by rw [hfail]; rfl), step_begun h]
  exact outcome_amid h (Nat.le_refl 1) hj.symm n

theorem activities_begun (h : m.begun = some w) (n : Nat) :
    activities (w.cost.toNat + n) m = w.act :: activities n (m.perform w) := by
  obtain ⟨j, hj⟩ := exists_cost h
  rw [hj, Nat.add_assoc, Nat.add_comm 1, activities, h, step_begun h,
    activities_amid h (Nat.le_refl 1) hj.symm n]
  rfl

/-- The steps behind the one that begins work come to its end. -/
theorem course_perform (h : m.begun = some w) :
    ∃ H, Course m.stepCpu.machine H (m.perform w) := by
  have key {i : Nat} (hi : 1 ≤ i) (hc : i ≤ w.cost.toNat) :
      ∃ H, Course m.stepCpu.machine H (m.amid w i) := by
    induction i, hi using Nat.le_induction with
    | base =>
      have hfirst : m.amid w 1 = { m.stepCpu.machine with cycles := m.cycles + 1 } := by
        rw [← step_begun h, step, (stepCpu_begun (m := m.advance) h).1, (stepCpu_begun h).1]
        rfl
      rw [hfirst]
      exact ⟨_, .handled .start (.cycles _)⟩
    | succ i hi ih =>
      obtain ⟨H, hcourse⟩ := ih (Nat.le_of_succ_le hc)
      rw [← (begun_amid h hi hc).2.2]
      exact ⟨_, .step (.handled hcourse (.cycles _))⟩
  rw [← amid_cost]
  exact key (begun_cost h).1 (Nat.le_refl _)

/-! ### All of them -/

/-- Works that follow one another are what the steps of the processor come to. -/
theorem Performs.outcome_iterate (h : Performs m acts n m') :
    (iterate step keep n m seen).outcome = (m', none) := by
  induction h generalizing seen with
  | done m => rfl
  | next hw _ ih => exact (outcome_begun hw _).trans (@ih seen)

theorem Performs.activities_eq (h : Performs m acts n m') : activities n m = acts := by
  induction h with
  | done m => rfl
  | next hw _ ih => rw [activities_begun hw, ih]

end Machine

end Dmg
