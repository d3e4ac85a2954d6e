import Dmg.Probe
import Dmg.Proofs.Lines
import Dmg.Proofs.Step
import Dmg.Proofs.Tables
import Mathlib.Data.List.Chain

/-! # Courses of a processor

A course is a run of any length: the processor takes steps, and between two of them everything else
may change (`Machine.Handled`). It is recorded as the `Milestone`s of each step: which activities
began to take effect, and which used up the last of their cycles. `Machine.Reachable` holds of what a
processor comes to from its making.

Main results: work occupies the processor for as many steps as it costs (`Course.occupied`), one
activity at a time (`Course.sequential`), and no bit of the interrupt registers is ever set that
stands for no line (`Reachable.narrow`). -/

namespace Dmg

/-- What a step can record of an activity. -/
inductive Milestone where
  /-- It took effect. -/
  | began (act : Activity)
  /-- It used up the last of its cycles. -/
  | ended (act : Activity)
deriving DecidableEq

namespace Machine
variable {π : Type} [HostDevice π] {m m' m₀ : Machine π} {H : List (List Milestone)}

/-- What the next step records. -/
def milestones (m : Machine π) : List Milestone :=
  match m.begun with
  | some w => .began w.act :: if w.cost > 1 then [] else [.ended w.act]
  | none => match m.cpu.phase with
    | .busy act n => if n > 1 then [] else [.ended act]
    | _ => []

/-- What may happen to a machine between two steps. The processor's own state is out of reach but for
its registers; cycles of the devices, writes from the host and a change of bus are made of these. -/
inductive Handled (m : Machine π) : Machine π → Prop
  | regs (r : Registers) : Handled m { m with cpu := { m.cpu with regs := r } }
  | request (l : Line) : Handled m (m.request l)
  | clear (l : Line) : Handled m (m.clear l)
  | irq (a : UInt16) (v : UInt8) :
    Handled m { m with bus := { m.bus with irq := m.bus.irq.write a v } }
  | devices (ds : List (Device π)) : Handled m { m with bus := { m.bus with devices := ds } }
  | cycles (n : UInt64) : Handled m { m with cycles := n }

/-- `Course m₀ H m`: the machine comes from `m₀` to `m` in `H.length` steps, which recorded `H`. -/
inductive Course (m₀ : Machine π) : List (List Milestone) → Machine π → Prop
  | start : Course m₀ [] m₀
  | handled {H : List (List Milestone)} {m m' : Machine π} :
    Course m₀ H m → Handled m m' → Course m₀ H m'
  | step {H : List (List Milestone)} {m : Machine π} :
    Course m₀ H m → Course m₀ (H ++ [m.milestones]) m.stepCpu.machine

/-- A machine with a new processor, on any bus. -/
def Fresh (m : Machine π) : Prop := m.cpu = {} ∧ m.bus.irq = {}

/-- A machine whose processor has come some way from its making. -/
def Reachable (m : Machine π) : Prop := ∃ m₀ H, Fresh m₀ ∧ Course m₀ H m

omit [HostDevice π] in
theorem Handled.cpu (h : Handled m m') : m'.cpu = { m.cpu with regs := m'.cpu.regs } := by
  cases h <;> rfl

theorem Course.trans {H' : List (List Milestone)} (h : Course m₀ H m)
    (h' : Course m H' m') : Course m₀ (H ++ H') m' := by
  induction h' with
  | start => rwa [List.append_nil]
  | handled _ hh ih => exact .handled ih hh
  | step _ ih =>
    rw [← List.append_assoc]
    exact .step ih

theorem Course.phase_of_nil (h : Course m₀ [] m) : m.cpu.phase = m₀.cpu.phase := by
  generalize hH : ([] : List (List Milestone)) = H at h
  induction h with
  | start => rfl
  | handled _ hh ih => rw [hh.cpu]; exact ih hH
  | step => exact absurd hH.symm (by simp)

/-! ### What is begun -/

theorem begun_cost {w : Work} (h : m.begun = some w) : 1 ≤ w.cost.toNat ∧ w.cost.toNat ≤ 6 := by
  rcases work_eq_ok.1 (begun_eq_some.1 h).2 with ⟨l, -, rfl⟩ | ⟨-, i, hi, rfl⟩
  · exact ⟨Nat.le_of_ble_eq_true rfl, Nat.le_of_ble_eq_true rfl⟩
  · exact Cpu.execute_cost (Cpu.fetch_listed hi)

theorem begun_phase {w : Work} (h : m.begun = some w) :
    w.cpu.phase = .ready ∨ w.cpu.phase = .halted ∧ w.cost = 1 := by
  rcases work_eq_ok.1 (begun_eq_some.1 h).2 with ⟨l, -, rfl⟩ | ⟨-, i, hi, rfl⟩
  · exact .inl rfl
  · exact Cpu.execute_phase (Cpu.fetch_listed hi) rfl

theorem begun_ready {w : Work} (h : m.begun = some w) (hc : w.cost > 1) : w.cpu.phase = .ready := by
  rcases begun_phase h with hp | ⟨-, h1⟩
  · exact hp
  · rw [h1] at hc; exact absurd hc (by decide)

theorem phase_stepCpu_begun {w : Work} (h : m.begun = some w) : m.stepCpu.machine.cpu.phase =
    if w.cost > 1 then .busy w.act (w.cost - 1) else w.cpu.phase := by
  rw [(stepCpu_begun h).1]
  by_cases hc : w.cost > 1
  · simp [Cpu.settle, hc, begun_ready h hc]
  · simp [Cpu.settle, hc, Cpu.phase_complete]

/-! ### What is recorded -/

theorem milestones_begun {w : Work} (h : m.begun = some w) :
    m.milestones = .began w.act :: if w.cost > 1 then [] else [.ended w.act] := by
  simp [milestones, h]

theorem milestones_busy {act : Activity} {n : UInt8} (h : m.cpu.phase = .busy act n) :
    m.milestones = if n > 1 then [] else [.ended act] := by
  simp [milestones, begun_of_busy h, h]

theorem milestones_idle (h : m.cpu.phase = .halted) (ha : m.bus.irq.active = 0) :
    m.milestones = [] := by
  simp [milestones, begun_of_idle h ha, h]

theorem milestones_refused (hf : m.Free) {e : IllegalOpcode} (h : m.work = .error e) :
    m.milestones = [] := by
  rcases hf with hp | ⟨hp, -⟩ <;> simp [milestones, begun_of_refused h, hp]

theorem begun_of_mem {act : Activity} (h : .began act ∈ m.milestones) :
    ∃ w, m.begun = some w ∧ w.act = act := by
  cases hb : m.begun with
  | none =>
    simp only [milestones, hb] at h
    split at h
    · split at h <;> simp at h
    · simp at h
  | some w =>
    rw [milestones_begun hb] at h
    refine ⟨w, rfl, ?_⟩
    split at h <;> simp_all

/-! ### The countdown -/

end Machine

theorem one_lt_ofNat {k : Nat} (hk : k < 256) : (.ofNat k : UInt8) > 1 ↔ 1 < k := by
  rw [gt_iff_lt, UInt8.lt_iff_toNat_lt, UInt8.toNat_ofNat', Nat.mod_eq_of_lt hk]
  rfl

theorem Cpu.phase_countDown (cpu : Cpu) (act : Activity) {k : Nat} (hk : k < 255) :
    (cpu.countDown act (.ofNat (k + 1))).phase = if 0 < k then .busy act (.ofNat k) else .ready := by
  have h1 := one_lt_ofNat (k := k + 1) (by omega)
  by_cases h : 0 < k
  · have hsub : (.ofNat (k + 1) - 1 : UInt8) = .ofNat k := by
      apply UInt8.toNat_inj.1
      rw [UInt8.toNat_sub, UInt8.toNat_ofNat', UInt8.toNat_ofNat']
      show (256 - 1 + _) % 256 = _
      omega
    rw [countDown, if_pos (h1.2 (by omega)), if_pos h, hsub]
  · rw [countDown, if_neg (mt h1.1 (by omega)), if_neg h, phase_complete]

namespace Machine
variable {π : Type} [HostDevice π] {m m₀ : Machine π} {H : List (List Milestone)}

/-- A busy processor is busy with the same activity until the last of its cycles, on which it
becomes ready. -/
theorem Course.countdown {act : Activity} {n : Nat} (hn : 0 < n) (hn' : n < 256)
    (hp : m₀.cpu.phase = .busy act (.ofNat n)) (h : Course m₀ H m) (hH : H.length ≤ n) :
    m.cpu.phase = (if H.length < n then .busy act (.ofNat (n - H.length)) else .ready) ∧
    H.flatten = if H.length < n then [] else [.ended act] := by
  induction h with
  | start => simpa [hn] using hp
  | handled _ hh ih =>
    rw [hh.cpu]
    exact ih hH
  | @step H m _ ih =>
    rw [List.length_append, List.length_singleton] at hH ⊢
    obtain ⟨hphase, hflat⟩ := ih (by omega)
    -- the step counts down from `k + 1`
    obtain ⟨k, hk⟩ : ∃ k, n = H.length + (k + 1) := ⟨n - H.length - 1, by omega⟩
    rw [if_pos (by omega), show n - H.length = k + 1 by omega] at hphase
    rw [if_pos (by omega)] at hflat
    have hiff : H.length + 1 < n ↔ 0 < k := by omega
    have h1 : (.ofNat (k + 1) : UInt8) > 1 ↔ 0 < k := by
      rw [one_lt_ofNat (by omega)]; omega
    rw [stepCpu_busy hphase, Cpu.phase_countDown _ _ (by omega), List.flatten_append, hflat,
      List.flatten_singleton, List.nil_append, milestones_busy hphase]
    simp only [hiff, h1, show n - (H.length + 1) = k by omega, and_self]

/-- Work occupies the processor for as many steps as it costs, its first one among them. -/
theorem Course.occupied {w : Work} (hw : m₀.begun = some w) (h : Course m₀.stepCpu.machine H m)
    (hH : H.length < w.cost.toNat) :
    m.cpu.phase = (if H.length + 1 < w.cost.toNat
      then .busy w.act (.ofNat (w.cost.toNat - (H.length + 1))) else w.cpu.phase) ∧
    m₀.milestones ++ H.flatten =
      .began w.act :: if H.length + 1 < w.cost.toNat then [] else [.ended w.act] := by
  have hle := (begun_cost hw).2
  have h1 : w.cost > 1 ↔ 1 < w.cost.toNat := UInt8.lt_iff_toNat_lt
  have hphase := phase_stepCpu_begun hw
  rw [milestones_begun hw]
  by_cases hc : w.cost > 1
  · have hpos := h1.1 hc
    have hsub : w.cost - 1 = .ofNat (w.cost.toNat - 1) := by
      apply UInt8.toNat_inj.1
      rw [UInt8.toNat_sub_of_le _ _ (UInt8.le_of_lt hc), UInt8.toNat_ofNat',
        Nat.mod_eq_of_lt (by omega)]
      rfl
    rw [if_pos hc, hsub] at hphase
    obtain ⟨hm, hflat⟩ := h.countdown (by omega) (by omega) hphase (by omega)
    have hiff : H.length < w.cost.toNat - 1 ↔ H.length + 1 < w.cost.toNat := by omega
    rw [hm, hflat, begun_ready hw hc, if_pos hc]
    simp only [hiff, show w.cost.toNat - 1 - H.length = w.cost.toNat - (H.length + 1) by omega]
    exact ⟨trivial, rfl⟩
  · have hc' : ¬ 1 < w.cost.toNat := mt h1.2 hc
    obtain rfl : H = [] := List.length_eq_zero_iff.1 (by omega)
    rw [if_neg hc] at hphase ⊢
    rw [List.length_nil, if_neg (by omega), if_neg (by omega), h.phase_of_nil]
    exact ⟨hphase, rfl⟩

/-! ### One activity at a time -/

end Machine

/-- Nothing comes between the beginning of an activity and its end. -/
def Sequential (T : List Milestone) : Prop :=
  T.IsChain fun x y => ∀ act, y = .ended act → x = .began act

theorem Sequential.append {T T' : List Milestone} (h : Sequential T) (h' : Sequential T')
    (hT : ∀ act, T'.head? = some (.ended act) → T.getLast? = some (.began act)) :
    Sequential (T ++ T') := by
  refine List.isChain_append.2 ⟨h, h', fun x hx y hy act hact => ?_⟩
  subst hact
  exact Option.some.inj ((Option.mem_def.1 hx).symm.trans (hT act hy))

namespace Machine
variable {π : Type} [HostDevice π] {m m₀ : Machine π} {H : List (List Milestone)}

/-- What a busy processor is busy with is what it began last. -/
theorem Course.sequential_and (h₀ : ∀ act n, m₀.cpu.phase ≠ .busy act n) (h : Course m₀ H m) :
    Sequential H.flatten ∧
      ∀ act n, m.cpu.phase = .busy act n → H.flatten.getLast? = some (.began act) := by
  induction h with
  | start => exact ⟨.nil, fun act n hp => absurd hp (h₀ act n)⟩
  | handled _ hh ih =>
    rw [hh.cpu]
    exact ih
  | @step H m _ ih =>
    obtain ⟨hs, hlast⟩ := ih
    rw [List.flatten_append, List.flatten_singleton]
    rcases m.step_cases with ⟨act, n, hp⟩ | ⟨hp, ha⟩ | ⟨w, hw⟩ | ⟨hf, e, he⟩
    · rw [stepCpu_busy hp, milestones_busy hp, Cpu.countDown]
      split
      · rw [List.append_nil]
        refine ⟨hs, fun act' n' hp' => ?_⟩
        cases hp'
        exact hlast act n hp
      · refine ⟨hs.append (.singleton _) fun act' h => ?_, fun act' n' hp' => ?_⟩
        · cases h
          exact hlast act n hp
        · rw [Cpu.phase_complete] at hp'
          cases hp'
    · rw [stepCpu_idle hp ha, milestones_idle hp ha, List.append_nil]
      exact ⟨hs, hlast⟩
    · rw [phase_stepCpu_begun hw, milestones_begun hw]
      split
      · refine ⟨hs.append (.singleton _) (fun _ h => by simp at h), fun act' n' hp' => ?_⟩
        cases hp'
        simp
      · refine ⟨hs.append ?_ (fun _ h => by simp at h), fun act' n' hp' => ?_⟩
        · exact List.isChain_pair.2 fun act h => by cases h; rfl
        · rcases begun_phase hw with hp | ⟨hp, -⟩ <;> rw [hp] at hp' <;> cases hp'
    · rw [(stepCpu_refused hf he).1, milestones_refused hf he, List.append_nil]
      refine ⟨hs, fun act n hp' => ?_⟩
      cases hp'

theorem Course.sequential (h₀ : m₀.Fresh) (h : Course m₀ H m) : Sequential H.flatten :=
  (h.sequential_and fun act n => by rw [h₀.1]; nofun).1

end Machine

/-! ### The interrupt registers -/

namespace Bus
variable {π : Type} [HostDevice π] {bus : Bus π}

theorem write_narrow (h : bus.irq.Narrow) (a : UInt16) (v : UInt8) :
    (bus.write a v).irq.Narrow := by
  simp only [write]
  split
  · exact h.write a v
  · exact h

theorem store_narrow (h : bus.irq.Narrow) (ws : List Write) : (bus.store ws).irq.Narrow := by
  induction ws generalizing bus with
  | nil => exact h
  | cons w ws ih => exact ih (write_narrow h w.address w.value)

end Bus

namespace Machine
variable {π : Type} [HostDevice π] {m m₀ : Machine π} {H : List (List Milestone)}

theorem stepCpu_narrow (h : m.bus.irq.Narrow) : m.stepCpu.machine.bus.irq.Narrow := by
  rw [stepCpu_bus]
  split
  · rename_i w _
    refine Bus.store_narrow ?_ w.writes
    cases w.act with
    | dispatch l => exact h.clear l
    | execute i => exact h
  · exact h

theorem Reachable.narrow (h : m.Reachable) : m.bus.irq.Narrow := by
  obtain ⟨m₀, H, ⟨-, h₀⟩, hc⟩ := h
  induction hc with
  | start => rw [h₀]; exact ⟨by decide, by decide⟩
  | handled _ hh ih =>
    cases hh with
    | request l => exact ih.request l
    | clear l => exact ih.clear l
    | irq a v => exact ih.write a v
    | _ => exact ih
  | step _ ih => exact stepCpu_narrow ih

/-- A new processor on a bus that reads as `code` from address zero on. -/
def ofProgram (code : List UInt8) : Machine Probe :=
  { bus := { devices := .interrupts :: code.zipIdx.map fun b => .host (.fixed b.2.toUInt16 b.1) } }

theorem fresh_ofProgram (code : List UInt8) : (ofProgram code).Fresh := ⟨rfl, rfl⟩

end Machine

end Dmg
