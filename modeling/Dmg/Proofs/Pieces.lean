import Dmg.Proofs.Course
import Dmg.Proofs.Moments
import Mathlib.Algebra.Group.Nat.Defs

/-! # Runs taken in pieces

A run that stops on the way and is taken up again is the run that did not stop (`Run.andThen`,
`Machine.runUntil_andThen`, `Machine.frames_add`): the machine holds all that a run depends on, and a
run that fails fails alike however it is cut. The moments that a run went through tell the cycle that it
stops at and the requests of the vertical blank (`Machine.frames_passes`). -/

namespace Dmg

namespace Machine
variable {π : Type} [HostDevice π] {m : Machine π} {keep : Event → Bool} {seen : Array Event}

/-! ### Runs to a cycle -/

theorem runUntil_add {n : Nat} (h : m.cycles.toNat + n < 2 ^ 64) :
    m.runUntil keep (m.cycles + .ofNat n) seen = iterate cycle keep n m seen := by
  rw [runUntil, toNat_add_ofNat h, Nat.add_sub_cancel_left]

/-- A run to a cycle stops there, or on the way at the cycle that failed. -/
theorem cycles_runUntil (target : UInt64) (r : Run π) (hr : runUntil keep target m seen = r) :
    (r.failure = none → r.machine.cycles.toNat = max m.cycles.toNat target.toNat) ∧
      (r.failure ≠ none → m.cycles < r.machine.cycles ∧ r.machine.cycles ≤ target) := by
  have hfits := Moment.upTo_fits m.cycles target
  have hcount := Moment.count_upTo m.cycles target
  rw [runUntil_eq_follow] at hr
  rcases follow_passes _ r hr with ⟨hf, hpass⟩ | ⟨hf, T, m', hcut, hpass, hout⟩
  · refine ⟨fun _ => ?_, fun h => absurd hf h⟩
    rw [hpass.cycles, toNat_add_ofNat hfits]
    omega
  · refine ⟨fun h => absurd h hf, fun _ => ?_⟩
    have hcycles := cycles_stopped hcut hpass hout hfits
    have hle := hcut.sublist.count_le Moment.cycle
    rw [List.count_append, List.count_singleton_self] at hle
    rw [UInt64.lt_iff_toNat_lt, UInt64.le_iff_toNat_le, hcycles]
    omega

/-- A run that is cut at `t₁` and goes on to `t₂` is a run to `t₂`. -/
theorem runUntil_andThen {t₁ t₂ : UInt64} (h : t₁ ≤ t₂) :
    runUntil keep t₂ m seen = (runUntil keep t₁ m seen).andThen (runUntil keep t₂) := by
  have hle := UInt64.le_iff_toNat_le.1 h
  have hsplit : t₂.toNat - m.cycles.toNat =
      t₁.toNat - m.cycles.toNat + (t₂.toNat - max m.cycles.toNat t₁.toNat) := by omega
  obtain ⟨r, hr⟩ : ∃ r, runUntil keep t₁ m seen = r := ⟨_, rfl⟩
  have hcut : runUntil keep t₂ m seen =
      r.andThen (iterate cycle keep (t₂.toNat - max m.cycles.toNat t₁.toNat)) := by
    rw [runUntil, hsplit, iterate_add, ← hr, runUntil]
  rw [hcut, hr]
  cases hf : r.failure with
  | some e => rw [Run.andThen_of_some hf, Run.andThen_of_some hf]
  | none =>
    rw [Run.andThen_of_none hf, Run.andThen_of_none hf, runUntil,
      (cycles_runUntil t₁ r hr).1 hf]

/-! ### Frames -/

theorem frames_add (a b : Nat) :
    frames keep (a + b) m seen = (frames keep a m seen).andThen (frames keep b) := by
  induction a generalizing m seen with
  | zero =>
    rw [Nat.zero_add]
    rfl
  | succ a ih =>
    have hih : (fun (m : Machine π) seen => frames keep (a + b) (m.request .vblank) seen) =
        fun m seen => (frames keep a (m.request .vblank) seen).andThen (frames keep b) :=
      funext fun _ => funext fun _ => ih
    rw [Nat.succ_add, frames_succ, frames_succ, hih, Run.andThen_assoc]

/-- What a frame goes through. -/
def frame : List Moment := .replicate 17556 .cycle ++ [.request .vblank]

theorem count_frame : frame.count .cycle = 17556 := by
  rw [frame, List.count_append, List.count_replicate_self]
  rfl

theorem count_frames (n : Nat) : (List.replicate n frame).flatten.count .cycle = n * 17556 := by
  rw [List.count_flatten, List.map_replicate, count_frame, List.sum_replicate_nat]

/-- As long as the counter does not wrap, the moments of frames are those of single frames. -/
theorem moments_frames {c : UInt64} {n : Nat} (h : c.toNat + n * 17556 < 2 ^ 64) :
    Moment.frames n c = (List.replicate n frame).flatten := by
  induction n generalizing c with
  | zero => rfl
  | succ n ih =>
    have hroom : c.toNat + 17556 < 2 ^ 64 := by omega
    have hfirst : Moment.upTo c (c + frameCycles) = .replicate 17556 .cycle := Moment.upTo_add hroom
    have hnext : (c + .ofNat (List.replicate 17556 Moment.cycle).length).toNat = c.toNat + 17556 := by
      rw [List.length_replicate]
      exact toNat_add_ofNat hroom
    rw [Moment.frames, hfirst, ih (by omega), List.replicate_succ (n := n), List.flatten_cons, frame,
      List.append_assoc, List.singleton_append]

/-- A list that goes on with `a` somewhere in some blocks of `k` times `a` and a `b` has some blocks
complete, and of the next one only `a`. -/
theorem prefix_blocks {α : Type} {a b : α} (hne : a ≠ b) {k n : Nat} {T : List α}
    (h : T ++ [a] <+: (List.replicate n (.replicate k a ++ [b])).flatten) :
    ∃ i < n, ∃ j < k, T = (List.replicate i (.replicate k a ++ [b])).flatten ++ .replicate j a := by
  induction n generalizing T with
  | zero => simp at h
  | succ n ih =>
    rw [List.replicate_succ, List.flatten_cons] at h
    by_cases hT : T.length < k + 1
    · have hblock : T ++ [a] <+: .replicate k a ++ [b] :=
        List.prefix_of_prefix_length_le h (List.prefix_append ..) (by simp; omega)
      have hfirst : T ++ [a] <+: .replicate k a := by
        refine (List.prefix_concat_iff.1 hblock).resolve_left fun heq => ?_
        exact hne (List.singleton_inj.1 (List.append_inj_right' heq rfl))
      obtain ⟨hle, -⟩ := List.prefix_replicate_iff.1 hfirst
      obtain ⟨-, heq⟩ := List.prefix_replicate_iff.1 ((List.prefix_append T [a]).trans hfirst)
      rw [List.length_append] at hle
      exact ⟨0, Nat.succ_pos n, T.length, hle, heq⟩
    · obtain ⟨T', rfl⟩ : .replicate k a ++ [b] <+: T :=
        List.prefix_of_prefix_length_le (List.prefix_append ..) ((List.prefix_append T [a]).trans h)
          (by simpa using Nat.le_of_not_lt hT)
      rw [List.append_assoc, List.prefix_append_right_inj] at h
      obtain ⟨i, hi, j, hj, rfl⟩ := ih h
      refine ⟨i + 1, Nat.succ_lt_succ hi, j, hj, ?_⟩
      rw [List.replicate_succ, List.flatten_cons, List.append_assoc _ (List.flatten _)]

/-- Each frame that is completed ends with its request, and the one that fails makes none. -/
theorem frames_passes (n : Nat) (r : Run π) (h : m.cycles.toNat + n * 17556 < 2 ^ 64)
    (hr : frames keep n m seen = r) :
    r.failure = none ∧ Passes m (List.replicate n frame).flatten r.machine ∨
      r.failure ≠ none ∧ ∃ k < n, ∃ j < 17556, ∃ m',
        Passes m ((List.replicate k frame).flatten ++ .replicate j .cycle) m' ∧
        m'.cycle.outcome = r.outcome := by
  rw [frames_eq_follow, moments_frames h] at hr
  rcases follow_passes _ r hr with hall | ⟨hf, T, m', hcut, hpass, hout⟩
  · exact .inl hall
  · obtain ⟨k, hk, j, hj, rfl⟩ := prefix_blocks (by decide) hcut
    exact .inr ⟨hf, k, hk, j, hj, m', hpass, hout⟩

end Machine

/-! ### Runs and their records -/

namespace Run
variable {π : Type} {f : Machine π → Array Event → Run π}

/-- A run without the records of the log. -/
def unlogged (r : Run π) : Run π := { r with events := r.events.filter (·.level?.isNone) }

/-- What is left outside the log does not depend on the records that came before. -/
def Quiet (f : Machine π → Array Event → Run π) : Prop :=
  ∀ m seen seen', seen.filter (·.level?.isNone) = seen'.filter (·.level?.isNone) →
    (f m seen).unlogged = (f m seen').unlogged

theorem Quiet.unlogged_andThen (h : Quiet f) {r r' : Run π} (hr : r.unlogged = r'.unlogged) :
    (r.andThen f).unlogged = (r'.andThen f).unlogged := by
  obtain ⟨hm, hev, hf⟩ : r.machine = r'.machine ∧
      r.events.filter (·.level?.isNone) = r'.events.filter (·.level?.isNone) ∧
      r.failure = r'.failure := by
    simpa only [unlogged, Run.mk.injEq] using hr
  cases hn : r.failure with
  | none =>
    rw [andThen_of_none hn, andThen_of_none (hf.symm.trans hn), hm]
    exact h _ _ _ hev
  | some e => rw [andThen_of_some hn, andThen_of_some (hf.symm.trans hn), hr]

end Run

namespace Machine
variable {π : Type} [HostDevice π] {m : Machine π} {keep : Event → Bool} {seen : Array Event}

theorem quiet_frames (n : Nat) : Run.Quiet (frames keep n : Machine π → Array Event → Run π) := by
  intro m seen seen' h
  rw [frames_eq_follow, frames_eq_follow]
  obtain ⟨T, hT⟩ : ∃ T, Moment.frames n m.cycles = T := ⟨_, rfl⟩
  obtain ⟨hm, hf⟩ : (follow Moment.run keep T m seen).machine = (follow Moment.run keep T m seen').machine ∧
      (follow Moment.run keep T m seen).failure = (follow Moment.run keep T m seen').failure :=
    Prod.mk.inj (outcome_follow T)
  rw [hT, Run.unlogged, Run.unlogged, hm, hf, events_follow, events_follow,
    Array.filter_append (Array.size_append ..), Array.filter_append (Array.size_append ..), h]

/-- The record of the frames is one of the log. -/
theorem unlogged_runFrames (n : Nat) :
    (runFrames keep n m seen).unlogged = (frames keep n m seen).unlogged := by
  have hlog (c : UInt64) : (#[Event.framesRun n c].filter keep).filter (·.level?.isNone) = #[] := by
    cases h : keep (.framesRun n c) <;> simp [h, Event.level?]
  unfold runFrames
  dsimp only
  split
  · rw [Run.unlogged, Array.filter_append (Array.size_append ..), hlog, Array.append_empty]
    rfl
  · rfl

/-- A run of frames is cut like its frames. -/
theorem unlogged_runFrames_add (a b : Nat) : (runFrames keep (a + b) m seen).unlogged =
    ((runFrames keep a m seen).andThen (runFrames keep b)).unlogged := by
  have hfirst : (runFrames keep a m seen).unlogged = (frames keep a m seen).unlogged :=
    unlogged_runFrames a
  have hquiet : Run.Quiet (runFrames keep b : Machine π → Array Event → Run π) := by
    intro m seen seen' h
    rw [unlogged_runFrames, unlogged_runFrames]
    exact quiet_frames b m seen seen' h
  rw [hquiet.unlogged_andThen hfirst, unlogged_runFrames, frames_add]
  cases hf : (frames keep a m seen).failure with
  | none => rw [Run.andThen_of_none hf, Run.andThen_of_none hf, unlogged_runFrames]
  | some e => rw [Run.andThen_of_some hf, Run.andThen_of_some hf]

/-! ### All of it -/

/-- A run is the same however it is cut, and stops at its target or at the cycle that failed. Frames
are runs of 17556 cycles, each completed one ending with its request. -/
theorem runs_in_pieces (m : Machine π) (keep : Event → Bool) (seen : Array Event) :
    (∀ t₁ t₂, t₁ ≤ t₂ →
      m.runUntil keep t₂ seen = (m.runUntil keep t₁ seen).andThen (runUntil keep t₂)) ∧
    (∀ t, let r := m.runUntil keep t seen
      (r.failure = none → r.machine.cycles.toNat = max m.cycles.toNat t.toNat) ∧
      (r.failure ≠ none → m.cycles < r.machine.cycles ∧ r.machine.cycles ≤ t)) ∧
    (∀ a b, (m.runFrames keep (a + b) seen).unlogged =
      ((m.runFrames keep a seen).andThen (runFrames keep b)).unlogged) ∧
    ∀ n, m.cycles.toNat + n * 17556 < 2 ^ 64 → let r := m.runFrames keep n seen
      (r.failure = none → r.machine.cycles.toNat = m.cycles.toNat + n * 17556 ∧
        Passes m (List.replicate n frame).flatten r.machine) ∧
      (r.failure ≠ none → ∃ k < n, ∃ j < 17556, ∃ m',
        Passes m ((List.replicate k frame).flatten ++ .replicate j .cycle) m' ∧
        m'.cycle.outcome = r.outcome) := by
  refine ⟨fun t₁ t₂ h => runUntil_andThen h, fun t => cycles_runUntil t _ rfl,
    unlogged_runFrames_add, fun n h => ?_⟩
  obtain ⟨r, hr⟩ : ∃ r, frames keep n m seen = r := ⟨_, rfl⟩
  have hout : (m.runFrames keep n seen).outcome = r.outcome := by
    rw [← hr]
    exact outcome_runFrames n
  obtain ⟨hm, hf⟩ := Prod.mk.inj hout
  dsimp only
  rw [hm, hf, hout]
  rcases frames_passes n r h hr with ⟨hnone, hpass⟩ | ⟨hsome, hstop⟩
  · refine ⟨fun _ => ⟨?_, hpass⟩, fun h => absurd hnone h⟩
    rw [hpass.cycles, count_frames]
    exact toNat_add_ofNat h
  · exact ⟨fun h => absurd h hsome, fun _ => hstop⟩

/-- NOP and no opcode after it: cut between the two, the run fails on the second cycle all the same,
and so does the first of three frames. -/
theorem runs_in_pieces_illegal : let m := ofProgram [0x00, 0xDD]
    m.runUntil (fun _ => true) 9 #[] =
      (m.runUntil (fun _ => true) 1 #[]).andThen (runUntil (fun _ => true) 9) ∧
    (m.runUntil (fun _ => true) 9 #[]).failure = some ⟨1, 0xDD⟩ ∧
    (m.runUntil (fun _ => true) 9 #[]).machine.cycles = 2 ∧
    ∃ k < 3, ∃ j < 17556, ∃ m',
      Passes m ((List.replicate k frame).flatten ++ .replicate j .cycle) m' ∧
      m'.cycle.outcome = (m.runFrames (fun _ => true) 3 #[]).outcome := by
  obtain ⟨hcut, -, -, hframes⟩ :=
    runs_in_pieces (ofProgram [0x00, 0xDD]) (fun _ => true) #[]
  exact ⟨hcut 1 9 (by decide), rfl, rfl, (hframes 3 (by decide)).2 nofun⟩

end Machine

end Dmg
