import Dmg.Proofs.Course
import Mathlib.Data.List.Induction

/-! # The interrupt enable over a course

IME and the EI that waits for it are a function of what happened to the processor: each milestone
turns the two flags in one way (`Enabling.turn`), and over a whole course they are the fold of its
milestones (`Course.enabling`). -/

namespace Dmg

/-- The interrupt enable and the EI that waits to set it. -/
structure Enabling where
  ime : Bool
  armed : Bool
deriving DecidableEq

def Cpu.enabling (cpu : Cpu) : Enabling := ⟨cpu.ime, cpu.eiArmed⟩

namespace Enabling

def off : Enabling := ⟨false, false⟩

/-- What a milestone makes of the flags. -/
def turn (s : Enabling) : Milestone → Enabling
  | .began (.dispatch _) => off
  | .began (.execute i) => match i.op with
    | .di => off
    | .ei => { s with armed := true }
    | .reti => { s with ime := true }
    | _ => s
  | .ended (.execute i) => if s.armed ∧ i.op ≠ .ei then ⟨true, false⟩ else s
  | .ended (.dispatch _) => s

end Enabling

namespace Cpu

theorem enabling_complete (cpu : Cpu) (act : Activity) :
    (cpu.complete act).enabling = cpu.enabling.turn (.ended act) := by
  cases act with
  | dispatch l => rfl
  | execute i =>
    by_cases h : cpu.eiArmed ∧ i.op ≠ .ei <;> simp [complete, enabling, Enabling.turn, h]

theorem enabling_execute (cpu : Cpu) (i : Instruction) (mem : View) :
    (cpu.execute i mem).cpu.enabling = cpu.enabling.turn (.began (.execute i)) := by
  simp only [execute, enabling, Enabling.turn]
  cases i.op <;> rfl

end Cpu

namespace Machine
variable {π : Type} [HostDevice π] {m m₀ : Machine π} {H : List (List Milestone)}

theorem enabling_begun {w : Work} (h : m.begun = some w) :
    w.cpu.enabling = m.cpu.enabling.turn (.began w.act) := by
  rcases work_eq_ok.1 (begun_eq_some.1 h).2 with ⟨l, -, rfl⟩ | ⟨-, i, -, rfl⟩
  · rfl
  · exact Cpu.enabling_execute _ i _

theorem enabling_stepCpu (m : Machine π) :
    m.stepCpu.machine.cpu.enabling = m.milestones.foldl .turn m.cpu.enabling := by
  rcases m.step_cases with ⟨act, n, h⟩ | ⟨h, ha⟩ | ⟨w, h⟩ | ⟨hf, e, h⟩
  · rw [stepCpu_busy h, milestones_busy h, Cpu.countDown]
    split
    · rfl
    · exact Cpu.enabling_complete _ act
  · rw [stepCpu_idle h ha, milestones_idle h ha]
    rfl
  · rw [(stepCpu_begun h).1, milestones_begun h, List.foldl_cons, ← enabling_begun h, Cpu.settle]
    by_cases hc : w.cost > 1
    · rw [if_pos ⟨hc, begun_ready h hc⟩, if_pos hc]
      rfl
    · rw [if_neg (fun h => hc h.1), if_neg hc]
      exact Cpu.enabling_complete _ _
  · rw [(stepCpu_refused hf h).1, milestones_refused hf h]
    rfl

theorem Course.enabling (h : Course m₀ H m) :
    m.cpu.enabling = H.flatten.foldl .turn m₀.cpu.enabling := by
  induction h with
  | start => rfl
  | handled _ hh ih => rw [hh.cpu]; exact ih
  | step _ ih =>
    rw [List.flatten_append, List.flatten_singleton, List.foldl_append, ← ih]
    exact enabling_stepCpu _

theorem Course.enabling_stepCpu (h : Course m₀.stepCpu.machine H m) :
    m.cpu.enabling = (m₀.milestones ++ H.flatten).foldl .turn m₀.cpu.enabling := by
  rw [h.enabling, Machine.enabling_stepCpu, List.foldl_append]

end Machine

/-! ### What turns interrupts on -/

/-- DI and a dispatch turn interrupts off. -/
def Milestone.Disables : Milestone → Prop
  | .began (.dispatch _) => True
  | .began (.execute i) => i.op = .di
  | .ended _ => False

/-- An EI executed that no DI and no dispatch followed. -/
def Arms (T : List Milestone) : Prop :=
  ∃ A B i, T = A ++ .began (.execute i) :: B ∧ i.op = .ei ∧ ∀ x ∈ B, ¬ x.Disables

/-- RETI executed, or an instruction other than EI and DI completed after an EI, with no DI and no
dispatch in between. -/
def Grants (T : List Milestone) : Prop :=
  (∃ i, i.op = .reti ∧ .began (.execute i) ∈ T) ∨
  ∃ A B i, T = A ++ .ended (.execute i) :: B ∧ i.op ≠ .ei ∧ i.op ≠ .di ∧ Arms A

theorem Grants.append {T : List Milestone} (h : Grants T) (T' : List Milestone) :
    Grants (T ++ T') := by
  rcases h with ⟨i, ho, hi⟩ | ⟨A, B, i, rfl, he, hd, hA⟩
  · exact .inl ⟨i, ho, List.mem_append_left _ hi⟩
  · exact .inr ⟨A, B ++ T', i, by simp, he, hd, hA⟩

theorem Arms.append {T : List Milestone} (h : Arms T) {x : Milestone} (hx : ¬ x.Disables) :
    Arms (T ++ [x]) := by
  obtain ⟨A, B, i, rfl, ho, hB⟩ := h
  refine ⟨A, B ++ [x], i, by simp, ho, fun y hy => ?_⟩
  rcases List.mem_append.1 hy with hy | hy
  · exact hB y hy
  · rw [List.mem_singleton.1 hy]; exact hx

namespace Enabling
variable {T : List Milestone} {x : Milestone}

theorem turn_of_disables (s : Enabling) (hx : x.Disables) : s.turn x = off := by
  rcases x with (i | l) | act
  · simp only [turn, show i.op = .di from hx]
  · rfl
  · cases hx

theorem foldl_turn_of_disables (s : Enabling) (h : T.getLast? = some x) (hx : x.Disables) :
    T.foldl turn s = off := by
  obtain ⟨T', rfl⟩ := List.getLast?_eq_some_iff.1 h
  rw [List.foldl_append]
  exact turn_of_disables _ hx

/-- An instruction that ends with an EI waiting is not DI: it began just before, and DI would have
called the EI off. -/
theorem ne_di_of_armed {i : Instruction} (hT : Sequential (T ++ [.ended (.execute i)]))
    (ha : (T.foldl turn off).armed = true) : i.op ≠ .di := by
  intro ho
  cases hl : T.getLast? with
  | none =>
    rw [List.getLast?_eq_none_iff.1 hl] at ha
    cases ha
  | some y =>
    obtain rfl : y = .began (.execute i) := (List.isChain_append.1 hT).2.2 y hl _ rfl _ rfl
    rw [foldl_turn_of_disables off hl ho] at ha
    cases ha

/-- From both flags off, IME comes on by a grant alone, and an EI waits only if nothing has called it
off. -/
theorem foldl_turn_off (hT : Sequential T) :
    ((T.foldl turn off).ime = true → Grants T) ∧ ((T.foldl turn off).armed = true → Arms T) := by
  induction T using List.reverseRecOn with
  | nil => exact ⟨nofun, nofun⟩
  | append_singleton T x ih =>
    obtain ⟨hg, ha⟩ := ih (List.isChain_append.1 hT).1
    rw [List.foldl_append, List.foldl_cons, List.foldl_nil]
    by_cases hx : x.Disables
    · rw [turn_of_disables _ hx]
      exact ⟨nofun, nofun⟩
    have hg' := fun h => (hg h).append [x]
    have ha' := fun h => (ha h).append hx
    rcases x with (i | l) | i | l
    · simp only [turn]
      split
      · exact absurd ‹i.op = .di› hx
      · exact ⟨hg', fun _ => ⟨T, [], i, rfl, ‹_›, by simp⟩⟩
      · exact ⟨fun _ => .inl ⟨i, ‹_›, by simp⟩, ha'⟩
      · exact ⟨hg', ha'⟩
    · exact absurd trivial hx
    · simp only [turn]
      split
      · rename_i hc
        exact ⟨fun _ => .inr ⟨T, [], i, rfl, hc.2, ne_di_of_armed hT hc.1, ha hc.1⟩, nofun⟩
      · exact ⟨hg', ha'⟩
    · exact ⟨hg', ha'⟩

end Enabling

namespace Machine
variable {π : Type} [HostDevice π] {m m₀ : Machine π} {H : List (List Milestone)}
  {A B C T : List Milestone} {l : Line}

theorem ime_of_dispatch (h : .began (.dispatch l) ∈ m.milestones) : m.cpu.ime = true := by
  obtain ⟨w, hw, hact⟩ := begun_of_mem h
  rcases work_eq_ok.1 (begun_eq_some.1 hw).2 with ⟨l', hl, -⟩ | ⟨-, i, -, rfl⟩
  · by_contra hime
    simp [Cpu.pendingLine?, hime] at hl
  · cases hact

theorem eq_nil_of_milestones {act : Activity} (h : m.milestones = A ++ .began act :: B) :
    A = [] := by
  have hmem : .began act ∈ m.milestones := by rw [h]; simp
  obtain ⟨w, hw, -⟩ := begun_of_mem hmem
  rw [milestones_begun hw] at h
  cases A with
  | nil => rfl
  | cons x A =>
    rw [List.cons_append, List.cons.injEq] at h
    have htail : .began act ∈ if w.cost > 1 then [] else [Milestone.ended w.act] := by
      rw [h.2]; simp
    split at htail <;> simp at htail

/-- Wherever a course dispatches, what came before had left IME on. -/
theorem Course.ime_of_dispatch (h : Course m₀ H m) (hH : H.flatten = A ++ .began (.dispatch l) :: B) :
    (A.foldl .turn m₀.cpu.enabling).ime = true := by
  induction h generalizing B with
  | start => simp at hH
  | handled _ _ ih => exact ih hH
  | @step H m hc ih =>
    rw [List.flatten_append, List.flatten_singleton] at hH
    have hin : ∀ C, A = H.flatten ++ C → m.milestones = C ++ .began (.dispatch l) :: B →
        (A.foldl .turn m₀.cpu.enabling).ime = true := by
      rintro C rfl hC
      rw [eq_nil_of_milestones hC, List.append_nil, ← hc.enabling]
      exact Machine.ime_of_dispatch (l := l) (by rw [hC]; simp)
    rcases List.append_eq_append_iff.1 hH with ⟨C, hA, hC⟩ | ⟨C, hA, hC⟩
    · exact hin C hA hC
    · cases C with
      | nil => exact hin [] (by simpa using hA.symm) (by simpa using hC.symm)
      | cons x C =>
        rw [List.cons_append, List.cons.injEq] at hC
        exact ih (B := C) (by rw [hA, hC.1])

end Machine

end Dmg
