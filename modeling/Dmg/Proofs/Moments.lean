import Dmg.Proofs.Step
import Mathlib.Algebra.Group.Nat.Defs

/-! # Runs, moment by moment

A run takes one thing after the other until one fails (`Machine.follow`), and what it makes on the way
is collected in a list (`Machine.collected`). Which things those are is known beforehand: they are the
`Moment`s of an operation, and the counter alone tells them (`HostOp.moments`, `HostOp.outcome_run`).

So nothing about a run needs an induction over its cycles, its frames and the operations of a host
again: what one moment keeps up, a run keeps up (`Machine.follow_keeps`), and a run goes through all its
moments or stops at a cycle among them (`Machine.follow_passes`). -/

namespace Dmg

/-! ### One thing after the other -/

namespace Run
variable {π : Type}

/-- What a run leaves, but for what became visible outside. -/
def outcome (r : Run π) : Machine π × Option IllegalOpcode := (r.machine, r.failure)

/-- A run, and if it did not fail what `next` makes of the machine and the events it leaves. -/
def andThen (r : Run π) (next : Machine π → Array Event → Run π) : Run π :=
  if r.failure.isNone then next r.machine r.events else r

/-- A run of which the events that pass `keep` are kept. -/
def keeping (keep : Event → Bool) (r : Run π) : Run π := { r with events := r.events.filter keep }

theorem andThen_of_none {r : Run π} {next : Machine π → Array Event → Run π}
    (h : r.failure = none) : r.andThen next = next r.machine r.events := by
  simp [andThen, h]

theorem andThen_of_some {r : Run π} {next : Machine π → Array Event → Run π} {e : IllegalOpcode}
    (h : r.failure = some e) : r.andThen next = r := by
  simp [andThen, h]

theorem andThen_assoc (r : Run π) (f g : Machine π → Array Event → Run π) :
    (r.andThen f).andThen g = r.andThen fun m seen => (f m seen).andThen g := by
  cases h : r.failure with
  | none => rw [andThen_of_none h, andThen_of_none h]
  | some e => rw [andThen_of_some h, andThen_of_some h, andThen_of_some h]

end Run

namespace Machine

section
variable {π τ α : Type} {m : Machine π} {keep keep' : Event → Bool} {seen seen' : Array Event}

/-- `f` once, its events collected behind `seen`. -/
def collect (f : Machine π → Run π) (keep : Event → Bool) (m : Machine π) (seen : Array Event) :
    Run π :=
  { f m with events := seen ++ (f m).events.filter keep }

/-- What `act` makes of one thing after the other, up to and with the first that fails. -/
def follow (act : τ → Machine π → Run π) (keep : Event → Bool) :
    List τ → Machine π → Array Event → Run π
  | [], m, seen => { machine := m, events := seen }
  | t :: T, m, seen => (collect (act t) keep m seen).andThen (follow act keep T)

/-- What `f` tells of each thing that is taken, in order. -/
def collected (act : τ → Machine π → Run π) (f : τ → Machine π → List α) :
    List τ → Machine π → List α
  | [], _ => []
  | t :: T, m =>
    f t m ++ if (act t m).failure.isNone then collected act f T (act t m).machine else []

variable {act : τ → Machine π → Run π} {f : τ → Machine π → List α} {t : τ} {T : List τ} {A : List α}

theorem follow_append (T T' : List τ) :
    follow act keep (T ++ T') m seen = (follow act keep T m seen).andThen (follow act keep T') := by
  induction T generalizing m seen with
  | nil => rfl
  | cons t T ih =>
    have hih : follow act keep (T ++ T') =
        fun m seen => (follow act keep T m seen).andThen (follow act keep T') :=
      funext fun _ => funext fun _ => ih
    rw [List.cons_append, follow, follow, hih, Run.andThen_assoc]

theorem follow_cons (t : τ) (T : List τ) : follow act keep (t :: T) m seen =
    if (act t m).failure.isNone then
      follow act keep T (act t m).machine (seen ++ (act t m).events.filter keep)
    else { act t m with events := seen ++ (act t m).events.filter keep } := rfl

/-- What each thing keeps up, a run keeps up: `I` speaks of what was collected and seen so far, and of
the machine. -/
theorem follow_keeps {I : List α → Array Event → Machine π → Prop}
    (hstep : ∀ {A seen m} t, I A seen m →
      I (A ++ f t m) (seen ++ (act t m).events.filter keep) (act t m).machine)
    (h : I A seen m) (T : List τ) : I (A ++ collected act f T m) (follow act keep T m seen).events
      (follow act keep T m seen).machine := by
  induction T generalizing A m seen with
  | nil => rwa [collected, List.append_nil]
  | cons t T ih =>
    rw [follow_cons, collected, ← List.append_assoc]
    split
    · exact ih (hstep t h)
    · rw [List.append_nil]
      exact hstep t h

/-- What is kept of a run has no part in where it leads. -/
theorem outcome_follow (T : List τ) :
    (follow act keep T m seen).outcome = (follow act keep' T m seen').outcome := by
  induction T generalizing m seen seen' with
  | nil => rfl
  | cons t T ih =>
    rw [follow_cons, follow_cons]
    split
    · exact ih
    · rfl

/-- The events of a run stand behind those that came before, and have no part in each other. -/
theorem events_follow (T : List τ) : (follow act keep T m seen).events = seen ++
    ((collected act (fun t m => (act t m).events.toList) T m).filter keep).toArray := by
  refine follow_keeps (A := []) (I := fun A seen' _ => seen' = seen ++ (A.filter keep).toArray) ?_
    Array.append_empty.symm T
  rintro A seen' m t rfl
  rw [List.filter_append, ← List.append_toArray, ← Array.append_assoc]
  congr 1
  exact Array.ext' (by simp)

theorem iterate_succ (f : Machine π → Run π) (n : Nat) : iterate f keep (n + 1) m seen =
    if (f m).failure.isNone then
      iterate f keep n (f m).machine (seen ++ (f m).events.filter keep)
    else { f m with events := seen ++ (f m).events.filter keep } := by
  rw [iterate]
  rcases f m with ⟨m', events, _ | e⟩ <;> rfl

/-- Events that are not kept might as well be left out afterwards. -/
theorem keeping_follow (T : List τ) : follow act keep T m (seen.filter keep) =
    (follow act (fun _ => true) T m seen).keeping keep := by
  obtain ⟨hm, hf⟩ : (follow act keep T m (seen.filter keep)).machine =
        (follow act (fun _ => true) T m seen).machine ∧
      (follow act keep T m (seen.filter keep)).failure =
        (follow act (fun _ => true) T m seen).failure := Prod.mk.inj (outcome_follow T)
  have hevents : (follow act keep T m (seen.filter keep)).events =
      (follow act (fun _ => true) T m seen).events.filter keep := by
    rw [events_follow, events_follow, Array.filter_append (Array.size_append ..)]
    simp
  exact congr (congr (congrArg Run.mk hm) hevents) hf

/-- Taking one thing some times follows a list. -/
theorem iterate_eq_follow (act : τ → Machine π → Run π) (t : τ) (n : Nat) :
    iterate (act t) keep n m seen = follow act keep (.replicate n t) m seen := by
  induction n generalizing m seen with
  | zero => rfl
  | succ n ih =>
    rw [iterate_succ, List.replicate_succ, follow_cons, ih]

theorem iterate_one (f : Machine π → Run π) :
    iterate f keep 1 m seen = collect f keep m seen := by
  rw [iterate_succ]
  split
  · next h => exact congrArg (Run.mk _ _) (Option.isNone_iff_eq_none.1 h).symm
  · rfl

theorem iterate_add (f : Machine π → Run π) (n k : Nat) :
    iterate f keep (n + k) m seen = (iterate f keep n m seen).andThen (iterate f keep k) := by
  have hfollow (n : Nat) : iterate f keep n = follow (fun () => f) keep (.replicate n ()) :=
    funext fun _ => funext fun _ => iterate_eq_follow (fun () => f) () n
  rw [hfollow, hfollow, hfollow, ← List.replicate_append_replicate, follow_append]

theorem outcome_iterate (f : Machine π → Run π) (n : Nat) :
    (iterate f keep n m seen).outcome = (iterate f keep' n m seen').outcome := by
  rw [iterate_eq_follow (fun () => f) (), iterate_eq_follow (fun () => f) ()]
  exact outcome_follow _

end

end Machine

/-! ### The moments of an operation -/

/-- What a host does with a machine. -/
inductive HostOp where
  | write (a : UInt16) (v : UInt8)
  | request (l : Line)
  | runUntil (target : UInt64)
  | runFrames (n : Nat)
deriving DecidableEq

def HostOp.run {π : Type} [HostDevice π] (keep : Event → Bool) (op : HostOp) (m : Machine π) : Run π :=
  match op with
  | write a v => m.write a v
  | request l => { machine := m.request l }
  | runUntil target => m.runUntil keep target #[]
  | runFrames n => m.runFrames keep n #[]

/-- What runs are made of, and what a host does between them. -/
inductive Moment where
  | cycle
  | request (l : Line)
  | write (a : UInt16) (v : UInt8)
deriving DecidableEq

namespace Moment

def run {π : Type} [HostDevice π] (t : Moment) (m : Machine π) : Run π :=
  match t with
  | cycle => m.cycle
  | request l => { machine := m.request l }
  | write a v => m.write a v

/-- The moments of a run to a cycle, where the counter is at `c`. -/
def upTo (c target : UInt64) : List Moment := .replicate (target.toNat - c.toNat) cycle

/-- The moments of frames, each of which ends with its request. A frame in which the counter would wrap
has no cycles. -/
def frames : Nat → UInt64 → List Moment
  | 0, _ => []
  | n + 1, c =>
    let T := upTo c (c + Machine.frameCycles)
    T ++ request .vblank :: frames n (c + .ofNat T.length)

end Moment

/-- The moments of an operation on a machine whose counter is at `c`. -/
def HostOp.moments (op : HostOp) (c : UInt64) : List Moment :=
  match op with
  | write a v => [.write a v]
  | request l => [.request l]
  | runUntil target => Moment.upTo c target
  | runFrames n => Moment.frames n c

/-- What `f` tells of the moments of an operation, up to and with a cycle that fails. -/
def HostOp.collected {π α : Type} [HostDevice π] (f : Moment → Machine π → List α) (op : HostOp)
    (m : Machine π) : List α :=
  Machine.collected Moment.run f (op.moments m.cycles) m

theorem toNat_add_ofNat {c : UInt64} {k : Nat} (h : c.toNat + k < 2 ^ 64) :
    (c + .ofNat k).toNat = c.toNat + k := by
  rw [UInt64.toNat_add, UInt64.toNat_ofNat']
  omega

namespace Moment
variable {c : UInt64} {n : Nat}

theorem upTo_add (h : c.toNat + n < 2 ^ 64) : upTo c (c + .ofNat n) = .replicate n cycle := by
  rw [upTo, toNat_add_ofNat h, Nat.add_sub_cancel_left]

theorem count_upTo (c target : UInt64) : (upTo c target).count cycle = target.toNat - c.toNat :=
  List.count_replicate_self

/-- The counter does not wrap. -/
theorem upTo_fits (c target : UInt64) : c.toNat + (upTo c target).count cycle < 2 ^ 64 := by
  have hc := c.toNat_lt
  have ht := target.toNat_lt
  rw [count_upTo]
  omega

theorem frames_fit (n : Nat) (c : UInt64) : c.toNat + (frames n c).count cycle < 2 ^ 64 := by
  induction n generalizing c with
  | zero => exact c.toNat_lt
  | succ n ih =>
    have hfirst := upTo_fits c (c + Machine.frameCycles)
    have hlength : (upTo c (c + Machine.frameCycles)).length =
        (upTo c (c + Machine.frameCycles)).count cycle := by
      rw [count_upTo, upTo, List.length_replicate]
    have hrest := ih (c + .ofNat (upTo c (c + Machine.frameCycles)).length)
    rw [hlength, toNat_add_ofNat hfirst] at hrest
    rw [frames, List.count_append, List.count_cons_of_ne (by decide), hlength]
    omega

end Moment

/-- However long an operation, the counter does not wrap in it. -/
theorem HostOp.moments_fit (op : HostOp) (c : UInt64) :
    c.toNat + (op.moments c).count .cycle < 2 ^ 64 := by
  cases op with
  | write a v => exact c.toNat_lt
  | request l => exact c.toNat_lt
  | runUntil target => exact Moment.upTo_fits c target
  | runFrames n => exact Moment.frames_fit n c

/-! ### What a run goes through -/

namespace Machine
variable {π : Type} [HostDevice π] {m m₀ m' : Machine π} {keep keep' : Event → Bool}
  {seen seen' : Array Event} {T : List Moment}

/-- `Passes m₀ T m`: the machine comes from `m₀` to `m` through `T`, and no cycle fails. -/
inductive Passes (m₀ : Machine π) : List Moment → Machine π → Prop
  | start : Passes m₀ [] m₀
  | cycle {T : List Moment} {m : Machine π} :
    Passes m₀ T m → m.cycle.failure = none → Passes m₀ (T ++ [.cycle]) m.cycle.machine
  | request {T : List Moment} {m : Machine π} (l : Line) :
    Passes m₀ T m → Passes m₀ (T ++ [.request l]) (m.request l)
  | write {T : List Moment} {m : Machine π} (a : UInt16) (v : UInt8) :
    Passes m₀ T m → Passes m₀ (T ++ [.write a v]) (m.write a v).machine

theorem cycles_cycle (m : Machine π) : m.cycle.machine.cycles = m.cycles + 1 :=
  cycles_stepCpu m.advance.tickBus

/-- The counter counts the cycles. -/
theorem Passes.cycles (h : Passes m₀ T m) : m.cycles = m₀.cycles + .ofNat (T.count .cycle) := by
  induction h with
  | start => exact (UInt64.add_zero _).symm
  | @cycle T m _ _ ih =>
    rw [cycles_cycle, ih, List.count_append, List.count_singleton_self, UInt64.ofNat_add,
      UInt64.add_assoc]
    rfl
  | request l _ ih | write a v _ ih =>
    rw [List.count_append, List.count_singleton]
    exact ih

theorem Passes.trans {T' : List Moment} (h : Passes m₀ T m) (h' : Passes m T' m') :
    Passes m₀ (T ++ T') m' := by
  induction h' with
  | start => rwa [List.append_nil]
  | cycle _ hc ih =>
    rw [← List.append_assoc]
    exact ih.cycle hc
  | request l _ ih =>
    rw [← List.append_assoc]
    exact ih.request l
  | write a v _ ih =>
    rw [← List.append_assoc]
    exact ih.write a v

/-- A moment is passed, unless it is a cycle that fails. -/
theorem passes_moment (t : Moment) (m : Machine π) :
    Passes m [t] (t.run m).machine ∧ (t.run m).failure = none ∨
      t = .cycle ∧ (t.run m).failure ≠ none := by
  cases t with
  | cycle =>
    cases hf : m.cycle.failure with
    | none => exact .inl ⟨Passes.start.cycle hf, hf⟩
    | some e => exact .inr ⟨rfl, fun h => nomatch hf.symm.trans h⟩
  | request l => exact .inl ⟨Passes.start.request l, rfl⟩
  | write a v => exact .inl ⟨Passes.start.write a v, rfl⟩

/-- What a run went through: all its moments, or those before the cycle that failed. -/
theorem follow_passes (T : List Moment) (r : Run π) (hr : follow Moment.run keep T m seen = r) :
    r.failure = none ∧ Passes m T r.machine ∨
      r.failure ≠ none ∧ ∃ T₁ m', T₁ ++ [.cycle] <+: T ∧ Passes m T₁ m' ∧
        m'.cycle.outcome = r.outcome := by
  induction T generalizing m seen with
  | nil =>
    subst hr
    exact .inl ⟨rfl, .start⟩
  | cons t T ih =>
    rw [follow_cons] at hr
    rcases passes_moment t m with ⟨hone, hnone⟩ | ⟨rfl, hfail⟩
    · rw [if_pos (Option.isNone_iff_eq_none.2 hnone)] at hr
      rcases ih hr with ⟨hnone, hall⟩ | ⟨hfail, T₁, m', hcut, hpass, hout⟩
      · exact .inl ⟨hnone, hone.trans hall⟩
      · exact .inr ⟨hfail, t :: T₁, m', List.prefix_cons_inj t |>.2 hcut, hone.trans hpass, hout⟩
    · rw [if_neg (by simpa using hfail)] at hr
      subst hr
      exact .inr ⟨hfail, [], m, ⟨T, rfl⟩, .start, rfl⟩

/-- The counter counts the cycle that failed as well. -/
theorem cycles_stopped {T₁ : List Moment} {r : Run π} (hcut : T₁ ++ [.cycle] <+: T)
    (hpass : Passes m T₁ m') (hout : m'.cycle.outcome = r.outcome)
    (hfits : m.cycles.toNat + T.count .cycle < 2 ^ 64) :
    r.machine.cycles.toNat = m.cycles.toNat + T₁.count .cycle + 1 := by
  have hle := hcut.sublist.count_le Moment.cycle
  rw [List.count_append, List.count_singleton_self] at hle
  have hroom : m.cycles.toNat + (T₁.count .cycle + 1) < 2 ^ 64 := by omega
  have hlast : r.machine.cycles = m.cycles + .ofNat (T₁.count .cycle + 1) := by
    rw [← (Prod.mk.inj hout).1, UInt64.ofNat_add, ← UInt64.add_assoc, ← hpass.cycles]
    exact cycles_cycle m'
  rw [hlast, toNat_add_ofNat hroom, Nat.add_assoc]

/-! ### Operations follow their moments -/

theorem runUntil_eq_follow (target : UInt64) :
    runUntil keep target m seen = follow Moment.run keep (Moment.upTo m.cycles target) m seen :=
  iterate_eq_follow Moment.run .cycle _

theorem frames_succ (n : Nat) : frames keep (n + 1) m seen =
    (m.runUntil keep (m.cycles + frameCycles) seen).andThen fun m seen =>
      frames keep n (m.request .vblank) seen := by
  rw [frames]
  rcases m.runUntil keep (m.cycles + frameCycles) seen with ⟨m', events, _ | e⟩ <;> rfl

theorem frames_eq_follow (n : Nat) :
    frames keep n m seen = follow Moment.run keep (Moment.frames n m.cycles) m seen := by
  induction n generalizing m seen with
  | zero => rfl
  | succ n ih =>
    obtain ⟨r, hr⟩ : ∃ r, follow Moment.run keep (Moment.upTo m.cycles (m.cycles + frameCycles)) m seen = r :=
      ⟨_, rfl⟩
    rw [frames_succ, runUntil_eq_follow, Moment.frames, follow_append, hr]
    rcases follow_passes _ r hr with ⟨hnone, hpass⟩ | ⟨hfail, -⟩
    · have hcycles : (r.machine.request .vblank).cycles = m.cycles +
          .ofNat (Moment.upTo m.cycles (m.cycles + frameCycles)).length := by
        rw [Moment.upTo, List.length_replicate, ← Moment.count_upTo]
        exact hpass.cycles
      rw [Run.andThen_of_none hnone, Run.andThen_of_none hnone, ih, hcycles]
      show _ = follow Moment.run keep _ (r.machine.request .vblank) (r.events ++ #[])
      rw [Array.append_empty]
    · obtain ⟨e, he⟩ := Option.ne_none_iff_exists'.1 hfail
      rw [Run.andThen_of_some he, Run.andThen_of_some he]

/-- Reporting the last cycle has no part in where frames lead. -/
theorem outcome_runFrames (n : Nat) :
    (runFrames keep n m seen).outcome = (frames keep n m seen).outcome := by
  unfold runFrames
  dsimp only
  split <;> rfl

/-- Where an operation leads is told by its moments. -/
theorem outcome_run_moments (op : HostOp) : (op.run keep m).outcome =
    (follow Moment.run keep' (op.moments m.cycles) m seen).outcome := by
  cases op with
  | write a v => rfl
  | request l => rfl
  | runUntil target =>
    show (m.runUntil keep target #[]).outcome = _
    rw [runUntil_eq_follow]
    exact outcome_follow _
  | runFrames n =>
    show (m.runFrames keep n #[]).outcome = _
    rw [outcome_runFrames, frames_eq_follow]
    exact outcome_follow _

theorem outcome_run (op : HostOp) : (op.run keep m).outcome = (op.run keep' m).outcome := by
  have hout (keep : Event → Bool) : (op.run keep m).outcome =
    (follow Moment.run (fun _ => false) (op.moments m.cycles) m #[]).outcome := outcome_run_moments op
  exact (hout keep).trans (hout keep').symm

/-- What each moment keeps up, an operation keeps up. -/
theorem run_keeps {α : Type} {I : List α → Machine π → Prop} {f : Moment → Machine π → List α}
    {A : List α} (hstep : ∀ {A m} t, I A m → I (A ++ f t m) (Moment.run t m).machine) (h : I A m)
    (op : HostOp) : I (A ++ op.collected f m) (op.run keep m).machine := by
  have hout : (op.run keep m).outcome = (follow Moment.run keep (op.moments m.cycles) m #[]).outcome :=
    outcome_run_moments op
  rw [(Prod.mk.inj hout).1]
  exact follow_keeps (I := fun A _ m => I A m) (fun t h => hstep t h) h _

/-- An operation that fails stops on the cycle that fails, and the counter tells which that is. -/
theorem stops_at {op : HostOp} {e : IllegalOpcode} (h : (op.run keep m).failure = some e) :
    ∃ T m', T ++ [.cycle] <+: op.moments m.cycles ∧ Passes m T m' ∧
      m'.cycle.outcome = (op.run keep m).outcome ∧
      (op.run keep m).machine.cycles.toNat = m.cycles.toNat + T.count .cycle + 1 := by
  obtain ⟨r, hr⟩ : ∃ r, follow Moment.run keep (op.moments m.cycles) m #[] = r := ⟨_, rfl⟩
  have hout : (op.run keep m).outcome = r.outcome := hr ▸ outcome_run_moments op
  rcases follow_passes _ r hr with ⟨hnone, -⟩ | ⟨-, T, m', hcut, hpass, hcycle⟩
  · rw [← (Prod.mk.inj hout).2, h] at hnone
    cases hnone
  · have hstop := hcycle.trans hout.symm
    exact ⟨T, m', hcut, hpass, hstop, cycles_stopped hcut hpass hstop (op.moments_fit _)⟩

end Machine

end Dmg
