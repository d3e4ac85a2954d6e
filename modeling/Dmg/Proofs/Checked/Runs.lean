import Dmg.Probe
import Dmg.Proofs.Checked.Execution
import Dmg.Proofs.Checked.Memory
import Dmg.Proofs.Pieces
import Dmg.Proofs.Wiring

/-! # Runs that cannot stop half-way

The machine with every check in place: indices, widths, stores, and the counter of cycles. A cycle
passes all of them from any state short of the last value of the counter, so a run to any target
does, and frames do while a target a frame ahead can be counted (`Machine.FramesFit`). For a
handheld this is all that a host can do with it (`Machine.operates_in_bounds`). -/

namespace Dmg

open Unsigned (sum)

namespace Machine
variable {π : Type} [HostDevice π] {m : Machine π} {keep : Event → Bool} {seen : Array Event}

/-! ### One cycle -/

def checkedAcknowledge (act : Activity) (bus : Bus π) : Option (Bus π) :=
  match act with
  | .dispatch l => bus.checkedClear l
  | .execute _ => some bus

def checkedStartWork (m : Machine π) (seen : Array Event) : Option (Run π) := do
  let { cpu, bus, cycles } := m
  match ← cpu.checkedStart bus.irq bus.checkedRead with
  | .error e => return { machine := { cpu, bus, cycles }, events := seen, failure := some e }
  | .ok work =>
    let seen := seen.push (work.act.event cycles cpu.regs.pc)
    let (bus, seen) ← Bus.checkedWriteAll work.writes (← checkedAcknowledge work.act bus) seen
    let cpu ← work.cpu.checkedSettle work.act work.cost
    return { machine := { cpu, bus, cycles }, events := seen }

def checkedStepCpu (m : Machine π) : Option (Run π) := do
  match m.cpu.phase with
  | .busy act remaining =>
    return { machine := { m with cpu := ← m.cpu.checkedCountDown act remaining } }
  | .halted =>
    if m.bus.irq.active = 0 then return { machine := m }
    else checkedStartWork { m with cpu := { m.cpu with phase := .ready } } #[.leavingHalt m.cycles]
  | .ready => m.checkedStartWork #[]

def checkedCycle (m : Machine π) : Option (Run π) := do
  let cycles ← sum m.cycles 1
  let bus ← m.bus.checkedTick cycles
  checkedStepCpu { m with bus, cycles }

/-! ### Runs -/

def checkedIterate (f : Machine π → Option (Run π)) (keep : Event → Bool) :
    Nat → Machine π → Array Event → Option (Run π)
  | 0, m, seen => some { machine := m, events := seen }
  | n + 1, m, seen => do
    let run ← f m
    let seen := seen ++ run.events.filter keep
    if run.failure.isNone then checkedIterate f keep n run.machine seen
    else return { run with events := seen }

def checkedRunUntil (keep : Event → Bool) (target : UInt64) (m : Machine π) (seen : Array Event) :
    Option (Run π) :=
  checkedIterate checkedCycle keep (target.toNat - m.cycles.toNat) m seen

def checkedFrames (keep : Event → Bool) : Nat → Machine π → Array Event → Option (Run π)
  | 0, m, seen => some { machine := m, events := seen }
  | n + 1, m, seen => do
    let run ← checkedRunUntil keep (← sum m.cycles frameCycles) m seen
    if run.failure.isNone then
      checkedFrames keep n { run.machine with bus := ← run.machine.bus.checkedRequest .vblank }
        run.events
    else return run

def checkedRunFrames (keep : Event → Bool) (n : Nat) (m : Machine π) (seen : Array Event) :
    Option (Run π) := do
  let run ← checkedFrames keep n m seen
  return if run.failure.isNone then
    { run with events := run.events ++ #[.framesRun n run.machine.cycles].filter keep }
  else run

def checkedStore (m : Machine π) (ws : List Write) : Option (Run π) := do
  let { cpu, bus, cycles } := m
  let (bus, events) ← bus.checkedWriteAll ws #[]
  return { machine := { cpu, bus, cycles }, events }

end Machine

def HostOp.checkedRun {π : Type} [HostDevice π] (keep : Event → Bool) (op : HostOp)
    (m : Machine π) : Option (Run π) :=
  match op with
  | write a v => m.checkedStore [⟨a, v⟩]
  | request l => do return { machine := { m with bus := ← m.bus.checkedRequest l } }
  | runUntil target => m.checkedRunUntil keep target #[]
  | runFrames n => m.checkedRunFrames keep n #[]

namespace Machine
variable {π : Type} [HostDevice π] {m : Machine π} {keep : Event → Bool} {seen : Array Event}

def checkedOperate (keep : Event → Bool) (ops : List HostOp) (m : Machine π) :
    Option (Machine π) :=
  ops.foldlM (fun m op => do return (← op.checkedRun keep m).machine) m

/-- At the start of each of `n` frames, the counter has room for the frame. -/
def FramesFit : Nat → Machine π → Prop
  | 0, _ => True
  | n + 1, m => m.cycles.toNat + frameCycles.toNat < 2 ^ 64 ∧
    let run := m.runUntil (fun _ => false) (m.cycles + frameCycles) #[]
    (run.failure = none → FramesFit n (run.machine.request .vblank))

/-- At the start of each frame that operations of the host run, the counter has room for it. -/
def OperationsFit : List HostOp → Machine π → Prop
  | [], _ => True
  | op :: ops, m => (∀ n, op = .runFrames n → m.FramesFit n) ∧
    OperationsFit ops (op.run (fun _ => false) m).machine

/-! ### Every check is passed -/

omit [HostDevice π] in
@[simp] theorem checkedAcknowledge_eq (act : Activity) (bus : Bus π) :
    checkedAcknowledge act bus = some (acknowledge act bus) := by
  cases act with
  | execute i => rfl
  | dispatch l => exact bus.checkedClear_eq l

theorem checkedStartWork_eq (m : Machine π) (seen : Array Event) :
    m.checkedStartWork seen = some (m.startWork seen) := by
  have hread : m.bus.checkedRead = View.answers m.bus.read := funext m.bus.checkedRead_eq
  unfold checkedStartWork startWork
  simp only [hread, Cpu.checkedStart_eq, Option.bind_eq_bind, Option.bind_some]
  cases m.cpu.start m.bus.irq m.bus.read with
  | error e => rfl
  | ok work =>
    simp only [checkedAcknowledge_eq, Bus.checkedWriteAll_eq, Cpu.checkedSettle_eq,
      Option.bind_some]
    rfl

theorem checkedStepCpu_eq (m : Machine π) : m.checkedStepCpu = some m.stepCpu := by
  unfold checkedStepCpu stepCpu
  cases m.cpu.phase with
  | ready => exact checkedStartWork_eq m _
  | busy act n =>
    simp only [Cpu.checkedCountDown_eq]
    rfl
  | halted =>
    dsimp only
    split
    · rfl
    · exact checkedStartWork_eq _ _

theorem checkedCycle_eq (h : m.cycles.toNat + 1 < 2 ^ 64) : m.checkedCycle = some m.cycle := by
  have hcycles : sum m.cycles 1 = some (m.cycles + 1) := Unsigned.sum_eq h
  rw [checkedCycle, hcycles]
  simp only [Option.bind_eq_bind, Option.bind_some, Bus.checkedTick_eq]
  exact checkedStepCpu_eq _

theorem checkedIterate_eq (n : Nat) (h : m.cycles.toNat + n < 2 ^ 64) :
    checkedIterate checkedCycle keep n m seen = some (iterate cycle keep n m seen) := by
  induction n generalizing m seen with
  | zero => rfl
  | succ n ih =>
    have hnext : m.cycle.machine.cycles.toNat = m.cycles.toNat + 1 := by
      rw [cycles_cycle]
      exact toNat_add_ofNat (k := 1) (by omega)
    -- Each cycle of the `n` takes one off the room that the counter has left.
    rw [checkedIterate, checkedCycle_eq (by omega), iterate_succ]
    simp only [Option.bind_eq_bind, Option.bind_some]
    split
    · exact ih (by omega)
    · rfl

theorem checkedRunUntil_eq (target : UInt64) :
    m.checkedRunUntil keep target seen = some (m.runUntil keep target seen) := by
  have hc := m.cycles.toNat_lt
  have ht := target.toNat_lt
  exact checkedIterate_eq _ (by omega)

theorem checkedFrames_eq (n : Nat) (h : m.FramesFit n) :
    checkedFrames keep n m seen = some (frames keep n m seen) := by
  induction n generalizing m seen with
  | zero => rfl
  | succ n ih =>
    obtain ⟨hfits, hrest⟩ := h
    have htarget : sum m.cycles frameCycles = some (m.cycles + frameCycles) := Unsigned.sum_eq hfits
    have hout : (m.runUntil keep (m.cycles + frameCycles) seen).outcome =
      (m.runUntil (fun _ => false) (m.cycles + frameCycles) #[]).outcome := outcome_iterate cycle _
    obtain ⟨hm, hf⟩ := Prod.mk.inj hout
    rw [checkedFrames, htarget, frames_succ, Run.andThen]
    simp only [Option.bind_eq_bind, Option.bind_some, checkedRunUntil_eq, Bus.checkedRequest_eq]
    split
    · next hnone =>
      refine ih ?_
      show FramesFit n (request _ _)
      rw [hm]
      exact hrest (hf ▸ Option.isNone_iff_eq_none.1 hnone)
    · rfl

theorem checkedRun_eq {op : HostOp} (h : ∀ n, op = .runFrames n → m.FramesFit n) :
    op.checkedRun keep m = some (op.run keep m) := by
  cases op with
  | write a v =>
    rw [HostOp.checkedRun, checkedStore, Bus.checkedWriteAll_eq]
    rfl
  | request l =>
    rw [HostOp.checkedRun, Bus.checkedRequest_eq]
    rfl
  | runUntil target => exact checkedRunUntil_eq target
  | runFrames n =>
    show m.checkedRunFrames keep n #[] = some (m.runFrames keep n #[])
    rw [checkedRunFrames, checkedFrames_eq n (h n rfl), runFrames]
    rfl

theorem checkedOperate_eq {ops : List HostOp} (h : m.OperationsFit ops) :
    m.checkedOperate keep ops = some (m.operate keep ops) := by
  induction ops generalizing m with
  | nil => rfl
  | cons op ops ih =>
    obtain ⟨hop, hops⟩ := h
    have hout : (op.run (fun _ => false) m).outcome = (op.run keep m).outcome := outcome_run op
    rw [(Prod.mk.inj hout).1] at hops
    rw [checkedOperate, List.foldlM_cons, checkedRun_eq hop]
    exact ih hops

/-! ### The handheld -/

theorem workRam_built :
    (RamWindow.zeroed 0xC000 0x2000).bind (·.withEcho 0xE000 0x1E00) = .ok workRam := by
  have hwindow : RamWindow.zeroed 0xC000 0x2000 = .ok { workRam with echo := none } :=
    dif_pos (by decide)
  rw [hwindow, Except.bind, RamWindow.withEcho, dif_pos (by decide), dif_pos (by decide)]
  rfl

theorem highRam_built : RamWindow.zeroed 0xFF80 0x7F = .ok highRam := dif_pos (by decide)

/-- A handheld with any cartridge, and with no boot image or one of the right size, is put together
without a check that fails, and whatever a host does with it passes all checks, as does every read
in between. -/
theorem operates_in_bounds (cartridge : Cartridge) {boot : Option (Array UInt8)}
    (hb : ∀ b ∈ boot, b.size = bootSize) :
    (RamWindow.zeroed 0xC000 0x2000).bind (·.withEcho 0xE000 0x1E00) = .ok workRam ∧
    RamWindow.zeroed 0xFF80 0x7F = .ok highRam ∧
    ∃ core : Machine π, (handheld cartridge boot).machine = .ok core ∧
      ∀ (ds : List (Device π)) (keep : Event → Bool) (ops : List HostOp),
        (core.attachAll ds).machine.OperationsFit ops →
        let m := (core.attachAll ds).machine.operate keep ops
        (core.attachAll ds).machine.checkedOperate keep ops = some m ∧
          ∀ a, m.bus.checkedRead a = some (m.read a) := by
  obtain ⟨overlay, ho, -, -⟩ := BootOverlay.ofImage_of_size cartridge hb
  obtain ⟨core, hcore, -⟩ := wired_handheld (π := π) ho
  refine ⟨workRam_built, highRam_built, core, hcore, ?_⟩
  intro ds keep ops hops m
  exact ⟨checkedOperate_eq hops, m.bus.checkedRead_eq⟩

/-- A handheld with a boot image of HALTs: a byte is written to the echo of its RAM, and a frame is
run. -/
theorem operates_in_bounds_frame : ∃ core : Machine Probe,
    (handheld ⟨⟨⟨.replicate romSize 0, Array.size_replicate⟩⟩⟩
      (some (.replicate bootSize 0x76))).machine = .ok core ∧
    let ops := [.write 0xE123 0x42, .runFrames 1]
    core.OperationsFit ops ∧
      core.checkedOperate (fun _ => true) ops = some (core.operate (fun _ => true) ops) := by
  have hb : ∀ b ∈ some (Array.replicate bootSize (0x76 : UInt8)), b.size = bootSize := by simp
  obtain ⟨-, -, core, hcore, h⟩ := operates_in_bounds (π := Probe)
    ⟨⟨⟨.replicate romSize 0, Array.size_replicate⟩⟩⟩ hb
  have hfits : core.OperationsFit [.write 0xE123 0x42, .runFrames 1] := by
    refine ⟨nofun, ?_, trivial⟩
    rintro n ⟨⟩
    refine ⟨?_, fun _ => trivial⟩
    show core.cycles.toNat + frameCycles.toNat < 2 ^ 64
    rw [cycles_handheld hcore]
    decide
  exact ⟨core, hcore, hfits, (h [] (fun _ => true) _ hfits).1⟩

/-- Where the counter has no room for it, a frame is not begun. -/
example : checkedFrames (fun _ => true) 1 ({ cycles := 0xFFFFFFFFFFFFFFFF } : Machine Probe) #[] =
    none := rfl

end Machine

end Dmg
