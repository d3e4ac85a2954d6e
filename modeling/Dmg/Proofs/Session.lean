import Dmg.Proofs.Moments

/-! # Sessions of a host with a machine

`HostOp.writes` is what reaches the bus in an operation, from the host and from the processor, in order.

`Machine.Session` is the same at a finer grain: a run is no more than its moments, up to and with a
cycle that fails, so that what a write, a request and a cycle preserve holds wherever operations lead
(`Machine.session_operate`). -/

namespace Dmg

namespace Machine
variable {π : Type} [HostDevice π]

/-- The writes of the next step of the processor. -/
def stepWrites (m : Machine π) : List Write :=
  match m.begun with
  | some w => w.writes
  | none => []

/-- The writes of the next cycle. -/
def cycleWrites (m : Machine π) : List Write := m.advance.tickBus.stepWrites

end Machine

def Moment.writes {π : Type} [HostDevice π] (t : Moment) (m : Machine π) : List Write :=
  match t with
  | cycle => m.cycleWrites
  | request _ => []
  | write a v => [⟨a, v⟩]

def HostOp.writes {π : Type} [HostDevice π] (op : HostOp) (m : Machine π) : List Write :=
  op.collected Moment.writes m

@[simp] theorem HostOp.writes_write {π : Type} [HostDevice π] (a : UInt16) (v : UInt8)
    (m : Machine π) : (HostOp.write a v).writes m = [⟨a, v⟩] := rfl

namespace Machine
variable {π : Type} [HostDevice π] {m m₀ : Machine π} {keep : Event → Bool} {W : List Write}

/-- The machine after operations of the host, whether they fail or not. -/
def operate (keep : Event → Bool) (ops : List HostOp) (m : Machine π) : Machine π :=
  ops.foldl (fun m op => (op.run keep m).machine) m

/-- What reached the bus in operations of the host. -/
def written : List HostOp → Machine π → List Write
  | [], _ => []
  | op :: ops, m => op.writes m ++ written ops (op.run (fun _ => false) m).machine

/-- `Session m₀ W m`: the machine comes from `m₀` to `m` by writes and requests of the host and by
whole cycles, in which `W` reached the bus. -/
inductive Session (m₀ : Machine π) : List Write → Machine π → Prop
  | start : Session m₀ [] m₀
  | write {W : List Write} {m : Machine π} (a : UInt16) (v : UInt8) :
    Session m₀ W m → Session m₀ (W ++ [⟨a, v⟩]) (m.write a v).machine
  | request {W : List Write} {m : Machine π} (l : Line) :
    Session m₀ W m → Session m₀ W (m.request l)
  | cycle {W : List Write} {m : Machine π} :
    Session m₀ W m → Session m₀ (W ++ m.cycleWrites) m.cycle.machine

/-! ### The bus in a session -/

/-- The bus in a cycle: the devices tick, the interrupt to be served is acknowledged, and then the
processor writes. -/
theorem cycle_bus (m : Machine π) : m.cycle.machine.bus =
    (match m.advance.tickBus.begun with
      | some w => acknowledge w.act (m.bus.tick (m.cycles + 1))
      | none => m.bus.tick (m.cycles + 1)).store m.cycleWrites := by
  show m.advance.tickBus.stepCpu.machine.bus = _
  rw [stepCpu_bus, cycleWrites, stepWrites]
  cases m.advance.tickBus.begun <;> rfl

/-! ### Operations -/

theorem Session.moment (h : Session m₀ W m) (t : Moment) :
    Session m₀ (W ++ t.writes m) (t.run m).machine := by
  cases t with
  | cycle => exact h.cycle
  | request l =>
    rw [Moment.writes, List.append_nil]
    exact h.request l
  | write a v => exact h.write a v

theorem Session.run (h : Session m₀ W m) (op : HostOp) :
    Session m₀ (W ++ op.writes m) (op.run keep m).machine :=
  run_keeps (fun t h => h.moment t) h op

theorem Session.operate (h : Session m₀ W m) (ops : List HostOp) :
    Session m₀ (W ++ m.written ops) (m.operate keep ops) := by
  induction ops generalizing W m with
  | nil =>
    show Session m₀ (W ++ []) m
    rwa [List.append_nil]
  | cons op ops ih =>
    have hout : (op.run keep m).outcome = (op.run (fun _ => false) m).outcome := outcome_run op
    rw [written, ← List.append_assoc, ← (Prod.mk.inj hout).1]
    exact ih (h.run op)

/-- Operations of the host lead through a session. -/
theorem session_operate (keep : Event → Bool) (ops : List HostOp) (m : Machine π) :
    Session m (m.written ops) (m.operate keep ops) := Session.start.operate ops

end Machine

end Dmg
