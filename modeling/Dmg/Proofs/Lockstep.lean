import Dmg.Proofs.Footprint
import Dmg.Proofs.Session

/-! # Machines in lockstep

Two machines go through the same as long as their processors are equal and their buses are related
by something that all operations of a bus keep, under which a step of the processor finds the same
in both (`Lockstep`). One step shows it (`Lockstep.stepCpu`), and runs to a cycle and of frames
follow (`Lockstep.run`).

What a host comes to know of a machine is a `dialogue`: a list of calls, each with its reply and
with what the host sees then. Machines in lockstep lead the same dialogues (`Lockstep.dialogue`). -/

namespace Dmg

/-! ### Where the processor takes its steps -/

def Moment.stages {π : Type} [HostDevice π] (t : Moment) (m : Machine π) : List (Machine π) :=
  match t with
  | cycle => [m.advance.tickBus]
  | request _ | write _ _ => []

/-- The machines in which the processor takes a step. -/
def HostOp.stages {π : Type} [HostDevice π] (op : HostOp) (m : Machine π) : List (Machine π) :=
  op.collected Moment.stages m

/-! ### Dialogues -/

/-- What a host can ask of a machine. -/
inductive Call where
  | read (a : UInt16)
  | operate (op : HostOp)
  /-- A cycle of the devices alone. -/
  | tick
  /-- A cycle of the processor alone. -/
  | step
deriving DecidableEq

inductive Reply where
  | byte (v : UInt8)
  | done (failure : Option IllegalOpcode)
deriving DecidableEq

namespace Call
variable {π : Type} [HostDevice π]

/-- The reply to a call, and the machine after it. -/
def answer (c : Call) (m : Machine π) : Reply × Machine π :=
  match c with
  | read a => (.byte (m.read a), m)
  | operate op => (.done (op.run (fun _ => false) m).failure, (op.run (fun _ => false) m).machine)
  | tick => (.done m.tick.failure, m.tick.machine)
  | step => (.done m.step.failure, m.step.machine)

/-- The machines in which the processor takes a step. -/
def stages (c : Call) (m : Machine π) : List (Machine π) :=
  match c with
  | read _ | tick => []
  | operate op => op.stages m
  | step => [m.advance]

end Call

/-- What a host sees of a machine without reading its memory. -/
structure Sight where
  cpu : Cpu
  irq : Interrupts
  cycles : UInt64
deriving DecidableEq

namespace Machine
variable {π : Type}

def sight (m : Machine π) : Sight := ⟨m.cpu, m.bus.irq, m.cycles⟩

/-- Equal in processor and counter, and with buses that `S` relates. -/
structure Alike (S : Bus π → Bus π → Prop) (m m' : Machine π) : Prop where
  cpu : m'.cpu = m.cpu
  cycles : m'.cycles = m.cycles
  bus : S m.bus m'.bus

theorem Alike.advance {S : Bus π → Bus π → Prop} {m m' : Machine π} (h : m.Alike S m') :
    m.advance.Alike S m'.advance :=
  ⟨h.cpu, congrArg (· + 1) h.cycles, h.bus⟩

variable [HostDevice π]

/-- Calls with their replies, and what is seen of the machine after each of them. -/
def dialogue {σ : Type} (see : Machine π → σ) : List Call → Machine π → List (Call × Reply × σ)
  | [], _ => []
  | c :: calls, m =>
    (c, (c.answer m).1, see (c.answer m).2) :: dialogue see calls (c.answer m).2

/-- The machines in which the processor takes a step, in the course of a dialogue. -/
def stages : List Call → Machine π → List (Machine π)
  | [], _ => []
  | c :: calls, m => c.stages m ++ stages calls (c.answer m).2

end Machine

/-- Runs that fail alike and leave machines that are alike. -/
structure Run.Alike {π : Type} (S : Bus π → Bus π → Prop) (r r' : Run π) : Prop where
  failure : r'.failure = r.failure
  machine : r.machine.Alike S r'.machine

/-! ### Lockstep -/

/-- Whatever happens to two buses keeps `S`, and in a machine with the property `P` a step of the
processor finds the same as in one that is alike. -/
structure Lockstep {π : Type} [HostDevice π] (P : Machine π → Prop) (S : Bus π → Bus π → Prop) :
    Prop where
  write : ∀ {b b' : Bus π}, S b b' → ∀ a v, S (b.write a v) (b'.write a v)
  request : ∀ {b b' : Bus π}, S b b' → ∀ l, S (b.request l) (b'.request l)
  clear : ∀ {b b' : Bus π}, S b b' → ∀ l, S (b.clear l) (b'.clear l)
  tick : ∀ {b b' : Bus π}, S b b' → ∀ cycle, S (b.tick cycle) (b'.tick cycle)
  agrees : ∀ {m m' : Machine π}, m.Alike S m' → P m → m.Agrees m'

namespace Lockstep
variable {π : Type} [HostDevice π] {P : Machine π → Prop} {S : Bus π → Bus π → Prop}
  {m m' : Machine π} {keep : Event → Bool} {seen seen' : Array Event}

/-! ### One cycle -/

theorem store (h : Lockstep P S) {b b' : Bus π} (hb : S b b') (ws : List Write) :
    S (b.store ws) (b'.store ws) := by
  induction ws generalizing b b' with
  | nil => exact hb
  | cons w ws ih => exact ih (h.write hb w.address w.value)

theorem acknowledge (h : Lockstep P S) {b b' : Bus π} (hb : S b b') (act : Activity) :
    S (Machine.acknowledge act b) (Machine.acknowledge act b') := by
  cases act with
  | execute i => exact hb
  | dispatch l => exact h.clear hb l

theorem stepCpu (h : Lockstep P S) (hm : m.Alike S m') (hP : P m) :
    m.stepCpu.Alike S m'.stepCpu := by
  have ha := h.agrees hm hP
  obtain ⟨hfail, hcpu⟩ := ha.stepCpu
  refine ⟨hfail, hcpu, ?_, ?_⟩
  · rw [Machine.cycles_stepCpu, Machine.cycles_stepCpu, hm.cycles]
  · rw [Machine.stepCpu_bus, Machine.stepCpu_bus, ha.begun]
    cases m.begun with
    | none => exact hm.bus
    | some w => exact h.store (h.acknowledge hm.bus w.act) w.writes

theorem tickBus (h : Lockstep P S) (hm : m.Alike S m') : m.tickBus.Alike S m'.tickBus := by
  refine ⟨hm.cpu, hm.cycles, ?_⟩
  rw [Machine.tickBus, Machine.tickBus, hm.cycles]
  exact h.tick hm.bus _

theorem moment (h : Lockstep P S) (t : Moment) (hm : m.Alike S m') (hP : ∀ s ∈ t.stages m, P s) :
    (t.run m).Alike S (t.run m') := by
  cases t with
  | cycle => exact h.stepCpu (h.tickBus hm.advance) (hP _ List.mem_cons_self)
  | request l => exact ⟨rfl, hm.cpu, hm.cycles, h.request hm.bus l⟩
  | write a v => exact ⟨rfl, hm.cpu, hm.cycles, h.write hm.bus a v⟩

/-! ### Runs -/

theorem follow (h : Lockstep P S) (T : List Moment) (hm : m.Alike S m')
    (hP : ∀ s ∈ Machine.collected Moment.run Moment.stages T m, P s) :
    (Machine.follow Moment.run keep T m seen).Alike S
      (Machine.follow Moment.run keep T m' seen') := by
  induction T generalizing m m' seen seen' with
  | nil => exact ⟨rfl, hm⟩
  | cons t T ih =>
    obtain ⟨hfirst, hrest⟩ := List.forall_mem_append.1 hP
    have hone := h.moment t hm hfirst
    rw [Machine.follow_cons, Machine.follow_cons, hone.failure]
    split
    · next hnone =>
      rw [if_pos hnone] at hrest
      exact ih hone.machine hrest
    · exact ⟨hone.failure, hone.machine⟩

/-- Operations of a host fail alike on machines that are alike, and leave them alike. -/
theorem run (h : Lockstep P S) (op : HostOp) (hm : m.Alike S m') (hP : ∀ s ∈ op.stages m, P s) :
    (op.run keep m).Alike S (op.run keep m') := by
  have hout (m : Machine π) : (op.run keep m).outcome =
      (Machine.follow Moment.run keep (op.moments m.cycles) m #[]).outcome :=
    Machine.outcome_run_moments op
  obtain ⟨hleft, hleft'⟩ := Prod.mk.inj (hout m)
  obtain ⟨hright, hright'⟩ := Prod.mk.inj (hout m')
  have hfollow : (Machine.follow Moment.run keep (op.moments m.cycles) m #[]).Alike S
      (Machine.follow Moment.run keep (op.moments m.cycles) m' #[]) := h.follow _ hm hP
  rw [hm.cycles] at hright hright'
  refine ⟨?_, ?_⟩
  · rw [hleft', hright', hfollow.failure]
  · rw [hleft, hright]
    exact hfollow.machine

/-! ### Dialogues -/

theorem answer (h : Lockstep P S) (c : Call) (hm : m.Alike S m') (hP : ∀ s ∈ c.stages m, P s)
    (hread : ∀ a, c = .read a → m'.read a = m.read a) :
    (c.answer m').1 = (c.answer m).1 ∧ (c.answer m).2.Alike S (c.answer m').2 := by
  cases c with
  | read a => exact ⟨congrArg Reply.byte (hread a rfl), hm⟩
  | operate op =>
    have hrun : (op.run (fun _ => false) m).Alike S (op.run (fun _ => false) m') := h.run op hm hP
    exact ⟨congrArg Reply.done hrun.failure, hrun.machine⟩
  | tick => exact ⟨rfl, h.tickBus hm.advance⟩
  | step =>
    have hstep := h.stepCpu hm.advance (hP _ List.mem_cons_self)
    exact ⟨congrArg Reply.done hstep.failure, hstep.machine⟩

/-- Where all bytes and the interrupt registers are equal, a host cannot tell the machines apart. -/
theorem dialogue (h : Lockstep (fun _ => True) S) (hread : ∀ {b b' : Bus π}, S b b' → b'.read = b.read)
    (hirq : ∀ {b b' : Bus π}, S b b' → b'.irq = b.irq) (calls : List Call) (hm : m.Alike S m') :
    m'.dialogue Machine.sight calls = m.dialogue Machine.sight calls := by
  induction calls generalizing m m' with
  | nil => rfl
  | cons c calls ih =>
    obtain ⟨hreply, hnext⟩ := h.answer c hm (fun _ _ => trivial) fun a _ => congrFun (hread hm.bus) a
    have hsight : (c.answer m').2.sight = (c.answer m).2.sight := by
      rw [Machine.sight, Machine.sight, hnext.cpu, hnext.cycles, hirq hnext.bus]
    rw [Machine.dialogue, Machine.dialogue, hreply, hsight, ih hnext]

end Lockstep

end Dmg
