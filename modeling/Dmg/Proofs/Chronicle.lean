import Dmg.Proofs.Session

/-! # What a bus goes through

All that ever happens to the bus of a machine is a `Deed`: the devices tick, a line is acknowledged
on the way to its handler, a byte is written, a line is requested. The deeds of an operation are
listed in order by `HostOp.deeds`, those of several by `Machine.deeds`, down to the single writes of
an instruction. Bus and counter are the fold of the deeds (`Machine.follows_operate`), whatever
processor made them. -/

namespace Dmg

inductive Deed where
  /-- A cycle begins, and the devices tick. -/
  | tick
  /-- The processor acknowledges the line that it goes on to serve. -/
  | serve (l : Line)
  | write (w : Write)
  | request (l : Line)
deriving DecidableEq

/-- What the beginning of an activity does to the bus, apart from its writes. -/
def Activity.deeds : Activity → List Deed
  | .dispatch l => [.serve l]
  | .execute _ => []

namespace Deed
variable {π : Type} [HostDevice π]

/-- The machine after a deed, its processor left aside. -/
def apply (m : Machine π) : Deed → Machine π
  | .tick => m.advance.tickBus
  | .serve l => m.clear l
  | .write w => (m.write w.address w.value).machine
  | .request l => m.request l

end Deed

namespace Machine
variable {π : Type} [HostDevice π] {m m' m₁ m₂ : Machine π} {D D' : List Deed}
  {keep : Event → Bool} {seen : Array Event}

/-- The machine after some deeds, its processor left aside. -/
def after (m : Machine π) (D : List Deed) : Machine π := D.foldl Deed.apply m

/-- The deeds of the next step of the processor. -/
def stepDeeds (m : Machine π) : List Deed :=
  match m.begun with
  | some w => w.act.deeds ++ w.writes.map .write
  | none => []

/-- The deeds of the next cycle. -/
def cycleDeeds (m : Machine π) : List Deed := .tick :: m.advance.tickBus.stepDeeds

end Machine

def Moment.deeds {π : Type} [HostDevice π] (t : Moment) (m : Machine π) : List Deed :=
  match t with
  | cycle => m.cycleDeeds
  | request l => [.request l]
  | write a v => [.write ⟨a, v⟩]

def HostOp.deeds {π : Type} [HostDevice π] (op : HostOp) (m : Machine π) : List Deed :=
  op.collected Moment.deeds m

namespace Machine
variable {π : Type} [HostDevice π] {m m' m₁ m₂ : Machine π} {D D' : List Deed}
  {keep : Event → Bool}

/-- The deeds of operations of the host. -/
def deeds (ops : List HostOp) (m : Machine π) : List Deed :=
  match ops with
  | [] => []
  | op :: ops => op.deeds m ++ deeds ops (op.run (fun _ => false) m).machine

/-- `m'` has the bus and the counter of `m` after the deeds, and the counter did not wrap. -/
structure Follows (m : Machine π) (D : List Deed) (m' : Machine π) : Prop where
  bus : m'.bus = (m.after D).bus
  cycles : m'.cycles.toNat = m.cycles.toNat + D.count .tick

/-! ### After some deeds -/

theorem after_append (m : Machine π) (D D' : List Deed) :
    m.after (D ++ D') = (m.after D).after D' :=
  List.foldl_append

theorem after_cons (m : Machine π) (d : Deed) (D : List Deed) :
    m.after (d :: D) = (d.apply m).after D := rfl

theorem after_concat (m : Machine π) (D : List Deed) (d : Deed) :
    m.after (D ++ [d]) = d.apply (m.after D) := by
  rw [after_append]
  rfl

theorem bus_write (m : Machine π) (a : UInt16) (v : UInt8) :
    (m.write a v).machine.bus = m.bus.write a v := rfl

theorem cycles_after (m : Machine π) (D : List Deed) :
    (m.after D).cycles = m.cycles + .ofNat (D.count .tick) := by
  induction D generalizing m with
  | nil => exact (UInt64.add_zero _).symm
  | cons d D ih =>
    rw [after_cons, ih]
    cases d with
    | tick =>
      rw [List.count_cons_self, Nat.add_comm, UInt64.ofNat_add, ← UInt64.add_assoc]
      rfl
    | serve l | write w | request l =>
      rw [List.count_cons_of_ne (by nofun)]
      rfl

/-- Deeds see of a machine its bus and its counter. -/
theorem bus_after_congr (hb : m.bus = m'.bus) (hc : m.cycles = m'.cycles) (D : List Deed) :
    (m.after D).bus = (m'.after D).bus := by
  induction D generalizing m m' with
  | nil => exact hb
  | cons d D ih =>
    rw [after_cons, after_cons]
    refine ih ?_ ?_
    · cases d <;> simp only [Deed.apply, tickBus, advance, clear, request, bus_write, hb, hc]
    · cases d <;> simp only [Deed.apply, tickBus, advance, clear, request, write, store, hc]

theorem bus_after_writes (m : Machine π) (ws : List Write) :
    (m.after (ws.map .write)).bus = m.bus.store ws := by
  induction ws generalizing m with
  | nil => rfl
  | cons w ws ih =>
    rw [List.map_cons, after_cons, ih]
    rfl

/-! ### The deeds of a cycle -/

theorem bus_stepCpu (m : Machine π) : m.stepCpu.machine.bus = (m.after m.stepDeeds).bus := by
  rw [stepCpu_bus, stepDeeds]
  cases m.begun with
  | none => rfl
  | some w =>
    show _ = (m.after (w.act.deeds ++ _)).bus
    rw [after_append, bus_after_writes]
    show (acknowledge w.act m.bus).store w.writes = _
    rcases w with ⟨l | i, ws, st⟩ <;> rfl

theorem tick_not_mem_stepDeeds (m : Machine π) : .tick ∉ m.stepDeeds := by
  unfold stepDeeds
  cases m.begun with
  | none => exact List.not_mem_nil
  | some w =>
    intro h
    rcases List.mem_append.1 h with h | h
    · cases hw : w.act <;> simp [hw, Activity.deeds] at h
    · simp at h

theorem count_cycleDeeds (m : Machine π) : m.cycleDeeds.count .tick = 1 := by
  rw [cycleDeeds, List.count_cons_self, List.count_eq_zero.2 (tick_not_mem_stepDeeds _)]

theorem bus_cycle (m : Machine π) : m.cycle.machine.bus = (m.after m.cycleDeeds).bus :=
  bus_stepCpu m.advance.tickBus

/-! ### The deeds of a run -/

namespace Follows

theorem refl (m : Machine π) : Follows m [] m := ⟨rfl, rfl⟩

theorem cycles_eq (h : Follows m D m') : m'.cycles = (m.after D).cycles := by
  have hlt := m'.cycles.toNat_lt
  have hc := h.cycles
  rw [cycles_after, ← UInt64.toNat_inj, toNat_add_ofNat (by omega), hc]

theorem trans (h : Follows m D m₁) (h' : Follows m₁ D' m₂) : Follows m (D ++ D') m₂ := by
  refine ⟨?_, ?_⟩
  · rw [h'.bus, after_append]
    exact bus_after_congr h.bus h.cycles_eq D'
  · rw [h'.cycles, h.cycles, List.count_append, Nat.add_assoc]

end Follows

theorem bus_moment (t : Moment) (m : Machine π) :
    (t.run m).machine.bus = (m.after (t.deeds m)).bus := by
  cases t with
  | cycle => exact bus_cycle m
  | request l => rfl
  | write a v => rfl

theorem count_moment (t : Moment) (m : Machine π) : (t.deeds m).count .tick = [t].count .cycle := by
  cases t with
  | cycle => exact count_cycleDeeds m
  | request l => rfl
  | write a v => rfl

theorem cycles_moment (t : Moment) (m : Machine π) :
    (t.run m).machine.cycles = (m.after (t.deeds m)).cycles := by
  rw [cycles_after, count_moment]
  cases t with
  | cycle => exact cycles_cycle m
  | request l => exact (UInt64.add_zero _).symm
  | write a v => exact (UInt64.add_zero _).symm

/-- There are no more ticks than cycles to come. -/
theorem count_collected_le (T : List Moment) (m : Machine π) :
    (collected Moment.run Moment.deeds T m).count .tick ≤ T.count .cycle := by
  induction T generalizing m with
  | nil => exact Nat.le_refl 0
  | cons t T ih =>
    show _ ≤ ([t] ++ T).count .cycle
    rw [collected, List.count_append, List.count_append, count_moment]
    refine Nat.add_le_add_left ?_ _
    split
    · exact ih _
    · exact Nat.zero_le _

theorem follows_run (op : HostOp) : Follows m (op.deeds m) (op.run keep m).machine := by
  obtain ⟨hbus, hcycles⟩ : (op.run keep m).machine.bus = (m.after (op.deeds m)).bus ∧
      (op.run keep m).machine.cycles = (m.after (op.deeds m)).cycles := by
    refine run_keeps (A := []) (I := fun D m' =>
      m'.bus = (m.after D).bus ∧ m'.cycles = (m.after D).cycles) ?_ ⟨rfl, rfl⟩ op
    rintro D m' t ⟨hbus, hcycles⟩
    rw [bus_moment, cycles_moment, after_append]
    exact ⟨bus_after_congr hbus hcycles _, by rw [cycles_after, hcycles, ← cycles_after]⟩
  refine ⟨hbus, ?_⟩
  have hle : (op.deeds m).count .tick ≤ (op.moments m.cycles).count .cycle := count_collected_le _ m
  have hfit := op.moments_fit m.cycles
  rw [hcycles, cycles_after, toNat_add_ofNat (by omega)]

theorem operate_cons (op : HostOp) (ops : List HostOp) :
    m.operate keep (op :: ops) = (op.run keep m).machine.operate keep ops := rfl

theorem deeds_cons (keep : Event → Bool) (op : HostOp) (ops : List HostOp) :
    m.deeds (op :: ops) = op.deeds m ++ (op.run keep m).machine.deeds ops := by
  have hout : (op.run (fun _ => false) m).outcome = (op.run keep m).outcome := outcome_run op
  rw [deeds, (Prod.mk.inj hout).1]

theorem deeds_append (keep : Event → Bool) (ops ops' : List HostOp) :
    m.deeds (ops ++ ops') = m.deeds ops ++ (m.operate keep ops).deeds ops' := by
  induction ops generalizing m with
  | nil => rfl
  | cons op ops ih =>
    rw [List.cons_append, deeds_cons keep, deeds_cons keep, ih, operate_cons, List.append_assoc]

/-- What becomes of bus and counter in operations of the host is told by the deeds. -/
theorem follows_operate (keep : Event → Bool) (ops : List HostOp) (m : Machine π) :
    Follows m (m.deeds ops) (m.operate keep ops) := by
  induction ops generalizing m with
  | nil => exact .refl m
  | cons op ops ih =>
    rw [deeds_cons keep, operate_cons]
    exact (follows_run op).trans (ih _)

end Machine

end Dmg
