import Dmg.Proofs.Course

/-! # A processor that works an activity at a time

The first step of an activity has all of its effect, and the steps that follow count down to its
completion and do nothing else (`Machine.stepsUnder_begun`). So a processor that begins and completes
each activity at once (`Machine.perform`) goes through the same states as one that is stepped, at the
boundaries of activities (`Machine.stepsUnder_of_worksUnder`), whatever lines are requested
meanwhile. -/

namespace Dmg

/-! ### Costs -/

/-- Whether the operation is a branch on a condition that holds. -/
def Op.diverts (f : Flags) : Op → Bool
  | .jp (some cond) | .jr (some cond) | .call (some cond) | .ret (some cond) => cond.holds f
  | _ => false

theorem Location.taken_put (l : Location) (v : UInt8) (regs : Registers) :
    (l.put v regs).taken = false := by
  cases l <;> rfl

theorem Op.taken_apply (op : Op) (mem : View) (imm : UInt16) (regs : Registers) :
    (op.apply mem imm regs).taken = op.diverts regs.flags := by
  cases op with
  | jp cond | jr cond | call cond | ret cond =>
    cases cond with
    | none => rfl
    | some cond => cases h : cond.holds regs.flags <;> simp [Op.apply, diverts, branches, h]
  | load dst src => exact Location.taken_put ..
  | inc o | dec o | shift s o | res b o | set b o => exact Location.taken_put ..
  | _ => rfl

theorem Cpu.toNat_cost_execute {cpu : Cpu} {i : Instruction} {mem : View} (h : i.Listed) :
    (cpu.execute i mem).cost.toNat =
      i.cycles.toNat + if i.op.diverts cpu.regs.flags then i.penalty.toNat else 0 := by
  have hle := h.cycles_le.2
  have htaken : (cpu.execute i mem).cost =
      if i.op.diverts cpu.regs.flags then i.cycles + i.penalty else i.cycles := by
    rw [execute, Op.taken_apply]
  rw [htaken]
  split
  · rw [UInt8.toNat_add, Nat.mod_eq_of_lt (by omega)]
  · rfl

/-- Whether the activity leaves the processor parked. -/
def Activity.parks : Activity → Bool
  | .execute i => i.op = .halt || i.op = .stop
  | .dispatch _ => false

theorem Cpu.phase_execute (cpu : Cpu) (i : Instruction) (mem : View) :
    (cpu.execute i mem).cpu.phase =
      if (Activity.execute i).parks then .halted else cpu.phase := by
  cases hop : i.op <;> simp [execute, Activity.parks, control, hop]

theorem Cpu.regs_complete (cpu : Cpu) (act : Activity) : (cpu.complete act).regs = cpu.regs := by
  cases act with
  | dispatch l => rfl
  | execute i => simp only [complete]; split <;> rfl

namespace Machine
variable {π : Type} [HostDevice π] {m m' : Machine π} {w : Work} {reqs : Nat → List Line}

/-- The machine is about to spend `c` cycles on the activity. -/
def Costs (m : Machine π) (act : Activity) (c : Nat) : Prop :=
  match act with
  | .dispatch l => m.cpu.pendingLine? m.bus.irq = some l ∧ c = 5
  | .execute i => m.cpu.pendingLine? m.bus.irq = none ∧ m.cpu.fetch m.bus.read = .ok i ∧
      c = i.cycles.toNat + if i.op.diverts m.cpu.regs.flags then i.penalty.toNat else 0

theorem costs_begun (h : m.begun = some w) : m.Costs w.act w.cost.toNat := by
  rcases work_eq_ok.1 (begun_eq_some.1 h).2 with ⟨l, hl, rfl⟩ | ⟨hl, i, hi, rfl⟩
  · exact ⟨hl, rfl⟩
  · exact ⟨hl, hi, Cpu.toNat_cost_execute (Cpu.fetch_listed hi)⟩

theorem begun_parks (h : m.begun = some w) :
    w.cpu.phase = if w.act.parks then .halted else .ready := by
  rcases work_eq_ok.1 (begun_eq_some.1 h).2 with ⟨l, -, rfl⟩ | ⟨-, i, -, rfl⟩
  · rfl
  · exact Cpu.phase_execute _ i _

/-! ### Requests -/

/-- Lines requested one after the other. -/
def requestAll (ls : List Line) (m : Machine π) : Machine π := ls.foldl request m

/-- The bits of some lines. -/
def bits (ls : List Line) : UInt8 := ls.foldr (fun l b => l.mask ||| b) 0

omit [HostDevice π] in
theorem requestAll_append (ls ls' : List Line) (m : Machine π) :
    requestAll (ls ++ ls') m = requestAll ls' (requestAll ls m) := List.foldl_append

omit [HostDevice π] in
/-- Requests add pending bits and do nothing else. -/
theorem requestAll_eq (ls : List Line) (m : Machine π) : requestAll ls m =
    { m with bus.irq.pending := m.bus.irq.pending ||| bits ls } := by
  induction ls generalizing m with
  | nil =>
    have hzero : m.bus.irq.pending ||| 0 = m.bus.irq.pending := UInt8.or_zero
    rw [bits, List.foldr_nil, hzero]
    rfl
  | cons l ls ih =>
    have hbits : bits (l :: ls) = l.mask ||| bits ls := rfl
    show requestAll ls (m.request l) = _
    rw [ih, hbits, ← UInt8.or_assoc]
    rfl

/-! ### Steps -/

/-- `n` steps of the processor, the lines of `reqs i` being requested after the one of number `i`. -/
def stepsUnder (reqs : Nat → List Line) : Nat → Machine π → Machine π
  | 0, m => m
  | n + 1, m => requestAll (reqs n) (stepsUnder reqs n m).step.machine

/-- What was requested in the first `n` steps. -/
def requested (reqs : Nat → List Line) (n : Nat) : List Line := (List.range n).flatMap reqs

theorem requested_succ (n : Nat) : requested reqs (n + 1) = requested reqs n ++ reqs n := by
  rw [requested, List.range_succ, List.flatMap_append, List.flatMap_singleton, requested]

theorem stepsUnder_add (n k : Nat) : stepsUnder reqs (n + k) m =
    stepsUnder (fun i => reqs (n + i)) k (stepsUnder reqs n m) := by
  induction k with
  | zero => rfl
  | succ k ih =>
    rw [← Nat.add_assoc, stepsUnder, stepsUnder, ih]

/-- The machine when it has spent `i` cycles on the work `w` that it began. -/
def amid (m : Machine π) (w : Work) (i : Nat) : Machine π where
  cpu := if i < w.cost.toNat
    then { w.cpu with phase := .busy w.act (.ofNat (w.cost.toNat - i)) }
    else w.cpu.complete w.act
  bus := (acknowledge w.act m.bus).store w.writes
  cycles := m.cycles + .ofNat i

theorem ofNat_succ_sub_one (k : Nat) : (.ofNat (k + 1) - 1 : UInt8) = .ofNat k := by
  apply UInt8.toNat_inj.1
  rw [UInt8.toNat_sub, UInt8.toNat_ofNat', UInt8.toNat_ofNat']
  show (256 - 1 + _) % 256 = _
  omega

theorem step_begun (h : m.begun = some w) : m.step.machine = m.amid w 1 := by
  have hbegun : m.advance.begun = some w := h
  have h1 : w.cost > 1 ↔ 1 < w.cost.toNat := UInt8.lt_iff_toNat_lt
  have hle := (begun_cost h).2
  have hcpu : w.cpu.settle w.act w.cost = (m.amid w 1).cpu := by
    by_cases hc : w.cost > 1
    · have hpos := h1.1 hc
      obtain ⟨k, hk⟩ : ∃ k, w.cost.toNat = k + 1 := ⟨w.cost.toNat - 1, by omega⟩
      have hsub : w.cost - 1 = .ofNat (w.cost.toNat - 1) := by
        rw [hk, Nat.add_sub_cancel, ← ofNat_succ_sub_one, ← hk, UInt8.ofNat_toNat]
      rw [Cpu.settle, if_pos ⟨hc, begun_ready h hc⟩, amid, if_pos (h1.1 hc), hsub]
    · rw [Cpu.settle, if_neg (fun h => hc h.1), amid, if_neg (mt h1.2 hc)]
  rw [step, (stepCpu_begun hbegun).1, hcpu]
  rfl

theorem step_amid (h : m.begun = some w) {i : Nat} (hi' : 1 ≤ i) (hi : i < w.cost.toNat)
    (ls : List Line) :
    (requestAll ls (m.amid w i)).step.machine = requestAll ls (m.amid w (i + 1)) := by
  have hle := (begun_cost h).2
  have hready : w.cpu.phase = .ready := begun_ready h (UInt8.lt_iff_toNat_lt.2 (by
    show 1 < w.cost.toNat
    omega))
  obtain ⟨k, hk⟩ : ∃ k, w.cost.toNat - i = k + 1 := ⟨w.cost.toNat - i - 1, by omega⟩
  have hbusy : (m.amid w i).cpu = { w.cpu with phase := .busy w.act (.ofNat (k + 1)) } := by
    rw [amid, if_pos hi, hk]
  have hcpu : (m.amid w i).cpu.countDown w.act (.ofNat (k + 1)) = (m.amid w (i + 1)).cpu := by
    have h1 := one_lt_ofNat (k := k + 1) (by omega)
    rw [hbusy, Cpu.countDown]
    by_cases hlast : 0 < k
    · rw [if_pos (h1.2 (by omega)), amid, if_pos (by omega), ofNat_succ_sub_one,
        show w.cost.toNat - (i + 1) = k by omega]
    · have hself : { w.cpu with phase := .ready } = w.cpu := by rw [← hready]
      rw [if_neg (mt h1.1 (by omega)), amid, if_neg (by omega), hself]
  have hphase : (requestAll ls (m.amid w i)).advance.cpu.phase = .busy w.act (.ofNat (k + 1)) := by
    rw [requestAll_eq]
    exact congrArg Cpu.phase hbusy
  have hcycles : m.cycles + .ofNat i + 1 = m.cycles + .ofNat (i + 1) := by
    rw [UInt64.ofNat_add, ← UInt64.add_assoc]
    rfl
  rw [step, stepCpu_busy hphase, requestAll_eq, requestAll_eq, ← hcpu]
  exact congrArg (Machine.mk _ _) hcycles

/-- The first step of work has all of its effect; the next ones count down, and requests add
pending bits. -/
theorem stepsUnder_begun (h : m.begun = some w) {i : Nat} (hi : 1 ≤ i) (hc : i ≤ w.cost.toNat) :
    stepsUnder reqs i m = requestAll (requested reqs i) (m.amid w i) := by
  induction i, hi using Nat.le_induction with
  | base =>
    rw [stepsUnder, stepsUnder, step_begun h, requested_succ]
    rfl
  | succ i hi ih =>
    rw [stepsUnder, ih (by omega), step_amid h hi (by omega), requested_succ, requestAll_append]

/-! ### Works -/

/-- The machine once it has begun and completed the work. -/
def perform (m : Machine π) (w : Work) : Machine π where
  cpu := w.cpu.complete w.act
  bus := (acknowledge w.act m.bus).store w.writes
  cycles := m.cycles + .ofNat w.cost.toNat

/-- `k` works, each performed at once and followed by what is requested during its cycles; the cycles
of all, and the machine. There is none if one of the works cannot begin. -/
def worksUnder (reqs : Nat → List Line) : Nat → Machine π → Option (Nat × Machine π)
  | 0, m => some (0, m)
  | k + 1, m =>
    (worksUnder reqs k m).bind fun (n, m) => m.begun.map fun w =>
      (n + w.cost.toNat, requestAll (requested (fun i => reqs (n + i)) w.cost.toNat) (m.perform w))

theorem amid_cost (m : Machine π) (w : Work) : m.amid w w.cost.toNat = m.perform w := by
  rw [amid, perform, if_neg (Nat.lt_irrefl _)]

/-- At the end of each of its works, a machine that is stepped is as one that performs them at
once. -/
theorem stepsUnder_of_worksUnder (k : Nat) {n : Nat} (h : worksUnder reqs k m = some (n, m')) :
    stepsUnder reqs n m = m' := by
  induction k generalizing n m' with
  | zero =>
    cases h
    rfl
  | succ k ih =>
    obtain ⟨⟨n, m₁⟩, hk, hw⟩ := Option.bind_eq_some_iff.1 h
    obtain ⟨w, hbegun, hm'⟩ := Option.map_eq_some_iff.1 hw
    cases hm'
    rw [stepsUnder_add, ih hk, stepsUnder_begun hbegun (begun_cost hbegun).1 (Nat.le_refl _),
      amid_cost]

/-- The steps of a machine that spends `c` cycles on the activity it begins: the first has all of the
effect, and the ones after it count down. -/
structure Spends (m : Machine π) (reqs : Nat → List Line) (act : Activity) (c : Nat) : Prop where
  pos : 1 ≤ c
  /-- What the step number `i` finds after the first. -/
  stage : ∀ i, 1 ≤ i → i < c →
    (stepsUnder reqs i m).cpu = { m.step.machine.cpu with phase := .busy act (.ofNat (c - i)) }
  /-- What it does. -/
  waits : ∀ i, 1 ≤ i → i < c → let mᵢ := stepsUnder reqs i m
    mᵢ.step.machine.cpu.regs = mᵢ.cpu.regs ∧ mᵢ.step.machine.bus = mᵢ.bus ∧
    (i + 1 < c → mᵢ.step.machine.cpu.ime = mᵢ.cpu.ime)
  /-- The requests that come meanwhile add pending bits to what the first step left. -/
  bus : ∀ i, 1 ≤ i → i ≤ c → (stepsUnder reqs i m).bus = { m.step.machine.bus with
    irq.pending := m.step.machine.bus.irq.pending ||| bits (requested reqs i) }
  ends : (stepsUnder reqs c m).cpu.phase = if act.parks then .halted else .ready

theorem spends_begun (h : m.begun = some w) : m.Spends reqs w.act w.cost.toNat := by
  have hpos := (begun_cost h).1
  have hfirst := step_begun h
  have hregs (i : Nat) : (m.amid w i).cpu.regs = w.cpu.regs := by
    rw [amid]
    dsimp only
    split
    · rfl
    · exact Cpu.regs_complete _ _
  have hbusy {i : Nat} (hi : i < w.cost.toNat) : (m.amid w i).cpu =
      { w.cpu with phase := .busy w.act (.ofNat (w.cost.toNat - i)) } := by
    rw [amid, if_pos hi]
  refine ⟨hpos, fun i hi hc => ?_, fun i hi hc => ?_, fun i hi hc => ?_, ?_⟩
  · rw [stepsUnder_begun h hi (by omega), requestAll_eq, hfirst]
    dsimp only
    rw [hbusy hc, hbusy (by omega : 1 < w.cost.toNat)]
  · dsimp only
    rw [stepsUnder_begun h hi (by omega), step_amid h hi hc, requestAll_eq, requestAll_eq]
    refine ⟨(hregs _).trans (hregs _).symm, rfl, fun hlast => ?_⟩
    show (m.amid w (i + 1)).cpu.ime = (m.amid w i).cpu.ime
    rw [hbusy hlast, hbusy hc]
  · rw [stepsUnder_begun h hi hc, requestAll_eq, hfirst]
    rfl
  · rw [stepsUnder_begun h hpos (Nat.le_refl _), amid_cost, requestAll_eq, ← begun_parks h]
    exact Cpu.phase_complete _ _

/-- What a free processor starts without failing takes effect at once and occupies it for its cost, so
that it goes from work to work as one that performs them at once. -/
theorem refines_atomic (m : Machine π) (reqs : Nat → List Line) :
    (m.Free → m.step.failure = none → ∃ act c, m.Costs act c ∧ m.Spends reqs act c) ∧
    ∀ k n m', worksUnder reqs k m = some (n, m') → stepsUnder reqs n m = m' := by
  refine ⟨fun hf hs => ?_, fun k n m' h => stepsUnder_of_worksUnder k h⟩
  cases hw : m.work with
  | ok w =>
    have hbegun := begun_of_work hf hw
    exact ⟨w.act, _, costs_begun hbegun, spends_begun hbegun⟩
  | error e =>
    have hfail : m.step.failure = some e := (stepCpu_refused (m := m.advance) hf hw).2
    rw [hfail] at hs
    cases hs

/-- JR NZ taken, and then HALT: three cycles and one, with a request made after the second of them. -/
theorem refines_atomic_jr : let m := ofProgram [0x20, 0x00, 0x76]
    let reqs := fun i => if i = 1 then [Line.timer] else []
    m.Free ∧ m.step.failure = none ∧ (∃ act c, m.Costs act c ∧ m.Spends reqs act c) ∧
    ∃ m', worksUnder reqs 2 m = some (4, m') ∧ stepsUnder reqs 4 m = m' ∧
      m'.cpu.phase = .halted ∧ m'.bus.irq.pending = Line.timer.mask := by
  obtain ⟨hspends, hworks⟩ := refines_atomic (ofProgram [0x20, 0x00, 0x76])
    (fun i => if i = 1 then [Line.timer] else [])
  exact ⟨.inl rfl, rfl, hspends (.inl rfl) rfl, _, rfl, hworks 2 4 _ rfl, rfl, rfl⟩

end Machine

end Dmg
