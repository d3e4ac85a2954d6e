import Dmg.Proofs.Atomic
import Dmg.Proofs.Divider

/-! # What holds of a handheld at all times

`Machine.InService` is a handheld wherever attaching devices, writes, requests and cycles have led
it. In all of these states its registers hold no bits that do not exist, and the processor is busy
only with what can keep it busy, for less than its cost (`Machine.Coherent`).

A cycle reaches processor and bus apart: the bus is what the deeds of the cycle make of it, and the
processor takes one step. -/

namespace Dmg

/-! ### The processor -/

/-- The most cycles an activity can cost. -/
def Activity.longest : Activity → Nat
  | .execute i => i.cycles.toNat + i.penalty.toNat
  | .dispatch _ => 5

structure Cpu.Coherent (cpu : Cpu) : Prop where
  /-- The low nibble of F does not exist. -/
  flags : cpu.regs.f &&& 0x0F = 0
  remaining : ∀ act n, cpu.phase = .busy act n → 1 ≤ n ∧ n ≤ 5 ∧ n.toNat < act.longest
  executing : ∀ i n, cpu.phase = .busy (.execute i) n →
    i.Listed ∧ i.op ≠ .ei ∧ i.op ≠ .halt ∧ i.op ≠ .stop
  dispatching : ∀ l n, cpu.phase = .busy (.dispatch l) n → cpu.ime = false ∧ cpu.eiArmed = false
  halted : cpu.phase = .halted → cpu.eiArmed = false

theorem Flags.toByte_and (f : Flags) : f.toByte &&& 0x0F = 0 := by
  rcases f with ⟨_ | _, _ | _, _ | _, _ | _⟩ <;> decide

theorem Cpu.coherent_of_not_busy {cpu : Cpu} (h : ∀ act n, cpu.phase ≠ .busy act n)
    (ha : cpu.phase = .halted → cpu.eiArmed = false) : cpu.Coherent where
  flags := Flags.toByte_and _
  remaining act n hp := absurd hp (h act n)
  executing _ n hp := absurd hp (h _ n)
  dispatching _ n hp := absurd hp (h _ n)
  halted := ha

/-- Being busy asks that it be with what can keep a processor busy, for less than its cost. -/
theorem Cpu.coherent_of_busy {cpu : Cpu} {act : Activity} {n : UInt8} (h : cpu.phase = .busy act n)
    (hn : 1 ≤ n ∧ n ≤ 5 ∧ n.toNat < act.longest)
    (hexecute : ∀ i, act = .execute i → i.Listed ∧ i.op ≠ .ei ∧ i.op ≠ .halt ∧ i.op ≠ .stop)
    (hdispatch : ∀ l, act = .dispatch l → cpu.ime = false ∧ cpu.eiArmed = false) : cpu.Coherent := by
  have hbusy {act' : Activity} {n' : UInt8} (hp : cpu.phase = .busy act' n') : act = act' ∧ n = n' := by
    rw [h] at hp
    cases hp
    exact ⟨rfl, rfl⟩
  refine ⟨Flags.toByte_and _, fun act' n' hp => ?_, fun i n' hp => hexecute i (hbusy hp).1,
    fun l n' hp => hdispatch l (hbusy hp).1, fun hp => ?_⟩
  · obtain ⟨rfl, rfl⟩ := hbusy hp
    exact hn
  · rw [h] at hp
    cases hp

/-- Being ready asks nothing of a processor. -/
theorem Cpu.coherent_of_ready {cpu : Cpu} (h : cpu.phase = .ready) : cpu.Coherent := by
  refine Cpu.coherent_of_not_busy (fun act n hp => ?_) (fun hp => ?_)
  · rw [h] at hp
    cases hp
  · rw [h] at hp
    cases hp

/-- An activity that ends with the processor parked leaves no EI waiting. -/
theorem Cpu.eiArmed_complete {cpu : Cpu} {i : Instruction} (h : i.op ≠ .ei) :
    (cpu.complete (.execute i)).eiArmed = false := by
  rw [complete]
  split
  · rfl
  · next hne => simpa [h] using hne

namespace Machine
variable {π : Type} [HostDevice π] {m : Machine π} {w : Work}

theorem cost_le_longest (h : m.begun = some w) : w.cost.toNat ≤ w.act.longest := by
  have hcosts := costs_begun h
  cases hact : w.act with
  | dispatch l =>
    rw [hact] at hcosts
    exact Nat.le_of_eq hcosts.2
  | execute i =>
    rw [hact] at hcosts
    rw [hcosts.2.2, Activity.longest]
    split <;> omega

/-- What takes more than a cycle neither parks the processor nor arms the enable. -/
theorem begun_executes {i : Instruction} (h : m.begun = some w) (hact : w.act = .execute i)
    (hc : w.cost > 1) : i.Listed ∧ i.op ≠ .ei ∧ i.op ≠ .halt ∧ i.op ≠ .stop := by
  have hcosts := costs_begun h
  rw [hact] at hcosts
  obtain ⟨-, hfetch, hcost⟩ := hcosts
  have hlisted := Cpu.fetch_listed hfetch
  have h1 : 1 < w.cost.toNat := UInt8.lt_iff_toNat_lt.1 hc
  -- Each of the three costs one cycle, and is no branch.
  have hno (hop : i.op = .halt ∨ i.op = .stop ∨ i.op = .ei) : False := by
    have hcycles := hlisted.cycles_eq_one hop
    have hdiverts : i.op.diverts m.cpu.regs.flags = false := by
      rcases hop with hop | hop | hop <;> rw [hop] <;> rfl
    rw [hcycles, hdiverts] at hcost
    have hone : w.cost.toNat = 1 := hcost
    omega
  exact ⟨hlisted, fun h => hno (.inr (.inr h)), fun h => hno (.inl h), fun h => hno (.inr (.inl h))⟩

/-- A step that begins work is busy with it, or completes it at once. -/
theorem coherent_settle (h : m.begun = some w) : (w.cpu.settle w.act w.cost).Coherent := by
  have hle := (begun_cost h).2
  by_cases hc : w.cost > 1
  · have hready := begun_ready h hc
    have hlong := cost_le_longest h
    have hsub : (w.cost - 1).toNat = w.cost.toNat - 1 :=
      UInt8.toNat_sub_of_le _ _ (UInt8.le_of_lt hc)
    have h1 : 1 < w.cost.toNat := UInt8.lt_iff_toNat_lt.1 hc
    rw [Cpu.settle, if_pos ⟨hc, hready⟩]
    refine Cpu.coherent_of_busy rfl ⟨?_, ?_, by omega⟩ (fun i hact => begun_executes h hact hc)
      fun l hact => ?_
    · rw [UInt8.le_iff_toNat_le, hsub]
      show 1 ≤ _
      omega
    · rw [UInt8.le_iff_toNat_le, hsub]
      show _ ≤ 5
      omega
    · rcases work_eq_ok.1 (begun_eq_some.1 h).2 with ⟨l', -, rfl⟩ | ⟨-, i, -, rfl⟩
      · exact ⟨rfl, rfl⟩
      · cases hact
  · rw [Cpu.settle, if_neg (fun h => hc h.1)]
    have hparks := begun_parks h
    rw [← Cpu.phase_complete w.cpu w.act] at hparks
    cases hact : w.act with
    | dispatch l =>
      rw [hact] at hparks
      exact Cpu.coherent_of_ready hparks
    | execute i =>
      rw [hact] at hparks
      split at hparks
      · next hpark =>
        have hei : i.op ≠ .ei := by
          intro hop
          simp [Activity.parks, hop] at hpark
        refine Cpu.coherent_of_not_busy (fun act n hp => ?_) fun _ => Cpu.eiArmed_complete hei
        rw [hparks] at hp
        cases hp
      · exact Cpu.coherent_of_ready hparks

theorem coherent_countDown {cpu : Cpu} {act : Activity} {n : UInt8} (h : cpu.Coherent)
    (hp : cpu.phase = .busy act n) : (cpu.countDown act n).Coherent := by
  rw [Cpu.countDown]
  split
  · next hn =>
    obtain ⟨h1, h5, hlong⟩ := h.remaining act n hp
    have hsub : (n - 1).toNat = n.toNat - 1 := UInt8.toNat_sub_of_le _ _ h1
    have hlt : 1 < n.toNat := UInt8.lt_iff_toNat_lt.1 hn
    refine Cpu.coherent_of_busy rfl ⟨?_, ?_, by omega⟩ (fun i hact => h.executing i n (hact ▸ hp))
      fun l hact => h.dispatching l n (hact ▸ hp)
    · rw [UInt8.le_iff_toNat_le, hsub]
      show 1 ≤ _
      omega
    · exact UInt8.le_trans (UInt8.le_iff_toNat_le.2 (by omega)) h5
  · exact Cpu.coherent_of_ready (Cpu.phase_complete _ _)

theorem coherent_stepCpu (h : m.cpu.Coherent) : m.stepCpu.machine.cpu.Coherent := by
  rcases m.step_cases with ⟨act, n, hp⟩ | ⟨hp, ha⟩ | ⟨w, hw⟩ | ⟨hf, e, he⟩
  · rw [stepCpu_busy hp]
    exact coherent_countDown h hp
  · rw [stepCpu_idle hp ha]
    exact h
  · rw [(stepCpu_begun hw).1]
    exact coherent_settle hw
  · rw [(stepCpu_refused hf he).1]
    exact Cpu.coherent_of_ready rfl

end Machine

/-! ### The bus -/

theorem Timer.tac_undergo {t : Timer} (h : t.tac < 8) (d : Deed) : (t.undergo d).tac < 8 := by
  cases d with
  | tick =>
    rw [undergo, tac_tick]
    exact h
  | serve l => exact h
  | request l => exact h
  | write w =>
    have hmask (v : UInt8) : v &&& 7 < 8 := by
      rw [UInt8.lt_iff_toNat_lt, UInt8.toNat_and]
      exact Nat.and_lt_two_pow (n := 3) _ (by decide)
    show (t.write w.address w.value).tac < 8
    rw [write_eq, countEdge_fst]
    show (t.stored (.write w.address w.value)).tac < 8
    rcases t.stored_write w.address w.value with ⟨-, hs⟩ | ⟨-, hs | hs | hs | hs⟩ <;> rw [hs]
    · exact h
    · exact h
    · exact h
    · exact hmask w.value
    · exact h

theorem Timer.aligned_undergo {t : Timer} (h : t.Aligned) (d : Deed) : (t.undergo d).Aligned := by
  cases d with
  | tick => exact h.apply .tick
  | serve l => exact h
  | request l => exact h
  | write w => exact h.apply (.write w.address w.value)

theorem Bus.narrow_tickDevices {π : Type} [HostDevice π] (cycle : UInt64) (ds : List (Device π))
    {irq : Interrupts} (h : irq.Narrow) : (tickDevices cycle ds irq).2.Narrow := by
  induction ds generalizing irq with
  | nil => exact h
  | cons d ds ih =>
    refine ih ?_
    cases d with
    | host p => exact HostDevice.narrow_tick p cycle irq h
    | timer t =>
      show (if t.tick.2 then irq.request .timer else irq).Narrow
      split
      · exact h.request .timer
      · exact h
    | _ => exact h

/-- The registers of a handheld's bus hold no bits that do not exist. -/
structure Bus.Coherent {π : Type} (bus : Bus π) : Prop where
  pending : bus.irq.pending < 32
  enabled : bus.irq.enabled < 32
  timer : ∃ overlay t, bus.Timed overlay t ∧ t.tac < 8 ∧ 4 ∣ t.counter.toNat

namespace Machine
variable {π : Type} [HostDevice π] {m : Machine π}

theorem coherent_apply (h : m.bus.Coherent) (d : Deed) : (d.apply m).bus.Coherent := by
  have hnarrow : m.bus.irq.Narrow := ⟨h.pending, h.enabled⟩
  have hirq : (d.apply m).bus.irq.Narrow := by
    cases d with
    | tick => exact Bus.narrow_tickDevices _ _ hnarrow
    | serve l => exact hnarrow.clear l
    | request l => exact hnarrow.request l
    | write w => exact Bus.write_narrow hnarrow w.address w.value
  obtain ⟨overlay, t, ht, htac, haligned⟩ := h.timer
  exact ⟨hirq.pending, hirq.enabled, overlay, _, ht.apply d, Timer.tac_undergo htac d,
    Timer.aligned_undergo haligned d⟩

theorem coherent_after (h : m.bus.Coherent) (D : List Deed) : (m.after D).bus.Coherent := by
  induction D generalizing m with
  | nil => exact h
  | cons d D ih => exact ih (coherent_apply h d)

/-! ### The whole machine -/

structure Coherent (m : Machine π) : Prop where
  cpu : m.cpu.Coherent
  bus : m.bus.Coherent

/-- A handheld at any time: devices may be attached to it, its host writes and requests, and cycles
pass, whether they fail or not. -/
inductive InService : Machine π → Prop
  | made {cartridge : Cartridge} {boot : Option (Array UInt8)} {m : Machine π} :
    (handheld cartridge boot).machine = .ok m → InService m
  | attach {m : Machine π} (d : Device π) : InService m → InService (m.attach d).machine
  | write {m : Machine π} (a : UInt16) (v : UInt8) : InService m → InService (m.write a v).machine
  | request {m : Machine π} (l : Line) : InService m → InService (m.request l)
  | cycle {m : Machine π} : InService m → InService m.cycle.machine

theorem InService.session {m₀ : Machine π} {W : List Write} (h : m₀.InService)
    (hs : Session m₀ W m) : m.InService := by
  induction hs with
  | start => exact h
  | write a v _ ih => exact ih.write a v
  | request l _ ih => exact ih.request l
  | cycle _ ih => exact ih.cycle

theorem InService.mapped [RequestsOnly π] (h : m.InService) :
    ∃ overlay n W, m.bus.Mapped overlay n W := by
  induction h with
  | made h =>
    obtain ⟨overlay, hw, -⟩ := devices_of_handheld h
    exact ⟨overlay, 0, [], hw⟩
  | attach d _ ih =>
    obtain ⟨overlay, n, W, hw⟩ := ih
    exact ⟨overlay, n + 1, W, hw.attach d⟩
  | write a v _ ih =>
    obtain ⟨overlay, n, W, hw⟩ := ih
    exact ⟨overlay, n, _, hw.write ⟨a, v⟩⟩
  | request l _ ih =>
    obtain ⟨overlay, n, W, hw⟩ := ih
    exact ⟨overlay, n, W, hw.request l⟩
  | cycle _ ih =>
    obtain ⟨overlay, n, W, hw⟩ := ih
    exact ⟨overlay, n, _, hw.cycle⟩

omit [HostDevice π] in
theorem coherent_handheld {cartridge : Cartridge} {boot : Option (Array UInt8)}
    (h : (handheld cartridge boot).machine = .ok m) : m.Coherent := by
  obtain ⟨overlay, -, hds⟩ := devices_of_handheld h
  unfold handheld at h
  cases ho : BootOverlay.ofImage cartridge boot with
  | error e =>
    rw [ho] at h
    cases h
  | ok overlay' =>
    rw [ho] at h
    cases h
    rw [attachAll_machine, attachAll_machine] at hds ⊢
    refine ⟨Cpu.coherent_of_ready rfl, ?_, ?_, overlay, {}, ⟨[], [], hds⟩, ?_, ?_⟩
    · show (0 : UInt8) < 32
      decide
    · show (0 : UInt8) < 32
      decide
    · show (0 : UInt8) < 8
      decide
    · exact Nat.dvd_zero 4

theorem coherent_of_inService (h : m.InService) : m.Coherent := by
  induction h with
  | made h => exact coherent_handheld h
  | attach d _ ih =>
    obtain ⟨overlay, t, ⟨W, others, hds⟩, ht⟩ := ih.bus.timer
    refine ⟨ih.cpu, ih.bus.pending, ih.bus.enabled, overlay, t, ⟨W, others ++ [d], ?_⟩, ht⟩
    show _ ++ [d] = _
    rw [hds]
    rfl
  | write a v _ ih => exact ⟨ih.cpu, coherent_apply ih.bus (.write ⟨a, v⟩)⟩
  | request l _ ih => exact ⟨ih.cpu, coherent_apply ih.bus (.request l)⟩
  | @cycle m _ ih =>
    refine ⟨coherent_stepCpu ih.cpu, ?_⟩
    rw [bus_cycle]
    exact coherent_after ih.bus _

/-- A handheld is coherent at all times, and so after whatever operations of its host. -/
theorem InService.coherent (h : m.InService) :
    m.Coherent ∧ ∀ keep ops, (m.operate keep ops).Coherent :=
  ⟨coherent_of_inService h, fun keep ops =>
    coherent_of_inService (h.session (session_operate keep ops m))⟩

/-- A cartridge that starts with a CALL, the longest of instructions: after a cycle five are to
come. -/
theorem coherent_amid_call : ∃ core : Machine Probe,
    (handheld ⟨⟨(Vector.replicate romSize 0).set 0x0100 0xCD (by decide)⟩⟩ none).machine = .ok core ∧
    core.cycle.machine.InService ∧
    (∃ i, i.op = .call none ∧ core.cycle.machine.cpu.phase = .busy (.execute i) 5) ∧
    core.cycle.machine.Coherent := by
  obtain ⟨core, hcore, i, hop, hphase⟩ : ∃ core : Machine Probe,
      (handheld ⟨⟨(Vector.replicate romSize 0).set 0x0100 0xCD (by decide)⟩⟩ none).machine =
        .ok core ∧
      ∃ i, i.op = .call none ∧ core.cycle.machine.cpu.phase = .busy (.execute i) 5 :=
    ⟨_, rfl, ⟨.call none, 0xCD, false, 3, 6, 0⟩, rfl, by decide +kernel⟩
  have hs : core.cycle.machine.InService := (InService.made hcore).cycle
  exact ⟨core, hcore, hs, ⟨i, hop, hphase⟩, hs.coherent.1⟩

end Machine

end Dmg
