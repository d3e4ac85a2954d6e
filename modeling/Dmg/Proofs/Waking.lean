import Dmg.Proofs.Arbitration
import Dmg.Proofs.Overflow
import Dmg.Proofs.Pieces
import Dmg.Proofs.Wiring

/-! # A halted handheld

While no line is active a halted processor does nothing, so the cycles of a handheld are those of its
devices (`Machine.iterate_cycle_of_idle`), and of these the timer alone changes. Its overflow is then
what wakes the processor, on the cycle in which it comes (`Machine.InUse.wakes_on_overflow`). -/

namespace Dmg

/-! ### The counter of a handheld -/

namespace Bus
variable {π : Type} [HostDevice π] {bus : Bus π}

/-- The timers on the bus are aligned. -/
def Aligned (bus : Bus π) : Prop := ∀ t, .timer t ∈ bus.devices → t.Aligned

theorem mem_tickDevices {cycle : UInt64} {ds : List (Device π)} {irq : Interrupts} {d' : Device π}
    (h : d' ∈ (tickDevices cycle ds irq).1) : ∃ d ∈ ds, ∃ irq', d' = (d.tick cycle irq').1 := by
  induction ds generalizing irq with
  | nil => exact absurd h List.not_mem_nil
  | cons d ds ih =>
    rcases List.mem_cons.1 h with rfl | h
    · exact ⟨d, List.mem_cons_self, irq, rfl⟩
    · obtain ⟨d₁, hd₁, irq', rfl⟩ := ih h
      exact ⟨d₁, List.mem_cons_of_mem _ hd₁, irq', rfl⟩

namespace Aligned

theorem write (h : bus.Aligned) (a : UInt16) (v : UInt8) : (bus.write a v).Aligned := by
  intro t ht
  obtain ⟨d, hd, hdt⟩ := List.mem_map.1 ht
  cases d with
  | timer s =>
    cases hdt
    exact (h s hd).apply (.write a v)
  | _ => cases hdt

theorem store (h : bus.Aligned) (ws : List Write) : (bus.store ws).Aligned := by
  induction ws generalizing bus with
  | nil => exact h
  | cons w ws ih => exact ih (h.write w.address w.value)

theorem tick (h : bus.Aligned) (cycle : UInt64) : (bus.tick cycle).Aligned := by
  intro t ht
  obtain ⟨d, hd, irq', hdt⟩ := mem_tickDevices ht
  cases d with
  | timer s =>
    cases hdt
    exact (h s hd).apply .tick
  | _ => cases hdt

theorem cycle {m : Machine π} (h : m.bus.Aligned) : m.cycle.machine.bus.Aligned := by
  rw [Machine.cycle_bus]
  refine store ?_ _
  split
  · rename_i w _
    cases w.act <;> exact h.tick _
  · exact h.tick _

theorem session {m₀ m : Machine π} {W : List Write} (h : m₀.bus.Aligned)
    (hs : Machine.Session m₀ W m) : m.bus.Aligned := by
  induction hs with
  | start => exact h
  | write a v _ ih => exact ih.write a v
  | request l _ ih => exact ih
  | cycle _ ih => exact ih.cycle

end Aligned

end Bus

namespace Machine
variable {π : Type} [HostDevice π] {m : Machine π} {keep : Event → Bool} {seen : Array Event}
  {overlay : BootOverlay} {W : List Write} {t : Timer} {k : Nat}

/-- A handheld without devices of the host, after whatever the host has done with it. -/
def InUse (m : Machine π) : Prop :=
  ∃ cartridge boot core keep ops, (handheld cartridge boot).machine = .ok core ∧
    m = core.operate keep ops

omit [HostDevice π] in
theorem devices_of_handheld {cartridge : Cartridge} {boot : Option (Array UInt8)}
    {core : Machine π} (h : (handheld cartridge boot).machine = .ok core) :
    ∃ overlay, core.bus.Mapped overlay 0 [] ∧ core.bus.devices = Bus.wiring overlay [] {} [] := by
  cases ho : BootOverlay.ofImage cartridge boot with
  | error e =>
    rw [handheld, ho] at h
    cases h
  | ok overlay =>
    obtain ⟨core', hcore', hwired⟩ := wired_handheld (π := π) ho
    obtain rfl : core = core' := by
      rw [h] at hcore'
      exact Except.ok.inj hcore'
    refine ⟨overlay, hwired [], ?_⟩
    rw [handheld, ho] at h
    cases h
    rw [attachAll_bus]
    rfl

/-- There is one timer in a handheld, and it is aligned. -/
theorem InUse.devices (h : m.InUse) (ht : .timer t ∈ m.bus.devices) :
    ∃ overlay W, m.bus.devices = Bus.wiring overlay W t [] ∧ t.Aligned := by
  obtain ⟨cartridge, boot, core, keep, ops, hcore, rfl⟩ := h
  obtain ⟨overlay, hwired, hnew⟩ := devices_of_handheld hcore
  have hs := session_operate keep ops core
  have haligned : core.bus.Aligned := by
    intro s hs
    rw [hnew] at hs
    obtain rfl : s = {} := by simpa [Bus.wiring] using hs
    exact Nat.dvd_zero 4
  obtain ⟨s, others, hds, hlen⟩ := (hwired.toWired.session hs).devices
  obtain rfl := List.eq_nil_of_length_eq_zero hlen
  have hmem := ht
  rw [hds] at hmem
  obtain rfl : t = s := by simpa [Bus.wiring] using hmem
  exact ⟨overlay, _, hds, haligned.session hs t ht⟩

/-! ### Cycles of the devices alone -/

/-- The machine after `k` cycles of its devices alone. -/
def ticks (k : Nat) (m : Machine π) : Machine π := (fun m => m.tick.machine)^[k] m

theorem ticks_succ (k : Nat) (m : Machine π) : ticks (k + 1) m = (ticks k m).tick.machine :=
  Function.iterate_succ_apply' _ _ _

theorem cpu_ticks (k : Nat) (m : Machine π) : (ticks k m).cpu = m.cpu := by
  induction k with
  | zero => rfl
  | succ k ih =>
    rw [ticks_succ]
    exact ih

theorem cycle_of_idle (hp : m.cpu.phase = .halted) (ha : m.tick.machine.bus.irq.active = 0) :
    m.cycle = m.tick :=
  stepCpu_idle (m := m.tick.machine) hp ha

/-- While no line becomes active a halted machine does no more than its devices. -/
theorem iterate_cycle_of_idle (hp : m.cpu.phase = .halted) (n : Nat)
    (h : ∀ j, 1 ≤ j → j ≤ n → (ticks j m).bus.irq.active = 0) :
    iterate cycle keep n m seen = { machine := ticks n m, events := seen } := by
  induction n with
  | zero => rfl
  | succ n ih =>
    have ih := ih fun j h1 hn => h j h1 (by omega)
    have hidle : (ticks n m).cycle = (ticks n m).tick := by
      refine cycle_of_idle (by rw [cpu_ticks]; exact hp) ?_
      rw [← ticks_succ]
      exact h (n + 1) (by omega) (by omega)
    rw [iterate_add, ih, Run.andThen_of_none rfl, iterate_one, collect, hidle, ticks_succ]
    simp [tick]

/-! ### The devices of a handheld -/

theorem tick_bus (h : m.bus.devices = Bus.wiring overlay W t []) : m.tick.machine.bus =
    { devices := Bus.wiring overlay W t.tick.1 []
      irq := if t.tick.2 then m.bus.irq.request .timer else m.bus.irq } := by
  have htick : m.tick.machine.bus = m.bus.tick (m.cycles + 1) := rfl
  rw [htick, Bus.tick, h]
  rfl

theorem devices_ticks (h : m.bus.devices = Bus.wiring overlay W t []) (k : Nat) :
    (ticks k m).bus.devices = Bus.wiring overlay W (Timer.ticks k t) [] := by
  induction k with
  | zero => exact h
  | succ k ih =>
    rw [ticks_succ, tick_bus ih, Timer.ticks_succ]
    rfl

theorem irq_ticks_succ (h : m.bus.devices = Bus.wiring overlay W t []) (k : Nat) :
    (ticks (k + 1) m).bus.irq = if (Timer.ticks k t).tick.2 then
      (ticks k m).bus.irq.request .timer else (ticks k m).bus.irq := by
  rw [ticks_succ, tick_bus (devices_ticks h k)]

theorem enabled_ticks (h : m.bus.devices = Bus.wiring overlay W t []) (k : Nat) :
    (ticks k m).bus.irq.enabled = m.bus.irq.enabled := by
  induction k with
  | zero => rfl
  | succ k ih =>
    rw [irq_ticks_succ h, ← ih]
    split <;> rfl

theorem irq_ticks_of_quiet (h : m.bus.devices = Bus.wiring overlay W t [])
    (hq : ∀ j < k, (Timer.ticks j t).tick.2 = false) : (ticks k m).bus.irq = m.bus.irq := by
  induction k with
  | zero => rfl
  | succ k ih =>
    have ih := ih fun j hj => hq j (by omega)
    rw [irq_ticks_succ h, hq k (by omega), ih]
    rfl

/-- A machine that differs from `m` at most in what a timer changes by itself: DIV, TIMA and the
pending lines. -/
structure Rests (m m' : Machine π) : Prop where
  cpu : m'.cpu = m.cpu
  enabled : m'.bus.irq.enabled = m.bus.irq.enabled
  read : ∀ a, a ≠ divAddress → a ≠ timaAddress → a ≠ ifAddress → m'.read a = m.read a

theorem rests_ticks (h : m.bus.devices = Bus.wiring overlay W t []) (k : Nat) :
    m.Rests (ticks k m) := by
  refine ⟨cpu_ticks k m, enabled_ticks h k, fun a hdiv htima hif => ?_⟩
  have hirq : (ticks k m).bus.irq.read a = m.bus.irq.read a := by
    simp only [Interrupts.read, if_neg hif, enabled_ticks h]
  have htimer : (Timer.ticks k t).read a = t.read a := by
    simp only [Timer.read, if_neg hdiv, if_neg htima, Timer.tma_ticks, Timer.tac_ticks]
  show (ticks k m).bus.read a = m.bus.read a
  rw [Bus.read, Bus.read, devices_ticks h, h]
  simp only [Bus.wiring, List.findSome?_cons, Device.read, hirq, htimer]

/-! ### Waking -/

end Machine

namespace Interrupts
variable {i : Interrupts}

theorem active_request_timer (ha : i.active = 0) :
    (i.request .timer).active = Line.timer.mask &&& i.enabled := by
  have hor : (i.request .timer).active = i.active ||| Line.timer.mask &&& i.enabled :=
    UInt8.toBitVec_inj.1 BitVec.and_or_distrib_right
  rw [hor, ha, UInt8.zero_or]

/-- The timer's request is active if and only if its line is enabled. -/
theorem timer_and_enabled (e : UInt8) :
    Line.timer.mask &&& e = if e &&& 4 = 0 then 0 else Line.timer.mask := by
  have key : ∀ n : Fin 256, Line.timer.mask &&& (.ofNat n : UInt8) =
      if (.ofNat n : UInt8) &&& 4 = 0 then 0 else Line.timer.mask := by decide +kernel
  simpa using key ⟨e.toNat, e.toNat_lt⟩

end Interrupts

namespace Machine
variable {π : Type} [HostDevice π] {m : Machine π} {keep : Event → Bool} {seen : Array Event}
  {overlay : BootOverlay} {W : List Write} {t : Timer} {k : Nat}

/-- A halted machine with the devices of a handheld, no line of which is active or owed. -/
structure Sleeps (m : Machine π) (overlay : BootOverlay) (W : List Write) (t : Timer) : Prop where
  devices : m.bus.devices = Bus.wiring overlay W t []
  aligned : t.Aligned
  halted : m.cpu.phase = .halted
  inactive : m.bus.irq.active = 0
  settled : t.overflowed = false

namespace Sleeps

/-- The interrupt registers stay as they are up to the overflow. -/
theorem irq_ticks (h : m.Sleeps overlay W t) (hr : t.tac.toNat.testBit 2 = true)
    (hk : k < t.untilOverflow) : (ticks k m).bus.irq = m.bus.irq := by
  refine irq_ticks_of_quiet h.devices fun j hj => ?_
  have hnot := mt (Timer.requests_iff (k := j) h.aligned hr h.settled (by omega)).1 (by omega)
  simpa using hnot

theorem iterate_cycle (h : m.Sleeps overlay W t) (hr : t.tac.toNat.testBit 2 = true)
    (hk : k < t.untilOverflow) :
    iterate cycle keep k m seen = { machine := ticks k m, events := seen } :=
  iterate_cycle_of_idle h.halted k fun j _ hj => by
    rw [h.irq_ticks hr (by omega)]
    exact h.inactive

/-- On the cycle of the overflow the devices tick, and then the processor sees the line. -/
theorem active_ticks (h : m.Sleeps overlay W t) (hr : t.tac.toNat.testBit 2 = true)
    (he : m.bus.irq.enabled &&& 4 ≠ 0) (hk : k + 1 = t.untilOverflow) :
    (ticks (k + 1) m).bus.irq.active = Line.timer.mask := by
  have hlt : k < t.untilOverflow := by omega
  have hrequest := (Timer.requests_iff h.aligned hr h.settled hlt).2 hk
  rw [irq_ticks_succ h.devices, if_pos hrequest, h.irq_ticks hr hlt,
    Interrupts.active_request_timer h.inactive, Interrupts.timer_and_enabled, if_neg he]

/-- A line that becomes active ends the sleep. -/
theorem free_ticks (h : m.Sleeps overlay W t) (ha : (ticks k m).bus.irq.active ≠ 0) :
    (ticks k m).Free := by
  refine .inr ⟨?_, ha⟩
  rw [cpu_ticks]
  exact h.halted

/-- With the timer stopped or its line disabled no line becomes active. -/
theorem active_ticks_of_off (h : m.Sleeps overlay W t)
    (hoff : t.tac.toNat.testBit 2 = false ∨ m.bus.irq.enabled &&& 4 = 0) (k : Nat) :
    (ticks k m).bus.irq.active = 0 := by
  rcases hoff with hstop | he
  · rw [irq_ticks_of_quiet h.devices fun j _ =>
      Timer.not_requests_of_stopped hstop h.settled j]
    exact h.inactive
  · induction k with
    | zero => exact h.inactive
    | succ k ih =>
      rw [irq_ticks_succ h.devices]
      split
      · rw [Interrupts.active_request_timer ih, enabled_ticks h.devices, Interrupts.timer_and_enabled,
          if_pos he]
      · exact ih

end Sleeps

/-- Behind cycles of the devices alone, the processor has the next. -/
theorem outcome_iterate_succ_of_idle {n : Nat}
    (h : iterate cycle keep n m seen = { machine := ticks n m, events := seen }) :
    (iterate cycle keep (n + 1) m seen).outcome = (ticks (n + 1) m).stepCpu.outcome := by
  rw [iterate_add, h, Run.andThen_of_none rfl, iterate_one, ticks_succ]
  rfl

/-- The processor of a handheld halts until the overflow of a running timer whose line is enabled, and
otherwise for good. -/
theorem InUse.wakes_on_overflow (hm : m.InUse) (ht : .timer t ∈ m.bus.devices)
    (hc : m.cycles.toNat < 2 ^ 64 - 65536) (hp : m.cpu.phase = .halted)
    (ha : m.bus.irq.active = 0) (ho : t.overflowed = false) (keep : Event → Bool)
    (seen : Array Event) :
    (t.tac &&& 4 ≠ 0 → m.bus.irq.enabled &&& 4 ≠ 0 →
      4 * t.untilOverflow = (t.counter.toNat / Timer.period t.tac + 256 - t.tima.toNat) *
        Timer.period t.tac - t.counter.toNat ∧
      (∀ j < t.untilOverflow, m.Rests (ticks j m) ∧
        m.runUntil keep (m.cycles + .ofNat j) seen = { machine := ticks j m, events := seen }) ∧
      let m₁ := ticks t.untilOverflow m
      m.Rests m₁ ∧ m₁.Free ∧
      (m.runUntil keep (m.cycles + .ofNat t.untilOverflow) seen).outcome = m₁.stepCpu.outcome ∧
      (m.cpu.ime = true → m₁.Serves .timer ∧
        m₁.stepCpu.machine.cpu.regs = { m.cpu.regs with pc := 0x50, sp := m.cpu.regs.sp - 2 }) ∧
      (m.cpu.ime = false → m₁.Fetches)) ∧
    (t.tac &&& 4 = 0 ∨ m.bus.irq.enabled &&& 4 = 0 → ∀ target, ∃ j, m.Rests (ticks j m) ∧
      m.runUntil keep target seen = { machine := ticks j m, events := seen }) := by
  obtain ⟨overlay, W, hds, haligned⟩ := hm.devices ht
  have hs : m.Sleeps overlay W t := ⟨hds, haligned, hp, ha, ho⟩
  have hgate : t.tac.toNat.testBit 2 = (t.tac &&& 4 != 0) := (Timer.gate_eq t.tac).symm
  constructor
  · intro htac hie
    have hr : t.tac.toNat.testBit 2 = true := by simpa [hgate] using htac
    have hle := t.untilOverflow_le
    refine ⟨Timer.untilOverflow_mul haligned, fun j hj => ⟨rests_ticks hds j, ?_⟩, ?_⟩
    · rw [runUntil_add (by omega), hs.iterate_cycle hr hj]
    obtain ⟨n, hn⟩ : ∃ n, t.untilOverflow = n + 1 :=
      Nat.exists_eq_succ_of_ne_zero (Timer.untilOverflow_pos haligned).ne'
    have hlast : n < t.untilOverflow := by omega
    have hactive := hs.active_ticks hr hie hn.symm
    have hfree := hs.free_ticks (by rw [hactive]; decide)
    have hcpu := cpu_ticks (n + 1) m
    rw [hn]
    refine ⟨rests_ticks hds _, hfree, ?_, fun hime => ?_, fun hime => ?_⟩
    · rw [runUntil_add (by omega), outcome_iterate_succ_of_idle (hs.iterate_cycle hr hlast)]
    · have hserves : (ticks (n + 1) m).Serves .timer := by
        refine serves_of_pendingLine? hfree (Cpu.pendingLine?_eq_some_iff.2 ⟨?_, ?_⟩)
        · rw [hcpu]; exact hime
        · rw [hactive]; rfl
      refine ⟨hserves, ?_⟩
      rw [hserves.regs, hcpu]
      rfl
    · refine fetches_of_pendingLine? hfree ?_
      rw [Cpu.pendingLine?, hcpu, hime]
      rfl
  · intro hoff target
    refine ⟨target.toNat - m.cycles.toNat, rests_ticks hds _, ?_⟩
    refine iterate_cycle_of_idle hp _ fun j _ _ => hs.active_ticks_of_off ?_ j
    exact hoff.imp_left fun htac => by simp [hgate, htac]

/-- A boot image of EI and HALTs, with the timer two ticks from its overflow when the processor halts:
on the first of them it still does, and on the second it goes to the handler. -/
theorem wakes_after_two_ticks : ∃ m : Machine Probe, m.InUse ∧ m.cpu.phase = .halted ∧
    (m.runUntil (fun _ => true) (m.cycles + 1) #[]).machine.cpu = m.cpu ∧
    (m.runUntil (fun _ => true) (m.cycles + 2) #[]).machine.cpu.regs.pc = 0x50 := by
  have hsleeper : ∃ m : Machine Probe, m.InUse ∧ m.cpu.phase = .halted ∧ m.cpu.ime = true ∧
      m.bus.irq = ⟨0, 4⟩ ∧ m.cycles = 2 ∧ .timer ⟨8, 0xFF, 0, 5, false⟩ ∈ m.bus.devices :=
    ⟨_, ⟨⟨⟨⟨.replicate romSize 0, Array.size_replicate⟩⟩⟩,
      some (0xFB :: List.replicate 255 0x76).toArray, _, fun _ => true,
      [.write ieAddress 4, .write tacAddress 5, .write timaAddress 0xFF, .runUntil 2], rfl, rfl⟩,
      by decide +kernel, by decide +kernel, by decide +kernel, by decide +kernel,
      .tail _ (.tail _ (.tail _ (.tail _ (.head _))))⟩
  obtain ⟨m, hm, hp, hime, hirq, hcycles, ht⟩ := hsleeper
  obtain ⟨hrunning, -⟩ := hm.wakes_on_overflow ht (by rw [hcycles]; decide) hp (by rw [hirq]; rfl)
    rfl (fun _ => true) #[]
  obtain ⟨-, hsleep, -, -, hwake, hon, -⟩ := hrunning (by decide) (by rw [hirq]; decide)
  refine ⟨m, hm, hp, ?_, ?_⟩
  · obtain ⟨hrests, hrun⟩ := hsleep 1 (by decide)
    exact (congrArg (·.machine.cpu) hrun).trans hrests.cpu
  · have hmachine := (Prod.mk.inj hwake).1
    exact congrArg (·.cpu.regs.pc) hmachine |>.trans (congrArg (·.pc) (hon hime).2)

end Machine

end Dmg
