import Dmg.Proofs.Chronicle
import Dmg.Proofs.MemoryMap
import Dmg.Proofs.Waking

/-! # The divider

The timer of a handheld goes through the ticks and the writes among the deeds, and through nothing
else (`Bus.Timed.apply`). Its counter is therefore four times the cycles since the last write to
DIV, from any point of the chronicle to any later one, and DIV read by the host or by a program is
the cycle counter divided by 64 (`Machine.read_divider`), whatever stopped the runs on the way. -/

namespace Dmg

/-! ### When an address was written last -/

/-- The deed is a write to `a`. -/
def Deed.WritesTo (a : UInt16) : Deed → Prop
  | .write w => w.address = a
  | _ => False

instance (a : UInt16) (d : Deed) : Decidable (d.WritesTo a) :=
  match d with
  | .write w => inferInstanceAs (Decidable (w.address = a))
  | .tick | .serve _ | .request _ => .isFalse id

namespace Machine
variable {π : Type} [HostDevice π] {m : Machine π}

/-- The cycle of the last of the writes to `a` among the deeds, none if there is no such write. -/
def lastWriteAt (a : UInt16) : List Deed → Machine π → Option UInt64
  | [], _ => none
  | d :: D, m => (lastWriteAt a D (d.apply m)).or (if d.WritesTo a then some m.cycles else none)

theorem lastWriteAt_concat (a : UInt16) (D : List Deed) (d : Deed) (m : Machine π) :
    m.lastWriteAt a (D ++ [d]) =
      if d.WritesTo a then some (m.after D).cycles else m.lastWriteAt a D := by
  induction D generalizing m with
  | nil =>
    show (none : Option UInt64).or _ = _
    rw [Option.none_or]
    rfl
  | cons e D ih =>
    rw [List.cons_append, lastWriteAt, ih, lastWriteAt, after_cons]
    split
    · exact Option.some_or
    · rfl

/-- While the counter does not wrap, the last write was made on a cycle it has passed. -/
theorem lastWriteAt_le {a : UInt16} {D : List Deed} (h : m.cycles.toNat + D.count .tick < 2 ^ 64)
    {c : UInt64} (hc : m.lastWriteAt a D = some c) : c.toNat ≤ m.cycles.toNat + D.count .tick := by
  induction D using List.reverseRecOn with
  | nil => cases hc
  | append_singleton D d ih =>
    rw [List.count_append] at h ⊢
    rw [lastWriteAt_concat] at hc
    split at hc
    · cases hc
      rw [cycles_after, toNat_add_ofNat (by omega)]
      omega
    · have hle := ih (by omega) hc
      omega

end Machine

/-! ### The timer of a handheld -/

/-- The timer after a deed. -/
def Timer.undergo (t : Timer) : Deed → Timer
  | .tick => t.apply .tick
  | .write w => t.apply (.write w.address w.value)
  | .serve _ | .request _ => t

theorem Timer.counter_undergo (t : Timer) (d : Deed) : (t.undergo d).counter =
    if d = .tick then t.counter + 4 else if d.WritesTo divAddress then 0 else t.counter := by
  cases d with
  | tick => exact counter_apply t .tick
  | serve l => rfl
  | request l => rfl
  | write w =>
    rw [if_neg nofun, undergo, counter_apply]
    show ((t.store? w.address w.value).getD t).counter =
      if w.address = divAddress then 0 else t.counter
    unfold store?
    split_ifs <;> rfl

/-- The high byte of a counter that has counted `n` cycles. -/
theorem Timer.toNat_high_counter {t : Timer} {n : Nat} (h : t.counter.toNat = 4 * n % 2 ^ 16) :
    (t.counter >>> 8).toUInt8.toNat = n / 64 % 256 := by
  rw [toNat_div, h]
  omega

namespace Bus
variable {π : Type} [HostDevice π] {bus : Bus π} {overlay : BootOverlay} {t : Timer}

/-- The bus of a handheld whose timer is `t`. -/
def Timed (overlay : BootOverlay) (t : Timer) (bus : Bus π) : Prop :=
  ∃ W others, bus.devices = wiring overlay W t others

namespace Timed

/-- Nothing in front of the timer answers at DIV. -/
theorem read_divAddress (h : bus.Timed overlay t) :
    bus.read divAddress = (t.counter >>> 8).toUInt8 := by
  obtain ⟨W, others, hds⟩ := h
  have hirq : bus.irq.read divAddress = none := Interrupts.read_eq_none (by decide)
  have hwork : (workRam.after W).read divAddress = none := read_workRam_eq_none (by decide) W
  have hhigh : (highRam.after W).read divAddress = none := read_highRam_eq_none (by decide) W
  have hoverlay : (overlay.after W).read divAddress = none := by
    rw [BootOverlay.read_of_uncovered (.inr (by decide)), Cartridge.read_of_not_maps (by decide)]
  unfold Bus.read
  rw [hds]
  simp only [wiring, List.findSome?_cons, Device.read, hirq, hwork, hhigh, hoverlay]
  rfl

theorem apply {m : Machine π} (h : m.bus.Timed overlay t) (d : Deed) :
    (d.apply m).bus.Timed overlay (t.undergo d) := by
  obtain ⟨W, others, hds⟩ := h
  cases d with
  | tick =>
    refine ⟨W, ?_⟩
    show ∃ others, (tickDevices (m.cycles + 1) m.bus.devices m.bus.irq).1 = _
    rw [hds]
    exact ⟨_, rfl⟩
  | serve l => exact ⟨W, others, hds⟩
  | request l => exact ⟨W, others, hds⟩
  | write w =>
    refine ⟨W ++ [w], others.map (·.write w.address w.value), ?_⟩
    show m.bus.devices.map _ = _
    rw [hds]
    simp only [wiring, RamWindow.after_concat, BootOverlay.after_concat]
    rfl

end Timed

end Bus

namespace Machine
variable {π : Type} [HostDevice π] {m : Machine π} {overlay : BootOverlay}

/-- Through any deeds, the counter of the timer keeps to the cycles since the last write to DIV. -/
theorem timed_after (hnew : m.bus.Timed overlay {}) (hc : m.cycles = 0) (D : List Deed) :
    ∃ t, (m.after D).bus.Timed overlay t ∧ t.counter.toNat =
      4 * ((m.after D).cycles - (m.lastWriteAt divAddress D).getD 0).toNat % 2 ^ 16 := by
  -- From the end, since only the last deed tells whether the last write is another one now.
  induction D using List.reverseRecOn with
  | nil =>
    refine ⟨{}, hnew, ?_⟩
    show _ = 4 * (m.cycles - 0).toNat % 2 ^ 16
    rw [hc]
    rfl
  | append_singleton D d ih =>
    obtain ⟨t, ht, hcounter⟩ := ih
    obtain ⟨c₀, hc₀⟩ : ∃ c₀, (m.lastWriteAt divAddress D).getD 0 = c₀ := ⟨_, rfl⟩
    rw [hc₀] at hcounter
    rw [after_concat]
    refine ⟨t.undergo d, ht.apply d, ?_⟩
    rw [Timer.counter_undergo, lastWriteAt_concat]
    split
    · next htick =>
      subst htick
      -- The distance wraps in 64 bits and the counter in 16, which four times it survives.
      have hnext : (m.after D).cycles + 1 - c₀ = (m.after D).cycles - c₀ + 1 := by
        rw [UInt64.sub_eq_add_neg, UInt64.sub_eq_add_neg, UInt64.add_assoc, UInt64.add_comm 1,
          UInt64.add_assoc]
      rw [if_neg (show ¬ Deed.tick.WritesTo divAddress from id), hc₀]
      show _ = 4 * ((m.after D).cycles + 1 - c₀).toNat % 2 ^ 16
      rw [hnext, UInt16.toNat_add, UInt64.toNat_add, hcounter]
      simp only [UInt16.reduceToNat, UInt64.reduceToNat]
      omega
    · next htick =>
      have hcycles : (d.apply (m.after D)).cycles = (m.after D).cycles := by
        cases d with
        | tick => exact absurd rfl htick
        | _ => rfl
      rw [hcycles]
      split
      · rw [Option.getD_some, UInt64.sub_self]
        rfl
      · rw [hc₀]
        exact hcounter

/-- In a handheld, DIV is the cycle counter since the last write to DIV, divided by 64. -/
theorem read_divider {cartridge : Cartridge} {boot : Option (Array UInt8)} {core : Machine π}
    (h : (handheld cartridge boot).machine = .ok core) (ds : List (Device π)) (keep : Event → Bool)
    (ops : List HostOp) :
    let m₀ := (core.attachAll ds).machine
    let m := m₀.operate keep ops
    let c₀ := (m₀.lastWriteAt divAddress (m₀.deeds ops)).getD 0
    c₀ ≤ m.cycles ∧ (m.read divAddress).toNat = (m.cycles.toNat - c₀.toNat) / 64 % 256 := by
  obtain ⟨overlay, -, hds⟩ := devices_of_handheld h
  obtain ⟨m₀, hm₀⟩ : ∃ m₀, (core.attachAll ds).machine = m₀ := ⟨_, rfl⟩
  have hnew : m₀.bus.Timed overlay {} := by
    refine ⟨[], ds, ?_⟩
    rw [← hm₀, attachAll_bus]
    show core.bus.devices ++ ds = _
    rw [hds]
    rfl
  have hzero : m₀.cycles = 0 := by
    rw [← hm₀, attachAll_machine, ← cycles_handheld h]
  dsimp only
  rw [hm₀]
  have hfollows := follows_operate keep ops m₀
  have hcount := hfollows.cycles
  have hlt := (m₀.operate keep ops).cycles.toNat_lt
  obtain ⟨t, ht, hcounter⟩ := timed_after hnew hzero (m₀.deeds ops)
  rw [← hfollows.bus] at ht
  rw [← hfollows.cycles_eq] at hcounter
  have hle : (m₀.lastWriteAt divAddress (m₀.deeds ops)).getD 0 ≤ (m₀.operate keep ops).cycles := by
    cases hlast : m₀.lastWriteAt divAddress (m₀.deeds ops) with
    | none => exact UInt64.zero_le
    | some c =>
      have hcle := lastWriteAt_le (by omega) hlast
      rw [← hcount] at hcle
      exact UInt64.le_iff_toNat_le.2 hcle
  refine ⟨hle, ?_⟩
  show ((m₀.operate keep ops).bus.read divAddress).toNat = _
  rw [UInt64.toNat_sub_of_le _ _ hle] at hcounter
  rw [ht.read_divAddress]
  exact Timer.toNat_high_counter hcounter

/-- A cartridge of an opcode that does not exist, and a host that does not give up: every run fails
on its first cycle, and the cycles count all the same. -/
theorem read_divider_of_failures : ∃ core : Machine Probe,
    (handheld ⟨⟨⟨.replicate romSize 0xDD, Array.size_replicate⟩⟩⟩ none).machine = .ok core ∧
    (core.runUntil (fun _ => true) 300 #[]).failure = some ⟨0x0100, 0xDD⟩ ∧
    let ops := .runUntil 300 :: .write divAddress 0x42 :: .replicate 65 (.runUntil 300)
    ((core.operate (fun _ => true) ops).read divAddress).toNat = 1 := by
  have hstart : ∃ core : Machine Probe,
      (handheld ⟨⟨⟨.replicate romSize 0xDD, Array.size_replicate⟩⟩⟩ none).machine = .ok core ∧
      (core.runUntil (fun _ => true) 300 #[]).failure = some ⟨0x0100, 0xDD⟩ ∧
      let ops := .runUntil 300 :: .write divAddress 0x42 :: .replicate 65 (.runUntil 300)
      core.lastWriteAt divAddress (core.deeds ops) = some 1 ∧
        (core.operate (fun _ => true) ops).cycles = 66 :=
    ⟨_, rfl, by decide +kernel, by decide +kernel, by decide +kernel⟩
  obtain ⟨core, hcore, hfails, hlast, hcycles⟩ := hstart
  refine ⟨core, hcore, hfails, ?_⟩
  intro ops
  have hread : ((core.operate (fun _ => true) ops).read divAddress).toNat =
      ((core.operate (fun _ => true) ops).cycles.toNat -
        ((core.lastWriteAt divAddress (core.deeds ops)).getD 0).toNat) / 64 % 256 :=
    (read_divider hcore [] (fun _ => true) ops).2
  rw [hread, hcycles, hlast]
  rfl

end Machine

end Dmg
