import Dmg.Handheld
import Dmg.Proofs.Lines
import Dmg.Proofs.Session
import Dmg.Proofs.Window

/-! # The bus of the handheld

`Bus.Wired` says what is on the bus of a handheld once some writes have reached it: the built-in
devices in their order, each as the writes left it, and others behind. It holds of a handheld when
it is made, and no session ends it (`Bus.Wired.session`).

The timer is the one built-in device that a cycle changes, so the writes decide everything else. They
decide the enable register as well (`Bus.Mapped.session`), as long as the devices attached do no more to
the interrupt registers than request lines. -/

namespace Dmg

namespace BootOverlay

/-- The overlay after writes made one after the other. -/
def after (b : BootOverlay) (W : List Write) : BootOverlay :=
  W.foldl (fun b x => b.write x.address) b

theorem after_concat (b : BootOverlay) (W : List Write) (x : Write) :
    b.after (W ++ [x]) = (b.after W).write x.address := by
  rw [after, List.foldl_append]; rfl

/-- No write gives the cartridge back to its boot image. -/
theorem after_eq (b : BootOverlay) (W : List Write) :
    b.after W = if ∀ w ∈ W, w.address ≠ bootDisable then b else { b with image := none } := by
  induction W using List.reverseRecOn with
  | nil => rfl
  | append_singleton W x ih =>
    rw [after_concat, ih]
    by_cases hW : ∀ w ∈ W, w.address ≠ bootDisable
    · by_cases hx : x.address = bootDisable
      · have hnot : ¬ ∀ w ∈ W ++ [x], w.address ≠ bootDisable := fun h => h x (by simp) hx
        simp only [if_pos hW, if_neg hnot, write, if_pos hx]
      · have hall : ∀ w ∈ W ++ [x], w.address ≠ bootDisable := by
          intro w hw
          rcases List.mem_append.1 hw with hw | hw
          · exact hW w hw
          · rw [List.mem_singleton.1 hw]; exact hx
        simp only [if_pos hW, if_pos hall, write, if_neg hx]
    · have hnot : ¬ ∀ w ∈ W ++ [x], w.address ≠ bootDisable := fun h =>
        hW fun w hw => h w (List.mem_append_left _ hw)
      simp only [if_neg hW, if_neg hnot, write]
      split <;> rfl

theorem after_cartridge (b : BootOverlay) (W : List Write) : (b.after W).cartridge = b.cartridge := by
  rw [after_eq]
  split <;> rfl

end BootOverlay

theorem Interrupts.enabled_write (i : Interrupts) (a : UInt16) (v : UInt8) :
    (i.write a v).enabled = if a = ieAddress then v &&& lineBits else i.enabled := by
  unfold write
  split
  · next h => rw [h, if_neg (by decide)]
  · split <;> rfl

theorem Interrupts.enabled_requests (lines : List Line) (i : Interrupts) :
    (lines.foldl request i).enabled = i.enabled := by
  induction lines generalizing i with
  | nil => rfl
  | cons l lines ih => exact ih _

namespace Bus
variable {π : Type} [HostDevice π] {bus : Bus π} {overlay : BootOverlay} {n : Nat} {W : List Write}

theorem tickDevices_length (cycle : UInt64) (ds : List (Device π)) (irq : Interrupts) :
    (tickDevices cycle ds irq).1.length = ds.length := by
  induction ds generalizing irq with
  | nil => rfl
  | cons d ds ih => exact congrArg (· + 1) (ih _)

/-- The devices of a handheld once `W` has reached them, in front of `others`. -/
def wiring (overlay : BootOverlay) (W : List Write) (t : Timer) (others : List (Device π)) :
    List (Device π) :=
  .interrupts :: .ram (workRam.after W) :: .ram (highRam.after W) :: .boot (overlay.after W) ::
    .timer t :: others

/-- The bus of a handheld once `W` has reached it, with `n` devices attached behind. -/
structure Wired (overlay : BootOverlay) (n : Nat) (W : List Write) (bus : Bus π) : Prop where
  devices : ∃ t others, bus.devices = wiring overlay W t others ∧ others.length = n

/-- How many devices stand behind the five that a handheld is made with. -/
def attached (bus : Bus π) : Nat := bus.devices.length - 5

namespace Wired

theorem write (h : bus.Wired overlay n W) (w : Write) :
    (bus.write w.address w.value).Wired overlay n (W ++ [w]) := by
  obtain ⟨t, others, hds, hlen⟩ := h.devices
  refine ⟨⟨t.write w.address w.value, others.map (·.write w.address w.value), ?_, by simpa using hlen⟩⟩
  show bus.devices.map _ = _
  rw [hds]
  simp only [wiring, RamWindow.after_concat, BootOverlay.after_concat]
  rfl

theorem store (h : bus.Wired overlay n W) (ws : List Write) :
    (bus.store ws).Wired overlay n (W ++ ws) := by
  induction ws generalizing bus W with
  | nil => rwa [List.append_nil]
  | cons w ws ih =>
    rw [store_cons, List.append_cons]
    exact ih (h.write w)

omit [HostDevice π] in
theorem request (h : bus.Wired overlay n W) (l : Line) : (bus.request l).Wired overlay n W :=
  ⟨h.devices⟩

omit [HostDevice π] in
theorem acknowledge (h : bus.Wired overlay n W) (act : Activity) :
    (Machine.acknowledge act bus).Wired overlay n W := by
  cases act with
  | execute i => exact h
  | dispatch l => exact ⟨h.devices⟩

theorem tick (h : bus.Wired overlay n W) (cycle : UInt64) : (bus.tick cycle).Wired overlay n W := by
  obtain ⟨t, others, hds, hlen⟩ := h.devices
  refine ⟨?_⟩
  rw [← hlen]
  show ∃ t' others', (tickDevices cycle bus.devices bus.irq).1 = _ ∧ _
  rw [hds]
  exact ⟨_, _, rfl, tickDevices_length _ _ _⟩

omit [HostDevice π] in
theorem attach (h : bus.Wired overlay n W) (d : Device π) :
    (bus.attach d).Wired overlay (n + 1) W := by
  obtain ⟨t, others, hds, hlen⟩ := h.devices
  refine ⟨⟨t, others ++ [d], ?_, by rw [List.length_append, hlen]; rfl⟩⟩
  show bus.devices ++ [d] = _
  rw [hds]
  rfl

omit [HostDevice π] in
theorem attached_eq (h : bus.Wired overlay n W) : bus.attached = n := by
  obtain ⟨t, others, hds, rfl⟩ := h.devices
  rw [attached, hds]
  exact Nat.add_sub_cancel others.length 5

omit [HostDevice π] in
/-- With nothing attached to it. -/
theorem devices_eq (h : bus.Wired overlay 0 W) : ∃ t, bus.devices = wiring overlay W t [] := by
  obtain ⟨t, others, hds, hlen⟩ := h.devices
  obtain rfl := List.eq_nil_of_length_eq_zero hlen
  exact ⟨t, hds⟩

/-- A cycle adds what the processor writes in it. -/
theorem cycle {m : Machine π} (h : m.bus.Wired overlay n W) :
    m.cycle.machine.bus.Wired overlay n (W ++ m.cycleWrites) := by
  rw [Machine.cycle_bus]
  refine store ?_ _
  split
  · exact (h.tick _).acknowledge _
  · exact h.tick _

theorem session {m₀ m : Machine π} (h : m₀.bus.Wired overlay n []) (hs : Machine.Session m₀ W m) :
    m.bus.Wired overlay n W := by
  induction hs with
  | start => exact h
  | write a v _ ih => exact ih.write ⟨a, v⟩
  | request l _ ih => exact ih.request l
  | cycle _ ih => exact ih.cycle

end Wired

/-! ### The enable register -/

/-- A bus with the wiring of a handheld, on which besides the enable register holds what was written to
it last. -/
structure Mapped (overlay : BootOverlay) (n : Nat) (W : List Write) (bus : Bus π) : Prop
    extends bus.Wired overlay n W where
  enabled : bus.irq.enabled = (lastWritten W (· = ieAddress)).getD 0 &&& lineBits

theorem enabled_tickDevices [RequestsOnly π] (cycle : UInt64) (ds : List (Device π))
    (irq : Interrupts) : (tickDevices cycle ds irq).2.enabled = irq.enabled := by
  induction ds generalizing irq with
  | nil => rfl
  | cons d ds ih =>
    obtain ⟨lines, hlines⟩ := d.tick_requests cycle irq
    rw [tickDevices_cons]
    dsimp only
    rw [ih, hlines, Interrupts.enabled_requests]

namespace Mapped

theorem write (h : bus.Mapped overlay n W) (w : Write) :
    (bus.write w.address w.value).Mapped overlay n (W ++ [w]) := by
  refine ⟨h.toWired.write w, ?_⟩
  obtain ⟨t, others, hds, -⟩ := h.devices
  have hirq : (bus.write w.address w.value).irq = bus.irq.write w.address w.value := by
    have hhas : bus.hasInterrupts = true := by
      rw [hasInterrupts, hds]
      rfl
    simp only [Bus.write, hhas, if_true]
  rw [hirq, Interrupts.enabled_write, lastWritten_concat, h.enabled]
  split <;> rfl

theorem store (h : bus.Mapped overlay n W) (ws : List Write) :
    (bus.store ws).Mapped overlay n (W ++ ws) := by
  induction ws generalizing bus W with
  | nil => rwa [List.append_nil]
  | cons w ws ih =>
    rw [store_cons, List.append_cons]
    exact ih (h.write w)

omit [HostDevice π] in
theorem request (h : bus.Mapped overlay n W) (l : Line) : (bus.request l).Mapped overlay n W :=
  ⟨h.toWired.request l, h.enabled⟩

omit [HostDevice π] in
theorem acknowledge (h : bus.Mapped overlay n W) (act : Activity) :
    (Machine.acknowledge act bus).Mapped overlay n W := by
  refine ⟨h.toWired.acknowledge act, ?_⟩
  cases act <;> exact h.enabled

omit [HostDevice π] in
theorem attach (h : bus.Mapped overlay n W) (d : Device π) :
    (bus.attach d).Mapped overlay (n + 1) W :=
  ⟨h.toWired.attach d, h.enabled⟩

variable [RequestsOnly π]

theorem tick (h : bus.Mapped overlay n W) (cycle : UInt64) : (bus.tick cycle).Mapped overlay n W :=
  ⟨h.toWired.tick cycle, (enabled_tickDevices _ _ _).trans h.enabled⟩

theorem cycle {m : Machine π} (h : m.bus.Mapped overlay n W) :
    m.cycle.machine.bus.Mapped overlay n (W ++ m.cycleWrites) := by
  rw [Machine.cycle_bus]
  refine store ?_ _
  split
  · exact (h.tick _).acknowledge _
  · exact h.tick _

theorem session {m₀ m : Machine π} (h : m₀.bus.Mapped overlay n []) (hs : Machine.Session m₀ W m) :
    m.bus.Mapped overlay n W := by
  induction hs with
  | start => exact h
  | write a v _ ih => exact ih.write ⟨a, v⟩
  | request l _ ih => exact ih.request l
  | cycle _ ih => exact ih.cycle

end Mapped

end Bus

/-! ### The handheld when it is made -/

theorem Cartridge.image_of_ofImage {image : Array UInt8} {c : Cartridge}
    (h : Cartridge.ofImage image = .ok c) : c.rom.image.toArray = image := by
  unfold ofImage at h
  split at h
  · cases h
  · split at h
    · unfold PlainRom.ofImage at h
      split at h
      · cases h; rfl
      · cases h
    · cases h

theorem Cartridge.ofImage_of_size {image : Array UInt8} (hs : image.size = romSize)
    (ht : image[typeOffset]? = some 0) : ofImage image = .ok ⟨⟨⟨image, hs⟩⟩⟩ := by
  simp only [ofImage, ht, PlainRom.ofImage, dif_pos hs, if_true]
  rfl

/-- A boot image of the right size covers the cartridge. -/
theorem BootOverlay.ofImage_of_size {boot : Option (Array UInt8)} (cartridge : Cartridge)
    (h : ∀ b ∈ boot, b.size = bootSize) : ∃ overlay, ofImage cartridge boot = .ok overlay ∧
      overlay.cartridge = cartridge ∧ overlay.image.map (·.toArray) = boot := by
  cases boot with
  | none => exact ⟨_, rfl, rfl, rfl⟩
  | some b =>
    refine ⟨{ cartridge, image := some ⟨b, h b rfl⟩ }, ?_, rfl, rfl⟩
    simp [ofImage, Bytes.ofArray?, h b rfl]

namespace Machine
variable {π : Type} [HostDevice π]

omit [HostDevice π] in
theorem attachAll_machine (m : Machine π) (ds : List (Device π)) :
    (m.attachAll ds).machine = { m with bus := { m.bus with devices := m.bus.devices ++ ds } } := by
  suffices h : ∀ run : Run π, (ds.foldl (fun run d =>
      let next := run.machine.attach d
      { next with events := run.events ++ next.events }) run).machine =
        { run.machine with bus :=
          { run.machine.bus with devices := run.machine.bus.devices ++ ds } } from h { machine := m }
  induction ds with
  | nil => intro run; rw [List.append_nil]; rfl
  | cons d ds ih =>
    intro run
    rw [List.foldl_cons, ih, List.append_cons]
    rfl

omit [HostDevice π] in
theorem attachAll_bus (m : Machine π) (ds : List (Device π)) :
    (m.attachAll ds).machine.bus = { m.bus with devices := m.bus.devices ++ ds } := by
  rw [attachAll_machine]

omit [HostDevice π] in
theorem wired_handheld {cartridge : Cartridge} {boot : Option (Array UInt8)} {overlay : BootOverlay}
    (h : BootOverlay.ofImage cartridge boot = .ok overlay) : ∃ core : Machine π,
      (handheld cartridge boot).machine = .ok core ∧
      ∀ ds, (core.attachAll ds).machine.bus.Mapped overlay ds.length [] := by
  unfold handheld
  rw [h]
  refine ⟨_, rfl, fun ds => ⟨⟨⟨{}, ds, ?_, rfl⟩⟩, ?_⟩⟩
  · rw [attachAll_bus]
    rfl
  · rw [attachAll_bus]
    rfl

omit [HostDevice π] in
theorem cycles_handheld {cartridge : Cartridge} {boot : Option (Array UInt8)} {core : Machine π}
    (h : (handheld cartridge boot).machine = .ok core) : core.cycles = 0 := by
  unfold handheld at h
  cases ho : BootOverlay.ofImage cartridge boot with
  | error e =>
    rw [ho] at h
    cases h
  | ok overlay =>
    rw [ho] at h
    cases h
    rw [attachAll_machine]
    rfl

end Machine

end Dmg
