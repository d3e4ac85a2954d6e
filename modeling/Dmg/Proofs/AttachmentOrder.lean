import Dmg.Proofs.BuiltIn
import Dmg.Proofs.Lockstep
import Dmg.Proofs.MemoryMap

/-! # The order of attachment

A read is answered by the first device that maps the address. Where no address is answered by two of
them (`Bus.Disjoint`), there is only one that could, and the order in which the parts of a machine are
attached is unseen (`Machine.dialogue_of_perm`): which addresses a part answers is settled for good
(`Device.answers`), writes reach all of them, and the lines they request come together in one
register. The parts of a handheld are such (`Bus.Wired.disjoint`). -/

namespace Dmg

/-! ### Which addresses are answered -/

theorem Interrupts.isSome_read (i : Interrupts) (a : UInt16) :
    (i.read a).isSome = decide (a = ifAddress ∨ a = ieAddress) := by
  grind [read]

theorem Timer.isSome_read (t : Timer) (a : UInt16) : (t.read a).isSome =
    decide (a = divAddress ∨ a = timaAddress ∨ a = tmaAddress ∨ a = tacAddress) := by
  grind [read]

theorem Cartridge.isSome_read (c : Cartridge) (a : UInt16) : (c.read a).isSome = maps a := by
  rw [read]
  cases maps a <;> rfl

/-- A boot image covers addresses that the cartridge answers as well. -/
theorem BootOverlay.isSome_read (b : BootOverlay) (a : UInt16) :
    (b.read a).isSome = Cartridge.maps a := by
  by_cases ha : 0x100 ≤ a
  · rw [read_of_uncovered (.inr ha), Cartridge.isSome_read]
  · cases hi : b.image with
    | none => rw [read_of_uncovered (.inl hi), Cartridge.isSome_read]
    | some image =>
      have hlt : a < 0x100 := UInt16.not_le.1 ha
      have hsize : a.toNat < image.toArray.size := by
        rw [image.size_toArray]
        exact UInt16.lt_iff_toNat_lt.1 hlt
      have hmaps : Cartridge.maps a = true := by grind [Cartridge.maps]
      rw [read_boot hi hlt, Array.getElem?_eq_getElem hsize, hmaps, Option.isSome_some]

namespace Device
variable {π : Type} [HostDevice π]

/-- Whether a device answers at an address. For the parts of a machine it has nothing to do with what
they hold. -/
def answers (d : Device π) (a : UInt16) : Bool :=
  match d with
  | .interrupts => a = ifAddress ∨ a = ieAddress
  | .ram w => (w.place? a).isSome
  | .cartridge _ | .boot _ => Cartridge.maps a
  | .timer _ => a = divAddress ∨ a = timaAddress ∨ a = tmaAddress ∨ a = tacAddress
  | .serial _ => false
  | .host p => (HostDevice.read p a).isSome

theorem isSome_read (d : Device π) (irq : Interrupts) (a : UInt16) :
    (d.read irq a).isSome = d.answers a := by
  cases d with
  | interrupts => exact irq.isSome_read a
  | ram w =>
    show (w.read a).isSome = (w.place? a).isSome
    rw [w.read_isSome, RamWindow.place?, Option.isSome_map]
  | cartridge c => exact c.isSome_read a
  | boot b => exact b.isSome_read a
  | timer t => exact t.isSome_read a
  | serial s => rfl
  | host p => rfl

theorem read_eq_none_iff (d : Device π) (irq : Interrupts) (a : UInt16) :
    d.read irq a = none ↔ d.answers a = false := by
  rw [← d.isSome_read irq a, Option.isSome_eq_false_iff, Option.isNone_iff_eq_none]

theorem answers_write {d : Device π} (h : d.isHost = false) (a : UInt16) (v : UInt8) :
    (d.write a v).answers = d.answers := by
  funext b
  cases d with
  | ram w => exact congrArg Option.isSome (w.place?_write a b v)
  | host p => cases h
  | _ => rfl

theorem answers_ticked {d : Device π} (h : d.isHost = false) : d.ticked.answers = d.answers := by
  cases d with
  | host p => cases h
  | _ => rfl

/-- No address is answered by both. -/
def Apart (d d' : Device π) : Prop := ∀ a, d.answers a = false ∨ d'.answers a = false

/-- Parts of a machine are kept apart by what leaves the addresses they answer as they are. -/
theorem pairwise_apart_map {ds : List (Device π)} {f : Device π → Device π}
    (hhost : ∀ d ∈ ds, d.isHost = false) (hf : ∀ d, d.isHost = false → (f d).answers = d.answers)
    (h : ds.Pairwise Apart) : (ds.map f).Pairwise Apart := by
  refine List.pairwise_map.2 (h.imp_of_mem fun hd hd' hapart => ?_)
  rwa [Apart, hf _ (hhost _ hd), hf _ (hhost _ hd')]

end Device

/-- Where at most one of them gives anything, the order does not decide which is found. -/
theorem findSome?_eq_of_perm {α β : Type} {f : α → Option β} {l l' : List α} (h : l.Perm l')
    (hone : l.Pairwise fun x y => f x = none ∨ f y = none) : l'.findSome? f = l.findSome? f := by
  induction h with
  | nil => rfl
  | cons x _ ih =>
    rw [List.findSome?_cons, List.findSome?_cons, ih (List.pairwise_cons.1 hone).2]
  | swap x y l =>
    have hxy : f y = none ∨ f x = none := (List.pairwise_cons.1 hone).1 x List.mem_cons_self
    rcases hxy with hy | hx
    · simp only [List.findSome?_cons, hy]
    · simp only [List.findSome?_cons, hx]
  | trans h₁ _ ih₁ ih₂ => exact (ih₂ ((h₁.pairwise_iff Or.symm).1 hone)).trans (ih₁ hone)

theorem Interrupts.request_comm (i : Interrupts) (l l' : Line) :
    (i.request l).request l' = (i.request l').request l := by
  simp only [request, UInt8.or_assoc, UInt8.or_comm l.mask]

namespace Bus
variable {π : Type} [HostDevice π] {b b' : Bus π}

/-- No address is answered by two of the devices. -/
def Disjoint (bus : Bus π) : Prop :=
  bus.devices.Pairwise fun d d' => ∀ a, d.read bus.irq a = none ∨ d'.read bus.irq a = none

theorem disjoint_iff (bus : Bus π) : bus.Disjoint ↔ bus.devices.Pairwise Device.Apart := by
  unfold Disjoint Device.Apart
  simp only [Device.read_eq_none_iff]

/-- The same parts of a machine, attached in another order and answering no address twice. -/
structure Reordered (b b' : Bus π) : Prop where
  irq : b'.irq = b.irq
  devices : b.devices.Perm b'.devices
  builtIn : b.BuiltIn
  apart : b.devices.Pairwise Device.Apart

namespace Reordered

theorem read (h : b.Reordered b') : b'.read = b.read := by
  funext a
  rw [Bus.read, Bus.read, h.irq, findSome?_eq_of_perm h.devices]
  exact h.apart.imp fun hd => by simpa only [Device.read_eq_none_iff] using hd a

theorem write (h : b.Reordered b') (a : UInt16) (v : UInt8) :
    (b.write a v).Reordered (b'.write a v) := by
  have hhas : b'.hasInterrupts = b.hasInterrupts := h.devices.symm.any_eq
  refine ⟨?_, h.devices.map _, h.builtIn.write a v, ?_⟩
  · rw [Bus.write, Bus.write, hhas, h.irq]
  · exact Device.pairwise_apart_map h.builtIn (fun d hd => Device.answers_write hd a v) h.apart

theorem tick (h : b.Reordered b') (cycle : UInt64) : (b.tick cycle).Reordered (b'.tick cycle) := by
  have hbuiltIn' : b'.BuiltIn := fun d hd => h.builtIn d (h.devices.mem_iff.2 hd)
  rw [tick_of_builtIn h.builtIn, tick_of_builtIn hbuiltIn']
  refine ⟨?_, h.devices.map _, tick_of_builtIn h.builtIn cycle ▸ h.builtIn.tick cycle, ?_⟩
  · -- All requests are made, in one order or the other.
    have hrequests := h.devices.flatMap_right Device.requests
    rw [h.irq]
    exact (hrequests.foldl_eq' (fun l _ l' _ i => i.request_comm l l') b.irq).symm
  · exact Device.pairwise_apart_map h.builtIn (fun d hd => Device.answers_ticked hd) h.apart

end Reordered

end Bus

theorem lockstep_reordered {π : Type} [HostDevice π] :
    Lockstep (π := π) (fun _ => True) Bus.Reordered where
  write h a v := h.write a v
  request h l := ⟨congrArg (Interrupts.request · l) h.irq, h.devices, h.builtIn, h.apart⟩
  clear h l := ⟨congrArg (Interrupts.clear · l) h.irq, h.devices, h.builtIn, h.apart⟩
  tick h cycle := h.tick cycle
  agrees h _ := ⟨h.cpu, congrArg Interrupts.active h.bus.irq, fun a _ => congrFun h.bus.read a⟩

/-! ### The handheld -/

namespace Bus.Wired
variable {π : Type} {bus : Bus π} {overlay : BootOverlay} {W : List Write}

theorem builtIn (h : bus.Wired overlay 0 W) : bus.BuiltIn := by
  obtain ⟨t, hds⟩ := h.devices_eq
  rw [BuiltIn, hds]
  simp [wiring, Device.isHost]

variable [HostDevice π]

/-- With nothing attached to it, a handheld answers no address twice. -/
theorem disjoint (h : bus.Wired overlay 0 W) : bus.Disjoint := by
  have hwork (a : UInt16) : ((workRam.after W).place? a).isSome = true → 0xC000 ≤ a ∧ a ≤ 0xFDFF := by
    rw [RamWindow.place?_after, place?_workRam]
    grind
  have hhigh (a : UInt16) : ((highRam.after W).place? a).isSome = true → 0xFF80 ≤ a ∧ a ≤ 0xFFFE := by
    rw [RamWindow.place?_after, place?_highRam]
    grind
  have hcartridge (a : UInt16) : Cartridge.maps a = true → a < 0xC000 := by grind [Cartridge.maps]
  obtain ⟨t, hds⟩ := h.devices_eq
  rw [disjoint_iff, hds]
  simp only [wiring, List.pairwise_cons, List.forall_mem_cons, Device.Apart, Device.answers,
    List.not_mem_nil, false_implies, implies_true, and_true, List.Pairwise.nil]
  -- Ten pairs, and the ranges tell the two of each apart.
  and_intros
  all_goals
    intro a
    grind [hwork a, hhigh a, hcartridge a, ifAddress, ieAddress, divAddress, timaAddress, tmaAddress,
      tacAddress]

end Bus.Wired

namespace Machine
variable {π : Type} [HostDevice π] {m : Machine π}

/-- Where no address is answered by two of them, the parts of a machine can be attached in any order:
the machine gives the same replies to the same calls, and shows the same processor and the same
interrupt registers. -/
theorem dialogue_of_perm (hb : m.bus.BuiltIn) (hd : m.bus.Disjoint) {devices : List (Device π)}
    (h : devices.Perm m.bus.devices) (calls : List Call) :
    ({ m with bus.devices := devices } : Machine π).dialogue sight calls = m.dialogue sight calls :=
  lockstep_reordered.dialogue Bus.Reordered.read Bus.Reordered.irq calls
    ⟨rfl, rfl, rfl, h.symm, hb, m.bus.disjoint_iff.1 hd⟩

/-- A handheld attached back to front. -/
theorem dialogue_of_perm_handheld : ∃ core : Machine Probe,
    (handheld ⟨⟨⟨.replicate romSize 0, Array.size_replicate⟩⟩⟩ none).machine = .ok core ∧
    core.bus.devices.length = 5 ∧ core.bus.BuiltIn ∧ core.bus.Disjoint ∧
    ∀ calls, ({ core with bus.devices := core.bus.devices.reverse } : Machine Probe).dialogue sight
      calls = core.dialogue sight calls := by
  let cartridge : Cartridge := ⟨⟨⟨.replicate romSize 0, Array.size_replicate⟩⟩⟩
  have hoverlay : BootOverlay.ofImage cartridge none = .ok { cartridge, image := none } := rfl
  obtain ⟨core, hcore, hwired⟩ := wired_handheld (π := Probe) hoverlay
  have h : core.bus.Wired _ 0 [] := (hwired []).toWired
  obtain ⟨t, hds⟩ := h.devices_eq
  refine ⟨core, hcore, by rw [hds]; rfl, h.builtIn, h.disjoint, fun calls => ?_⟩
  exact dialogue_of_perm h.builtIn h.disjoint core.bus.devices.reverse_perm calls

end Machine

end Dmg
