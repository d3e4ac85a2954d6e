import Dmg.Proofs.Arbitration
import Dmg.Proofs.Footprint
import Dmg.Proofs.Window
import Mathlib.Logic.Function.Basic

/-! # A bus of nothing but RAM

`Bus.Holds mem` is a bus on which the interrupt registers stand in front of RAM for the whole address
space, with `mem` in it. The two registers hide the RAM at their addresses from reads, but not from
writes: what is written to them is in the RAM as well. So writes change the RAM as they change a
function (`Bus.Holds.store`), and reads see it everywhere else (`Bus.Holds.read`). -/

namespace Dmg

/-- The address of neither interrupt register. -/
def Visible (a : UInt16) : Prop := a ≠ ifAddress ∧ a ≠ ieAddress

instance (a : UInt16) : Decidable (Visible a) := inferInstanceAs (Decidable (_ ∧ _))

theorem Write.forall_mem_ofWord {p : UInt16 → Prop} {a : UInt16} (h : p a) (h' : p (a + 1))
    (v : UInt16) : ∀ w ∈ Write.ofWord a v, p w.address := by
  simp [ofWord, h, h']

namespace View

/-- A view after writes made one after the other. -/
def after (mem : View) (W : List Write) : View :=
  W.foldl (fun mem w => Function.update mem w.address w.value) mem

variable {mem : View} {W : List Write} {a v : UInt16}

theorem after_of_not_mem {b : UInt16} (h : ∀ w ∈ W, w.address ≠ b) : mem.after W b = mem b := by
  induction W generalizing mem with
  | nil => rfl
  | cons w W ih =>
    have hb : b ≠ w.address := (h w List.mem_cons_self).symm
    exact (ih fun x hx => h x (List.mem_cons_of_mem _ hx)).trans (Function.update_of_ne hb ..)

theorem word_after_ofWord (mem : View) (a v : UInt16) : (mem.after (Write.ofWord a v)).word a = v := by
  have hne : a ≠ a + 1 := by grind
  have hhi : mem.after (Write.ofWord a v) (a + 1) = hi v := Function.update_self ..
  have hlo : mem.after (Write.ofWord a v) a = lo v :=
    (Function.update_of_ne hne ..).trans (Function.update_self ..)
  rw [word, hhi, hlo, word_hi_lo]

theorem after_ofWord_of_ne {b : UInt16} (h : b ≠ a) (h' : b ≠ a + 1) :
    mem.after (Write.ofWord a v) b = mem b :=
  after_of_not_mem (Write.forall_mem_ofWord (p := (· ≠ b)) h.symm h'.symm v)

end View

namespace RamWindow
variable {w : RamWindow}

theorem size_write (w : RamWindow) (a : UInt16) (v : UInt8) : (w.write a v).size = w.size := by
  unfold write
  split <;> rfl

/-- All of the address space. -/
def full (cells : Bytes addressSpace) : RamWindow where
  size := addressSpace
  cells := cells
  start := 0
  fits := Nat.le_refl _
  echo := none

theorem read_full (cells : Bytes addressSpace) (a : UInt16) :
    (full cells).read a = some (cells.get ⟨a.toNat, a.toNat_lt⟩) := by
  have hall : (full cells).start ≤ a ∧ a.toNat - (full cells).start.toNat < (full cells).size :=
    ⟨UInt16.zero_le, a.toNat_lt⟩
  rw [read, offset?, dif_pos hall]
  rfl

theorem place?_of_full (h : w.size = addressSpace) (a : UInt16) : w.place? a = some a.toNat := by
  have hstart : w.start = 0 := by
    have hfits := w.fits
    rw [h] at hfits
    exact UInt16.toNat_inj.1 (by show _ = 0; omega)
  rw [place?_eq, hstart, if_pos ⟨UInt16.zero_le, h ▸ a.toNat_lt⟩]
  rfl

end RamWindow

namespace Bus
variable {π : Type} [HostDevice π] {bus : Bus π} {mem : View}

/-- The interrupt registers in front of RAM for the whole address space, which holds `mem`. -/
def Holds (mem : View) (bus : Bus π) : Prop :=
  ∃ w : RamWindow, w.size = addressSpace ∧ bus.devices = [.interrupts, .ram w] ∧
    ∀ a, w.read a = some (mem a)

/-- Such a bus with any bytes in its RAM. -/
def ofCells (cells : Bytes addressSpace) (irq : Interrupts) : Bus π where
  devices := [.interrupts, .ram (.full cells)]
  irq := irq

omit [HostDevice π] in
theorem holds_ofCells (cells : Bytes addressSpace) (irq : Interrupts) :
    (ofCells cells irq : Bus π).Holds fun a => cells.get ⟨a.toNat, a.toNat_lt⟩ :=
  ⟨.full cells, rfl, rfl, RamWindow.read_full cells⟩

namespace Holds

omit [HostDevice π] in
theorem congr {bus' : Bus π} (h : bus.Holds mem) (hds : bus'.devices = bus.devices) :
    bus'.Holds mem := by
  obtain ⟨w, hsize, hbus, hread⟩ := h
  exact ⟨w, hsize, hds.trans hbus, hread⟩

theorem read (h : bus.Holds mem) {a : UInt16} (ha : Visible a) : bus.read a = mem a := by
  obtain ⟨w, -, hds, hread⟩ := h
  have hirq : bus.irq.read a = none := by rw [Interrupts.read, if_neg ha.1, if_neg ha.2]
  unfold Bus.read
  rw [hds]
  simp only [List.findSome?_cons, Device.read, hirq, hread]
  rfl

theorem word_read (h : bus.Holds mem) {a : UInt16} (ha : Visible a) (ha' : Visible (a + 1)) :
    View.word bus.read a = mem.word a :=
  View.word_congr (h.read ha) (h.read ha')

theorem write (h : bus.Holds mem) (a : UInt16) (v : UInt8) :
    (bus.write a v).Holds (Function.update mem a v) := by
  obtain ⟨w, hsize, hds, hread⟩ := h
  refine ⟨w.write a v, (w.size_write a v).trans hsize, ?_, fun b => ?_⟩
  · show bus.devices.map _ = _
    rw [hds]
    rfl
  · rw [RamWindow.read_write (RamWindow.place?_of_full hsize b), RamWindow.place?_of_full hsize a,
      hread, Function.update_apply]
    by_cases hab : b = a
    · rw [if_pos hab, if_pos (by rw [hab])]
    · rw [if_neg hab, if_neg fun heq => hab (UInt16.toNat_inj.1 (Option.some.inj heq)).symm]

theorem store (h : bus.Holds mem) (W : List Write) : (bus.store W).Holds (mem.after W) := by
  induction W generalizing bus mem with
  | nil => exact h
  | cons w W ih => exact ih (h.write w.address w.value)

omit [HostDevice π] in
theorem acknowledge (h : bus.Holds mem) (act : Activity) :
    (Machine.acknowledge act bus).Holds mem := by
  cases act with
  | execute i => exact h
  | dispatch l => exact h.congr rfl

end Holds

/-- Writes that spare the interrupt registers leave them alone. -/
theorem irq_store {W : List Write} (h : ∀ w ∈ W, Visible w.address) : (bus.store W).irq = bus.irq := by
  induction W generalizing bus with
  | nil => rfl
  | cons w W ih =>
    obtain ⟨hf, he⟩ := h w List.mem_cons_self
    exact (ih fun x hx => h x (List.mem_cons_of_mem _ hx)).trans (irq_write_of_ne hf he)

end Bus

end Dmg
