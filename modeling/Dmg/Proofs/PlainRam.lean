import Dmg.Proofs.Window
import Dmg.Proofs.WriteTrace

/-! # Windows that overlap

Windows of RAM without echoes may lie over each other in any way. A read sees the first one that
contains the address and a write reaches all of them, so each of them holds at an address what was
written there last (`RamWindow.read_after_of_zeroed`), and which one answers makes no difference. What
can be seen of them is one memory with holes (`Bus.read_store`). -/

namespace Dmg

/-! ### Windows without an echo -/

namespace RamWindow
variable {start : UInt16} {size : Nat} {w : RamWindow}

/-- The address is one of the window's own, not of its echo. -/
def Contains (w : RamWindow) (a : UInt16) : Prop :=
  w.start.toNat ≤ a.toNat ∧ a.toNat < w.start.toNat + w.size

instance (w : RamWindow) (a : UInt16) : Decidable (w.Contains a) := inferInstanceAs (Decidable (_ ∧ _))

theorem of_zeroed (h : zeroed start size = .ok w) : w.cells = .zeros w.size ∧ w.echo = none := by
  unfold zeroed at h
  split at h
  · cases h
    exact ⟨rfl, rfl⟩
  · cases h

theorem place?_of_echo_eq_none (h : w.echo = none) (a : UInt16) :
    w.place? a = if w.Contains a then some (a.toNat - w.start.toNat) else none := by
  have hiff : w.start ≤ a ∧ a.toNat - w.start.toNat < w.size ↔ w.Contains a := by
    rw [UInt16.le_iff_toNat_le, Contains]
    omega
  rw [place?_eq, h]
  exact if_congr hiff rfl rfl

/-- Without an echo no two addresses share a byte. -/
theorem place?_eq_iff (h : w.echo = none) {a b : UInt16} (ha : w.Contains a) :
    w.place? b = w.place? a ↔ b = a := by
  refine ⟨fun hab => ?_, congrArg w.place?⟩
  rw [place?_of_echo_eq_none h, place?_of_echo_eq_none h, if_pos ha] at hab
  split at hab
  · next hb =>
    have hsub := Option.some.inj hab
    have hstart := ha.1
    have hstart' := hb.1
    exact UInt16.toNat_inj.1 (by omega)
  · cases hab

theorem read_after_of_zeroed (h : zeroed start size = .ok w) (W : List Write) (a : UInt16) :
    (w.after W).read a = if w.Contains a then some ((lastWritten W (· = a)).getD 0) else none := by
  obtain ⟨hzeros, hecho⟩ := of_zeroed h
  have hplace := place?_of_echo_eq_none hecho a
  by_cases ha : w.Contains a
  · have hsame (b : UInt16) : w.place? b = some (a.toNat - w.start.toNat) ↔ b = a := by
      rw [← place?_eq_iff hecho ha, hplace, if_pos ha]
    rw [if_pos ha, read_after_of_zeros hzeros ((hsame a).2 rfl), lastWritten_congr hsame]
  · have hnone : (w.after W).place? a = none := by rw [place?_after, hplace, if_neg ha]
    rw [if_neg ha, read_eq_none hnone]

end RamWindow

/-! ### Writes of bytes and words -/

/-- What a bus can be asked to write. -/
inductive BusWrite where
  | byte (a : UInt16) (v : UInt8)
  /-- Low byte first. If that goes to the last address, the high byte goes to address zero. -/
  | word (a v : UInt16)

def BusWrite.bytes : BusWrite → List Write
  | .byte a v => [⟨a, v⟩]
  | .word a v => Write.ofWord a v

theorem lastWritten_ofWord (W : List Write) (a v b : UInt16) :
    lastWritten (W ++ Write.ofWord a v) (· = b) =
      if a + 1 = b then some (hi v) else if a = b then some (lo v) else lastWritten W (· = b) := by
  have hsplit : W ++ Write.ofWord a v = (W ++ [⟨a, lo v⟩]) ++ [⟨a + 1, hi v⟩] :=
    List.append_cons ..
  rw [hsplit, lastWritten_concat, lastWritten_concat]

namespace Bus
variable {π : Type} [HostDevice π]

def perform (bus : Bus π) : BusWrite → Bus π
  | .byte a v => bus.write a v
  | .word a v => (bus.write a (lo v)).write (a + 1) (hi v)

def performAll (bus : Bus π) (xs : List BusWrite) : Bus π := xs.foldl perform bus

theorem store_append (bus : Bus π) (V W : List Write) : bus.store (V ++ W) = (bus.store V).store W :=
  List.foldl_append

theorem perform_eq_store (bus : Bus π) (x : BusWrite) : bus.perform x = bus.store x.bytes := by
  cases x <;> rfl

theorem performAll_eq_store (bus : Bus π) (xs : List BusWrite) :
    bus.performAll xs = bus.store (xs.flatMap BusWrite.bytes) := by
  induction xs generalizing bus with
  | nil => rfl
  | cons x xs ih =>
    rw [List.flatMap_cons, store_append, ← perform_eq_store, ← ih]
    rfl

end Bus

/-! ### A bus of windows -/

/-- Where all that give anything give the same, it does not matter which of them is found. -/
theorem findSome?_eq_of_agree {α β : Type} {f : α → Option β} {p : α → Prop} [DecidablePred p] {v : β}
    {l : List α} (h : ∀ x ∈ l, f x = if p x then some v else none) :
    l.findSome? f = if ∃ x ∈ l, p x then some v else none := by
  induction l with
  | nil => simp
  | cons x l ih =>
    rw [List.findSome?_cons, h x List.mem_cons_self, ih fun y hy => h y (List.mem_cons_of_mem x hy)]
    by_cases hx : p x <;> simp [hx]

/-- The device is a window that contains the address. -/
def Device.Contains {π : Type} (d : Device π) (a : UInt16) : Prop :=
  match d with
  | .ram w => w.Contains a
  | _ => False

instance {π : Type} (d : Device π) (a : UInt16) : Decidable (d.Contains a) :=
  match d with
  | .ram w => inferInstanceAs (Decidable (w.Contains a))
  | .interrupts | .cartridge _ | .boot _ | .timer _ | .serial _ | .host _ => .isFalse id

theorem Device.after_ram {π : Type} [HostDevice π] (w : RamWindow) (W : List Write) :
    (ram w : Device π).after W = ram (w.after W) := by
  induction W generalizing w with
  | nil => rfl
  | cons x W ih => exact ih (w.write x.address x.value)

namespace Bus
variable {π : Type} {bus bus' : Bus π}

/-- All devices are windows of zeros without an echo. -/
def IsPlainRam (bus : Bus π) : Prop :=
  ∀ d ∈ bus.devices, ∃ start size w, RamWindow.zeroed start size = .ok w ∧ d = .ram w

/-- Some window contains the address. -/
def Maps (bus : Bus π) (a : UInt16) : Prop := ∃ d ∈ bus.devices, d.Contains a

instance (bus : Bus π) (a : UInt16) : Decidable (bus.Maps a) :=
  inferInstanceAs (Decidable (∃ d ∈ bus.devices, d.Contains a))

theorem IsPlainRam.of_perm (h : bus.IsPlainRam) (hperm : bus'.devices.Perm bus.devices) :
    bus'.IsPlainRam := fun d hd => h d (hperm.mem_iff.1 hd)

theorem maps_iff_of_perm (hperm : bus'.devices.Perm bus.devices) (a : UInt16) :
    bus'.Maps a ↔ bus.Maps a :=
  exists_congr fun _ => and_congr_left' hperm.mem_iff

variable [HostDevice π]

theorem read_store (h : bus.IsPlainRam) (W : List Write) (a : UInt16) :
    (bus.store W).read a = if bus.Maps a then (lastWritten W (· = a)).getD 0 else openBus := by
  have hdevice : ∀ d ∈ bus.devices, (d.after W).read (bus.store W).irq a =
      if d.Contains a then some ((lastWritten W (· = a)).getD 0) else none := by
    intro d hd
    obtain ⟨start, size, w, hw, rfl⟩ := h d hd
    rw [Device.after_ram]
    exact RamWindow.read_after_of_zeroed hw W a
  rw [read, devices_store, List.findSome?_map]
  show (bus.devices.findSome? fun d => (d.after W).read (bus.store W).irq a).getD openBus = _
  rw [findSome?_eq_of_agree hdevice]
  exact apply_ite (Option.getD · openBus) ..

theorem readWord_store_ofWord (h : bus.IsPlainRam) (W : List Write) (a v : UInt16) :
    ((bus.store W).store (Write.ofWord a v)).readWord a =
      word (if bus.Maps (a + 1) then hi v else openBus) (if bus.Maps a then lo v else openBus) := by
  have hlow : lastWritten (W ++ Write.ofWord a v) (· = a) = some (lo v) := by
    have hne : a + 1 ≠ a := by grind
    rw [lastWritten_ofWord, if_neg hne, if_pos rfl]
  have hhigh : lastWritten (W ++ Write.ofWord a v) (· = a + 1) = some (hi v) := by
    rw [lastWritten_ofWord, if_pos rfl]
  rw [← store_append, readWord, read_store h, read_store h, hlow, hhigh]
  rfl

theorem acts_as_one_memory (h : bus.IsPlainRam) (xs : List BusWrite) :
    (∀ a, (bus.performAll xs).read a =
      if bus.Maps a then (lastWritten (xs.flatMap BusWrite.bytes) (· = a)).getD 0 else 0xFF) ∧
    (∀ bus' : Bus π, bus'.devices.Perm bus.devices →
      ∀ a, (bus'.performAll xs).read a = (bus.performAll xs).read a) ∧
    ∀ a v, ((bus.performAll xs).perform (.word a v)).readWord a =
      word (if bus.Maps (a + 1) then hi v else 0xFF) (if bus.Maps a then lo v else 0xFF) := by
  refine ⟨fun a => ?_, fun bus' hperm a => ?_, fun a v => ?_⟩
  · rw [performAll_eq_store]
    exact read_store h _ a
  · rw [performAll_eq_store, performAll_eq_store, read_store h, read_store (h.of_perm hperm)]
    exact if_congr (maps_iff_of_perm hperm a) rfl rfl
  · rw [performAll_eq_store, perform_eq_store]
    exact readWord_store_ofWord h _ a v

/-- A window inside another, one that is empty, and one that ends at the last address, behind which
a word goes on at zero. -/
theorem acts_as_one_memory_overlapping :
    let low : RamWindow := ⟨0x20, .zeros 0x20, 0, by decide, none⟩
    let inner : RamWindow := ⟨0x08, .zeros 0x08, 0x10, by decide, none⟩
    let empty : RamWindow := ⟨0, .zeros 0, 0x40, by decide, none⟩
    let top : RamWindow := ⟨0x10, .zeros 0x10, 0xFFF0, by decide, none⟩
    let bus : Bus Empty := { devices := [.ram inner, .ram low, .ram empty, .ram top] }
    let bus' : Bus Empty := { devices := bus.devices.reverse }
    let xs : List BusWrite := [.byte 0x12 1, .word 0xFFFF 0xBEEF, .byte 0x12 7, .byte 0x40 9]
    bus.IsPlainRam ∧ bus'.devices.Perm bus.devices ∧
      (bus.performAll xs).read 0xFFFF = 0xEF ∧ (bus.performAll xs).read 0 = 0xBE ∧
      (bus.performAll xs).read 0x40 = 0xFF ∧
      (bus'.performAll xs).read 0x12 = 7 ∧ (bus'.performAll xs).read 0x13 = 0 ∧
      ((bus.performAll xs).perform (.word 0x1F 0x1234)).readWord 0x1F = 0xFF34 := by
  intro low inner empty top bus bus' xs
  have hplain : bus.IsPlainRam := by
    intro d hd
    simp only [bus, List.mem_cons, List.not_mem_nil, or_false] at hd
    rcases hd with rfl | rfl | rfl | rfl
    · exact ⟨0x10, 0x08, inner, rfl, rfl⟩
    · exact ⟨0, 0x20, low, rfl, rfl⟩
    · exact ⟨0x40, 0, empty, rfl, rfl⟩
    · exact ⟨0xFFF0, 0x10, top, rfl, rfl⟩
  have hperm : bus'.devices.Perm bus.devices := List.reverse_perm bus.devices
  obtain ⟨hread, hsame, hword⟩ := acts_as_one_memory hplain xs
  refine ⟨hplain, hperm, ?_, ?_, ?_, ?_, ?_, ?_⟩
  · exact (hread _).trans (by decide)
  · exact (hread _).trans (by decide)
  · exact (hread _).trans (by decide)
  · exact (hsame bus' hperm _).trans ((hread _).trans (by decide))
  · exact (hsame bus' hperm _).trans ((hread _).trans (by decide))
  · exact (hword _ _).trans (by decide)

end Bus

end Dmg
