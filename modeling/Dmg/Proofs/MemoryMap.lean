import Dmg.Probe
import Dmg.Proofs.Wiring

/-! # The memory map of the handheld

Outside its registers a handheld is one flat memory (`FlatMemory`): the images of its cartridge and
its boot program and the writes that reached the bus decide every byte, whatever is attached behind,
whatever the program does and whether it fails (`Machine.flatMemory_handheld`).

The proof is by regions. In each of them one device of the wiring answers, and those in front of it
do not (`Bus.Wired.read_eq`). -/

namespace Dmg

/-- What reads give once `W` has been written, in a handheld with these images. -/
structure FlatMemory (image : Array UInt8) (boot : Option (Array UInt8)) (W : List Write)
    (read : UInt16 → UInt8) : Prop where
  bootRom : ∀ b ∈ boot, (∀ w ∈ W, w.address ≠ bootDisable) →
    ∀ a < 0x100, b[a.toNat]? = some (read a)
  rom : ∀ a < 0x8000, boot = none ∨ (∃ w ∈ W, w.address = bootDisable) ∨ 0x100 ≤ a →
    image[a.toNat]? = some (read a)
  cartridgeRam : ∀ a, 0xA000 ≤ a → a ≤ 0xBFFF → read a = 0xFF
  workRam : ∀ a, 0xC000 ≤ a → a ≤ 0xDFFF →
    read a = (lastWritten W fun b => b = a ∨ b = a + 0x2000 ∧ b ≤ 0xFDFF).getD 0
  echo : ∀ a, 0xE000 ≤ a → a ≤ 0xFDFF → read a = read (a - 0x2000)
  highRam : ∀ a, 0xFF80 ≤ a → a ≤ 0xFFFE → read a = (lastWritten W (· = a)).getD 0
  enable : read 0xFFFF = 0xE0 ||| (lastWritten W (· = 0xFFFF)).getD 0 &&& 0x1F

/-- The addresses at which nothing in a handheld answers: video memory, object memory and the
registers of devices it does not have. -/
def Unmapped (a : UInt16) : Prop :=
  0x8000 ≤ a ∧ a ≤ 0x9FFF ∨ 0xFE00 ≤ a ∧ a ≤ 0xFF03 ∨ 0xFF08 ≤ a ∧ a ≤ 0xFF0E ∨
    0xFF10 ≤ a ∧ a ≤ 0xFF7F

/-! ### Where each device answers -/

theorem Interrupts.read_eq_none {irq : Interrupts} {a : UInt16}
    (h : a ≤ 0xFF0E ∨ 0xFF10 ≤ a ∧ a ≤ 0xFFFE) : irq.read a = none := by
  have hf : a ≠ ifAddress := by grind [ifAddress]
  have he : a ≠ ieAddress := by grind [ieAddress]
  rw [read, if_neg hf, if_neg he]

theorem Timer.read_eq_none {t : Timer} {a : UInt16} (h : a ≤ 0xFF03 ∨ 0xFF08 ≤ a) :
    t.read a = none := by
  grind [read, divAddress, timaAddress, tmaAddress, tacAddress]

theorem place?_workRam (a : UInt16) : workRam.place? a =
    if 0xC000 ≤ a ∧ a ≤ 0xDFFF then some (a.toNat - 0xC000)
    else if 0xE000 ≤ a ∧ a ≤ 0xFDFF then some (a.toNat - 0xE000) else none := by
  rw [RamWindow.place?_eq]
  have hmain : (workRam.start ≤ a ∧ a.toNat - workRam.start.toNat < workRam.size) ↔
      0xC000 ≤ a ∧ a ≤ 0xDFFF := RamWindow.le_and_sub_lt_iff rfl
  have hecho : ((0xE000 : UInt16) ≤ a ∧ a.toNat - (0xE000 : UInt16).toNat < 0x1E00) ↔
      0xE000 ≤ a ∧ a ≤ 0xFDFF := RamWindow.le_and_sub_lt_iff rfl
  simp only [hmain]
  split
  · rfl
  · show (if (0xE000 : UInt16) ≤ a ∧ a.toNat - (0xE000 : UInt16).toNat < 0x1E00 then _ else _) = _
    simp only [hecho]
    rfl

/-- In work RAM, an address shares its place with its echo alone, and the last 512 bytes have none. -/
theorem place?_workRam_eq_iff {a : UInt16} (h : 0xC000 ≤ a) (h' : a ≤ 0xDFFF) (b : UInt16) :
    workRam.place? b = workRam.place? a ↔ b = a ∨ b = a + 0x2000 ∧ b ≤ 0xFDFF := by
  have hadd : (a + 0x2000).toNat = a.toNat + 0x2000 := by
    rw [UInt16.le_iff_toNat_le] at h'
    have hlt : a.toNat < 0xE000 := Nat.lt_succ_of_le h'
    rw [UInt16.toNat_add]
    show (_ + 0x2000) % 0x10000 = _
    omega
  rw [place?_workRam a, if_pos ⟨h, h'⟩, place?_workRam b, ← UInt16.toNat_inj, ← UInt16.toNat_inj, hadd]
  simp only [UInt16.le_iff_toNat_le, UInt16.reduceToNat] at h h' ⊢
  split
  · simp only [Option.some.injEq]; omega
  · split
    · simp only [Option.some.injEq]; omega
    · simp only [reduceCtorEq, false_iff]; omega

theorem place?_workRam_echo {a : UInt16} (h : 0xE000 ≤ a) (h' : a ≤ 0xFDFF) :
    workRam.place? (a - 0x2000) = workRam.place? a := by
  have hsub : (a - 0x2000).toNat = a.toNat - 0x2000 :=
    UInt16.toNat_sub_of_le _ _ (UInt16.le_trans (by decide) h)
  rw [place?_workRam, place?_workRam]
  simp only [UInt16.le_iff_toNat_le, hsub, UInt16.reduceToNat] at h h' ⊢
  rw [if_pos (by omega), if_neg (by omega), if_pos ⟨h, h'⟩]
  exact congrArg some (by omega)

theorem place?_highRam (a : UInt16) : highRam.place? a =
    if 0xFF80 ≤ a ∧ a ≤ 0xFFFE then some (a.toNat - 0xFF80) else none := by
  rw [RamWindow.place?_eq]
  have hmain : (highRam.start ≤ a ∧ a.toNat - highRam.start.toNat < highRam.size) ↔
      0xFF80 ≤ a ∧ a ≤ 0xFFFE := RamWindow.le_and_sub_lt_iff rfl
  simp only [hmain]
  rfl

theorem place?_highRam_eq_iff {a : UInt16} (h : 0xFF80 ≤ a) (h' : a ≤ 0xFFFE) (b : UInt16) :
    highRam.place? b = highRam.place? a ↔ b = a := by
  rw [place?_highRam a, if_pos ⟨h, h'⟩, place?_highRam b, ← UInt16.toNat_inj]
  simp only [UInt16.le_iff_toNat_le, UInt16.reduceToNat] at h h' ⊢
  split
  · simp only [Option.some.injEq]; omega
  · simp only [reduceCtorEq, false_iff]; omega

/-- The built-in RAM answers nowhere else. -/
theorem read_workRam_eq_none {a : UInt16} (h : a ≤ 0xBFFF ∨ 0xFE00 ≤ a) (W : List Write) :
    (workRam.after W).read a = none := by
  refine RamWindow.read_eq_none ?_
  rw [RamWindow.place?_after, place?_workRam]
  rw [if_neg (by grind), if_neg (by grind)]

theorem read_highRam_eq_none {a : UInt16} (h : a ≤ 0xFF7F) (W : List Write) :
    (highRam.after W).read a = none := by
  refine RamWindow.read_eq_none ?_
  rw [RamWindow.place?_after, place?_highRam]
  rw [if_neg (by grind)]

namespace BootOverlay
variable {b : BootOverlay} {a : UInt16}

theorem read_boot {image : Bytes bootSize} (hi : b.image = some image) (ha : a < 0x100) :
    b.read a = image.toArray[a.toNat]? := by
  have hboot : a.toNat < bootSize := UInt16.lt_iff_toNat_lt.1 ha
  simp only [read, hi]
  rw [dif_pos hboot]
  exact (Array.getElem?_eq_getElem _).symm

theorem read_of_uncovered (h : b.image = none ∨ 0x100 ≤ a) : b.read a = b.cartridge.read a := by
  unfold read
  rcases h with h | h
  · rw [h]
  · have ha : ¬ a.toNat < bootSize := Nat.not_lt.2 (UInt16.le_iff_toNat_le.1 h)
    cases b.image with
    | none => rfl
    | some image => exact dif_neg ha

end BootOverlay

namespace Cartridge
variable {c : Cartridge} {a : UInt16}

theorem read_rom (ha : a < 0x8000) : c.read a = c.rom.image.toArray[a.toNat]? := by
  have hmaps : maps a = true := by grind [maps]
  have hrom : a.toNat < romSize := UInt16.lt_iff_toNat_lt.1 ha
  rw [read, if_pos hmaps, PlainRom.read, dif_pos hrom]
  exact (Array.getElem?_eq_getElem _).symm

theorem read_ram (h : 0xA000 ≤ a) (h' : a ≤ 0xBFFF) : c.read a = some 0xFF := by
  have hmaps : maps a = true := by grind [maps]
  have hrom : ¬ a.toNat < romSize := by
    have hle : 0x8000 ≤ a := by grind
    exact Nat.not_lt.2 (UInt16.le_iff_toNat_le.1 hle)
  rw [read, if_pos hmaps, PlainRom.read, dif_neg hrom]

theorem read_of_not_maps (h : maps a = false) : c.read a = none := by
  simp [read, h]

end Cartridge

/-! ### The map, region by region -/

namespace Bus.Wired
variable {π : Type} [HostDevice π] {bus : Bus π} {overlay : BootOverlay} {n : Nat} {W : List Write}
  {a : UInt16}

/-- The first device that answers, along the wiring. -/
theorem read_eq (h : bus.Wired overlay n W) (a : UInt16) : ∃ (t : Timer) (others : List (Device π)),
    others.length = n ∧ bus.read a =
      ((bus.irq.read a).or (((workRam.after W).read a).or (((highRam.after W).read a).or
        (((overlay.after W).read a).or ((t.read a).or
          (others.findSome? fun d => d.read bus.irq a)))))).getD openBus := by
  have hcons (d : Device π) (ds : List (Device π)) :
      ((d :: ds).findSome? fun d => d.read bus.irq a) =
        (d.read bus.irq a).or (ds.findSome? fun d => d.read bus.irq a) := by
    rw [List.findSome?_cons]
    cases d.read bus.irq a <;> rfl
  obtain ⟨t, others, hds, hlen⟩ := h.devices
  refine ⟨t, others, hlen, ?_⟩
  unfold Bus.read
  rw [hds]
  simp only [wiring, hcons]
  rfl

theorem read_workRam (h : bus.Wired overlay n W) {i : Nat} (hi : workRam.place? a = some i)
    (ha : a ≤ 0xFDFF) : bus.read a = (lastWritten W fun b => workRam.place? b = some i).getD 0 := by
  obtain ⟨t, others, -, hread⟩ := h.read_eq a
  have hirq : bus.irq.read a = none := Interrupts.read_eq_none (by grind)
  rw [hread, hirq, RamWindow.read_after_of_zeros rfl hi]
  rfl

theorem read_highRam (h : bus.Wired overlay n W) (ha : 0xFF80 ≤ a) (ha' : a ≤ 0xFFFE) :
    bus.read a = (lastWritten W (· = a)).getD 0 := by
  obtain ⟨t, others, -, hread⟩ := h.read_eq a
  have hirq : bus.irq.read a = none := Interrupts.read_eq_none (by grind)
  have hwork : (workRam.after W).read a = none := read_workRam_eq_none (by grind) W
  have hplace := place?_highRam a
  rw [if_pos ⟨ha, ha'⟩] at hplace
  have hsame (b : UInt16) : highRam.place? b = some (a.toNat - 0xFF80) ↔ b = a := by
    rw [← hplace, place?_highRam_eq_iff ha ha']
  rw [hread, hirq, hwork, RamWindow.read_after_of_zeros rfl hplace, lastWritten_congr hsame]
  rfl

/-- Below the RAM, and where the cartridge could have its own, the overlay answers. -/
theorem read_overlay (h : bus.Wired overlay n W) (ha : a ≤ 0xBFFF) {v : UInt8}
    (hv : (overlay.after W).read a = some v) : bus.read a = v := by
  obtain ⟨t, others, -, hread⟩ := h.read_eq a
  have hirq : bus.irq.read a = none := Interrupts.read_eq_none (by grind)
  rw [hread, hirq, read_workRam_eq_none (.inl ha), read_highRam_eq_none (by grind), hv]
  rfl

/-- Without other devices nothing answers at the unmapped addresses. -/
theorem read_unmapped (h : bus.Wired overlay 0 W) (ha : Unmapped a) : bus.read a = openBus := by
  obtain ⟨t, others, hlen, hread⟩ := h.read_eq a
  obtain rfl := List.eq_nil_of_length_eq_zero hlen
  unfold Unmapped at ha
  have hirq : bus.irq.read a = none := Interrupts.read_eq_none (by grind)
  have hwork : (workRam.after W).read a = none := read_workRam_eq_none (by grind) W
  have hhigh : (highRam.after W).read a = none := read_highRam_eq_none (by grind) W
  have hoverlay : (overlay.after W).read a = none := by
    rw [BootOverlay.read_of_uncovered (.inr (by grind)), Cartridge.read_of_not_maps]
    grind [Cartridge.maps]
  have htimer : t.read a = none := Timer.read_eq_none (by grind)
  rw [hread, hirq, hwork, hhigh, hoverlay, htimer]
  rfl

end Bus.Wired

namespace Bus.Mapped
variable {π : Type} [HostDevice π] {bus : Bus π} {overlay : BootOverlay} {n : Nat} {W : List Write}

theorem read_enable (h : bus.Mapped overlay n W) :
    bus.read ieAddress = 0xE0 ||| (lastWritten W (· = ieAddress)).getD 0 &&& 0x1F := by
  obtain ⟨t, others, -, hread⟩ := h.read_eq ieAddress
  have hirq : bus.irq.read ieAddress = some (unusedBits ||| bus.irq.enabled) := rfl
  rw [hread, hirq, h.enabled]
  rfl

theorem flatMemory (h : bus.Mapped overlay n W) :
    FlatMemory overlay.cartridge.rom.image.toArray (overlay.image.map (·.toArray)) W bus.read where
  bootRom := by
    intro b hb hW a ha
    obtain ⟨image, hi, rfl⟩ := Option.map_eq_some_iff.1 hb
    have hread : (overlay.after W).read a = image.toArray[a.toNat]? := by
      rw [BootOverlay.after_eq, if_pos hW, BootOverlay.read_boot hi ha]
    have hsize : a.toNat < image.toArray.size := by
      rw [image.size_toArray]
      exact UInt16.lt_iff_toNat_lt.1 ha
    rw [Array.getElem?_eq_getElem hsize] at hread ⊢
    rw [h.read_overlay (by grind) hread]
  rom := by
    intro a ha hW
    have hsize : a.toNat < overlay.cartridge.rom.image.toArray.size := by
      rw [Vector.size_toArray]
      exact UInt16.lt_iff_toNat_lt.1 ha
    have hcover : (overlay.after W).image = none ∨ 0x100 ≤ a := by
      rw [BootOverlay.after_eq]
      rcases hW with hW | ⟨w, hw, hdis⟩ | hW
      · rw [Option.map_eq_none_iff] at hW
        left
        split
        · exact hW
        · rfl
      · rw [if_neg fun hall => hall w hw hdis]
        exact .inl rfl
      · exact .inr hW
    have hread : (overlay.after W).read a = overlay.cartridge.rom.image.toArray[a.toNat]? := by
      rw [BootOverlay.read_of_uncovered hcover, BootOverlay.after_cartridge, Cartridge.read_rom ha]
    rw [Array.getElem?_eq_getElem hsize] at hread ⊢
    rw [h.read_overlay (by grind) hread]
  cartridgeRam := by
    intro a ha ha'
    have hread : (overlay.after W).read a = some 0xFF := by
      rw [BootOverlay.read_of_uncovered (.inr (by grind)), Cartridge.read_ram ha ha']
    exact h.read_overlay ha' hread
  workRam := by
    intro a ha ha'
    have hplace := place?_workRam a
    rw [if_pos ⟨ha, ha'⟩] at hplace
    have hsame (b : UInt16) : workRam.place? b = some (a.toNat - 0xC000) ↔
        b = a ∨ b = a + 0x2000 ∧ b ≤ 0xFDFF := by
      rw [← hplace, place?_workRam_eq_iff ha ha']
    rw [h.read_workRam hplace (by grind), lastWritten_congr hsame]
  echo := by
    intro a ha ha'
    have hplace := place?_workRam a
    have hle : a - 0x2000 ≤ 0xFDFF := by grind
    rw [if_neg (by grind), if_pos ⟨ha, ha'⟩] at hplace
    rw [h.read_workRam hplace ha', h.read_workRam ((place?_workRam_echo ha ha').trans hplace) hle]
  highRam := fun a ha ha' => h.read_highRam ha ha'
  enable := h.read_enable

end Bus.Mapped

/-! ### The whole machine -/

namespace Machine
variable {π : Type} [HostDevice π]

/-- Whatever is attached behind that does no more to the interrupts than request them, and whatever the
host does, a handheld reads as flat memory. -/
theorem flatMemory_handheld [RequestsOnly π] {image : Array UInt8} {boot : Option (Array UInt8)} {cartridge : Cartridge}
    (hc : Cartridge.ofImage image = .ok cartridge) (hb : ∀ b ∈ boot, b.size = bootSize) :
    ∃ core : Machine π, (handheld cartridge boot).machine = .ok core ∧
      ∀ (ds : List (Device π)) (keep : Event → Bool) (ops : List HostOp),
        FlatMemory image boot ((core.attachAll ds).machine.written ops)
          ((core.attachAll ds).machine.operate keep ops).read ∧
        (ds = [] → ∀ a, Unmapped a → ((core.attachAll ds).machine.operate keep ops).read a = 0xFF) := by
  obtain ⟨overlay, ho, hcart, hboot⟩ := BootOverlay.ofImage_of_size cartridge hb
  obtain ⟨core, hcore, hwired⟩ := wired_handheld (π := π) ho
  refine ⟨core, hcore, fun ds keep ops => ?_⟩
  have hw := (hwired ds).session (session_operate keep ops _)
  constructor
  · have hflat := hw.flatMemory
    rw [hcart, Cartridge.image_of_ofImage hc, hboot] at hflat
    exact hflat
  · rintro rfl a ha
    exact hw.read_unmapped ha

/-- A handheld with a boot image of HALTs and a blank cartridge. A byte written to the echo is read
in work RAM, and the boot image is gone once 0xFF50 is written. -/
theorem flatMemory_handheld_echo : ∃ core : Machine Probe,
    (handheld ⟨⟨⟨.replicate romSize 0, Array.size_replicate⟩⟩⟩
      (some (.replicate bootSize 0x76))).machine = .ok core ∧
    (core.operate (fun _ => true) [.write 0xE123 0x42]).read 0xC123 = 0x42 ∧
    (core.operate (fun _ => true) [.write 0xE123 0x42]).read 0x0000 = 0x76 ∧
    (core.operate (fun _ => true) [.write 0xE123 0x42, .write bootDisable 1]).read 0x0000 = 0x00 := by
  have hc : Cartridge.ofImage (.replicate romSize 0) =
      .ok ⟨⟨⟨.replicate romSize 0, Array.size_replicate⟩⟩⟩ := by
    refine Cartridge.ofImage_of_size _ ?_
    rw [Array.getElem?_replicate, if_pos (by decide)]
  have hb : ∀ b ∈ some (Array.replicate bootSize (0x76 : UInt8)), b.size = bootSize := by simp
  obtain ⟨core, hcore, h⟩ := flatMemory_handheld (π := Probe) hc hb
  refine ⟨core, hcore, ?_, ?_, ?_⟩
  · exact (h [] _ [.write 0xE123 0x42]).1.workRam 0xC123 (by decide) (by decide)
  · have hread := (h [] (fun _ => true) [.write 0xE123 0x42]).1.bootRom _ rfl
      (by simp [written, bootDisable]) 0 (by decide)
    rw [Array.getElem?_replicate, if_pos (by decide)] at hread
    exact (Option.some.inj hread).symm
  · have hread := (h [] (fun _ => true) [.write 0xE123 0x42, .write bootDisable 1]).1.rom 0 (by decide)
      (.inr (.inl ⟨⟨bootDisable, 1⟩, by simp [written], rfl⟩))
    rw [Array.getElem?_replicate, if_pos (by decide)] at hread
    exact (Option.some.inj hread).symm

end Machine

end Dmg
