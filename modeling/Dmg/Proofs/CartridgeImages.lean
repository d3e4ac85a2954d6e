import Dmg.Proofs.Checked.Memory
import Dmg.Proofs.MemoryMap
import Dmg.Proofs.WriteTrace

/-! # Which images make a cartridge

An image is judged by the type byte of its header if it has one, and by its size if that byte names
plain ROM or is missing (`Cartridge.ofImage_eq_error_size`, `Cartridge.ofImage_eq_error_kind`).
What is left has as many bytes as the ROM has addresses, so no read of a cartridge fails. A write does
not change what is read. -/

namespace Dmg

theorem PlainRom.ofImage_eq_error {d : Array UInt8} (h : d.size ≠ romSize) :
    PlainRom.ofImage d = .error (.size romSize d.size) := dif_neg h

theorem Device.after_cartridge {π : Type} [HostDevice π] (c : Cartridge) (W : List Write) :
    (cartridge c : Device π).after W = cartridge c := by
  induction W with
  | nil => rfl
  | cons w W ih => exact ih

namespace Cartridge
variable {d : Array UInt8} {c : Cartridge} {code : UInt8} {a : UInt16}

theorem ofImage_eq_error_kind (h : d[typeOffset]? = some code) (hcode : code ≠ 0) :
    ofImage d = .error (.kind code) := by
  simp only [ofImage, h, if_neg hcode]

/-- The size decides where there is no type byte, and where that byte names plain ROM. -/
theorem ofImage_eq_error_size (h : d.size ≤ typeOffset ∨ d[typeOffset]? = some 0)
    (hsize : d.size ≠ romSize) : ofImage d = .error (.size romSize d.size) := by
  rcases h with hshort | hplain
  · simp only [ofImage, Array.getElem?_eq_none hshort]
  · simp only [ofImage, hplain, if_true, PlainRom.ofImage_eq_error hsize]
    rfl

theorem ofImage_isOk :
    (∃ c, ofImage d = .ok c) ↔ d.size = romSize ∧ d[typeOffset]? = some 0 := by
  constructor
  · rintro ⟨c, hc⟩
    have himage := image_of_ofImage hc
    refine ⟨himage ▸ c.rom.image.size_toArray, ?_⟩
    cases htype : d[typeOffset]? with
    | none =>
      rw [ofImage, htype] at hc
      cases hc
    | some code =>
      by_cases hcode : code = 0
      · rw [hcode]
      · rw [ofImage_eq_error_kind htype hcode] at hc
        cases hc
  · rintro ⟨hsize, htype⟩
    exact ⟨_, ofImage_of_size hsize htype⟩

theorem read_of_ofImage (h : ofImage d = .ok c) (ha : a < 0x8000) :
    ∃ v, d[a.toNat]? = some v ∧ c.read a = some v := by
  have hlt : a.toNat < d.size := by
    rw [(ofImage_isOk.1 ⟨c, h⟩).1]
    exact UInt16.lt_iff_toNat_lt.1 ha
  refine ⟨d[a.toNat], Array.getElem?_eq_getElem hlt, ?_⟩
  rw [read_rom ha, image_of_ofImage h, Array.getElem?_eq_getElem hlt]

variable {π : Type} [HostDevice π]

/-- Which images are accepted, what is wrong with the others, and what is read from an accepted one,
whatever has been written to it. -/
theorem ofImage_judges (d : Array UInt8) :
    ((∃ c, ofImage d = .ok c) ↔ d.size = 0x8000 ∧ d[0x147]? = some 0) ∧
    ((d.size ≤ 0x147 ∨ d[0x147]? = some 0) → d.size ≠ 0x8000 →
      ofImage d = .error (.size 0x8000 d.size)) ∧
    (∀ code, d[0x147]? = some code → code ≠ 0 → ofImage d = .error (.kind code)) ∧
    ∀ c, ofImage d = .ok c → ∀ (W : List Write) (irq : Interrupts) (a : UInt16),
      (a < 0x8000 → ∃ v, d[a.toNat]? = some v ∧
        ((Device.cartridge c : Device π).after W).checkedRead irq a = some (some v)) ∧
      (0xA000 ≤ a → a ≤ 0xBFFF →
        ((Device.cartridge c : Device π).after W).checkedRead irq a = some (some 0xFF)) ∧
      (¬ a < 0x8000 → ¬ (0xA000 ≤ a ∧ a ≤ 0xBFFF) →
        ((Device.cartridge c : Device π).after W).checkedRead irq a = some none) := by
  refine ⟨ofImage_isOk, ofImage_eq_error_size, fun code => ofImage_eq_error_kind, ?_⟩
  intro c hc W irq a
  have hread : ((Device.cartridge c : Device π).after W).checkedRead irq a = some (c.read a) := by
    rw [Device.after_cartridge, Device.checkedRead_eq]
    rfl
  rw [hread]
  refine ⟨fun ha => ?_, fun ha ha' => ?_, fun hrom hram => ?_⟩
  · obtain ⟨v, hv, hval⟩ := read_of_ofImage hc ha
    exact ⟨v, hv, congrArg some hval⟩
  · rw [read_ram ha ha']
  · have hmaps : maps a = false := by grind [maps]
    rw [read_of_not_maps hmaps]

/-- An image that names plain ROM amid other bytes, one that names other hardware and has as many
bytes as it takes for that, and one that has a byte less. -/
theorem ofImage_judges_plain :
    let d : Array UInt8 := (Array.replicate 0x8000 0x42).setIfInBounds 0x147 0
    (∃ c, ofImage d = .ok c ∧
      ((Device.cartridge c : Device Empty).after [⟨0x150, 9⟩]).checkedRead {} 0x150 =
        some (some 0x42) ∧
      ((Device.cartridge c : Device Empty).after [⟨0xA000, 9⟩]).checkedRead {} 0xA000 =
        some (some 0xFF) ∧
      ((Device.cartridge c : Device Empty).after []).checkedRead {} 0xC000 = some none) ∧
    ofImage (.replicate 0x148 7) = .error (.kind 7) ∧
    ofImage (.replicate 0x147 7) = .error (.size 0x8000 0x147) := by
  intro d
  have hsize : d.size = 0x8000 := by simp [d]
  have htype : d[0x147]? = some 0 := by simp [d]
  obtain ⟨hok, -, -, hread⟩ := ofImage_judges (π := Empty) d
  obtain ⟨c, hc⟩ := hok.2 ⟨hsize, htype⟩
  refine ⟨⟨c, hc, ?_, ?_, ?_⟩, ?_, ?_⟩
  · obtain ⟨v, hv, hval⟩ := (hread c hc [⟨0x150, 9⟩] {} 0x150).1 (by decide)
    have hbyte : d[(0x150 : UInt16).toNat]? = some 0x42 := by simp [d]
    rw [hval, ← hv, hbyte]
  · exact (hread c hc [⟨0xA000, 9⟩] {} 0xA000).2.1 (by decide) (by decide)
  · exact (hread c hc [] {} 0xC000).2.2 (by decide) (by decide)
  · exact (ofImage_judges (π := Empty) _).2.2.1 7 (by simp) (by decide)
  · have hshort := (ofImage_judges (π := Empty) (.replicate 0x147 7)).2.1 (.inl (by simp)) (by simp)
    rwa [Array.size_replicate] at hshort

end Cartridge

end Dmg
