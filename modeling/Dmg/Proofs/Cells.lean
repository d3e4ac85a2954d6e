import Dmg.Proofs.MemoryMap

/-! # What a write to RAM changes

In a handheld two addresses can be one byte of work RAM (`SameCell`). A write to RAM is read at the
addresses of its byte, and every other byte reads as before, unless it is a register that changes by
itself (`FlatMemory.read_append`). -/

namespace Dmg

/-- `a` lies in the echo, and `b` is the address in work RAM that it repeats. -/
def Echoes (a b : UInt16) : Prop := 0xE000 ≤ a ∧ a ≤ 0xFDFF ∧ a = b + 0x2000

/-- The two addresses are one byte. -/
def SameCell (a b : UInt16) : Prop := a = b ∨ Echoes a b ∨ Echoes b a

instance (a b : UInt16) : Decidable (Echoes a b) := inferInstanceAs (Decidable (_ ∧ _ ∧ _))

instance (a b : UInt16) : Decidable (SameCell a b) := inferInstanceAs (Decidable (_ ∨ _ ∨ _))

/-- Work RAM with its echo, or high RAM. -/
def InRam (a : UInt16) : Prop := 0xC000 ≤ a ∧ a ≤ 0xFDFF ∨ 0xFF80 ≤ a ∧ a ≤ 0xFFFE

/-- A byte that only a write to it changes, on a handheld with `n` devices attached: it is no register
of the timer and not IF, and no device of the host answers there. -/
def Settled (n : Nat) (a : UInt16) : Prop :=
  ¬ (0xFF04 ≤ a ∧ a ≤ 0xFF07) ∧ a ≠ ifAddress ∧ (Unmapped a → n = 0)

variable {a b : UInt16}

theorem SameCell.refl (a : UInt16) : SameCell a a := .inl rfl

theorem sameCell_workRam (h : 0xC000 ≤ a) (h' : a ≤ 0xDFFF) (b : UInt16) :
    SameCell a b ↔ b = a ∨ b = a + 0x2000 ∧ b ≤ 0xFDFF := by
  unfold SameCell Echoes
  grind

theorem sameCell_echo (h : 0xE000 ≤ a) (h' : a ≤ 0xFDFF) (b : UInt16) :
    SameCell a b ↔ SameCell (a - 0x2000) b := by
  unfold SameCell Echoes
  grind

theorem sameCell_of_not_workRam (h : a < 0xC000 ∨ 0xFDFF < a) (b : UInt16) : SameCell a b ↔ b = a := by
  unfold SameCell Echoes
  grind

theorem SameCell.inRam (h : SameCell a b) (hb : InRam b) : InRam a := by
  unfold SameCell Echoes at h
  unfold InRam at hb ⊢
  grind

theorem InRam.settled (h : InRam a) (n : Nat) : Settled n a := by
  unfold InRam at h
  unfold Settled Unmapped ifAddress
  grind

theorem lastWritten_append {p : UInt16 → Prop} [DecidablePred p] (W ws : List Write) :
    lastWritten (W ++ ws) p = (lastWritten ws p).or (lastWritten W p) := by
  unfold lastWritten
  rw [List.reverse_append, List.find?_append, Option.map_or]

theorem lastWritten_eq_none {p : UInt16 → Prop} [DecidablePred p] {W : List Write}
    (h : ∀ w ∈ W, ¬ p w.address) : lastWritten W p = none := by
  simpa [lastWritten] using h

namespace FlatMemory
variable {image : Array UInt8} {boot : Option (Array UInt8)} {W ws : List Write}
  {read read' : UInt16 → UInt8}

/-- Below the RAM the images decide, and writes to RAM do not uncover the cartridge. -/
theorem read_append_rom (h : FlatMemory image boot W read) (h' : FlatMemory image boot (W ++ ws) read')
    (hws : ∀ w ∈ ws, InRam w.address) (ha : a < 0x8000) : read' a = read a := by
  have hkeep : ∀ w ∈ ws, w.address ≠ bootDisable := by
    intro w hw
    have hram := hws w hw
    unfold InRam at hram
    grind [bootDisable]
  -- What is uncovered stays so, and the boot image answers as long as no write has disabled it.
  by_cases hrom : boot = none ∨ (∃ w ∈ W, w.address = bootDisable) ∨ 0x100 ≤ a
  · have hrom' : boot = none ∨ (∃ w ∈ W ++ ws, w.address = bootDisable) ∨ 0x100 ≤ a := by
      refine hrom.imp_right (Or.imp_left ?_)
      rintro ⟨w, hw, hdis⟩
      exact ⟨w, List.mem_append_left _ hw, hdis⟩
    exact Option.some.inj ((h'.rom a ha hrom').symm.trans (h.rom a ha hrom))
  · simp only [not_or, not_exists, not_and] at hrom
    obtain ⟨hboot, hcover, hlow⟩ := hrom
    obtain ⟨b, hb⟩ := Option.ne_none_iff_exists'.1 hboot
    have hlt : a < 0x100 := by grind
    have hcover' : ∀ w ∈ W ++ ws, w.address ≠ bootDisable := fun w hw =>
      (List.mem_append.1 hw).elim (hcover w) (hkeep w)
    exact Option.some.inj ((h'.bootRom b hb hcover' a hlt).symm.trans (h.bootRom b hb hcover a hlt))

theorem read_append_workRam (h : FlatMemory image boot W read)
    (h' : FlatMemory image boot (W ++ ws) read') (ha : 0xC000 ≤ a) (ha' : a ≤ 0xDFFF) :
    read' a = (lastWritten ws (SameCell a)).getD (read a) := by
  rw [h'.workRam a ha ha', h.workRam a ha ha', lastWritten_append,
    lastWritten_congr (sameCell_workRam ha ha')]
  cases lastWritten ws fun b => b = a ∨ b = a + 0x2000 ∧ b ≤ 0xFDFF <;> rfl

theorem read_append_echo (h : FlatMemory image boot W read)
    (h' : FlatMemory image boot (W ++ ws) read') (ha : 0xE000 ≤ a) (ha' : a ≤ 0xFDFF) :
    read' a = (lastWritten ws (SameCell a)).getD (read a) := by
  rw [h'.echo a ha ha', h.echo a ha ha', lastWritten_congr (sameCell_echo ha ha')]
  exact h.read_append_workRam h' (by grind) (by grind)

theorem read_append_highRam (h : FlatMemory image boot W read)
    (h' : FlatMemory image boot (W ++ ws) read') (ha : 0xFF80 ≤ a) (ha' : a ≤ 0xFFFE) :
    read' a = (lastWritten ws (SameCell a)).getD (read a) := by
  rw [h'.highRam a ha ha', h.highRam a ha ha', lastWritten_append,
    lastWritten_congr (sameCell_of_not_workRam (.inr (by grind)))]
  cases lastWritten ws (· = a) <;> rfl

theorem read_append_of_not_inRam {n : Nat} (h : FlatMemory image boot W read)
    (h' : FlatMemory image boot (W ++ ws) read') (hws : ∀ w ∈ ws, InRam w.address) (ha : Settled n a)
    (hram : ¬ InRam a) (hn : n = 0 → Unmapped a → read' a = read a) : read' a = read a := by
  have hregion : a < 0x8000 ∨ 0xA000 ≤ a ∧ a ≤ 0xBFFF ∨ a = 0xFFFF ∨ Unmapped a := by
    unfold Settled ifAddress at ha
    unfold InRam at hram
    unfold Unmapped
    grind
  rcases hregion with hrom | ⟨hlow, hhigh⟩ | rfl | hunmapped
  · exact h.read_append_rom h' hws hrom
  · rw [h'.cartridgeRam a hlow hhigh, h.cartridgeRam a hlow hhigh]
  · have hnone : lastWritten ws (· = 0xFFFF) = none :=
      lastWritten_eq_none fun w hw heq => hram (heq ▸ hws w hw)
    rw [h'.enable, h.enable, lastWritten_append, hnone, Option.none_or]
  · exact hn (ha.2.2 hunmapped) hunmapped

/-- More writes to RAM change the bytes that they are made to, and no others. -/
theorem read_append {n : Nat} (h : FlatMemory image boot W read)
    (h' : FlatMemory image boot (W ++ ws) read') (hws : ∀ w ∈ ws, InRam w.address) (ha : Settled n a)
    (hn : n = 0 → Unmapped a → read' a = read a) :
    read' a = (lastWritten ws (SameCell a)).getD (read a) := by
  by_cases hram : InRam a
  · rcases hram with ⟨hlow, hhigh⟩ | ⟨hlow, hhigh⟩
    · by_cases hwork : a ≤ 0xDFFF
      · exact h.read_append_workRam h' hlow hwork
      · exact h.read_append_echo h' (by grind) hhigh
    · exact h.read_append_highRam h' hlow hhigh
  · have hnone : lastWritten ws (SameCell a) = none :=
      lastWritten_eq_none fun w hw hsame => hram (hsame.inRam (hws w hw))
    rw [hnone, h.read_append_of_not_inRam h' hws ha hram hn]
    rfl

end FlatMemory

theorem Bus.Mapped.read_append {π : Type} [HostDevice π] {bus bus' : Bus π} {overlay : BootOverlay}
    {n : Nat} {W ws : List Write} (h : bus.Mapped overlay n W) (h' : bus'.Mapped overlay n (W ++ ws))
    (hws : ∀ w ∈ ws, InRam w.address) (ha : Settled n a) :
    bus'.read a = (lastWritten ws (SameCell a)).getD (bus.read a) := by
  refine h.flatMemory.read_append h'.flatMemory hws ha ?_
  rintro rfl hunmapped
  rw [h.toWired.read_unmapped hunmapped, h'.toWired.read_unmapped hunmapped]

end Dmg
