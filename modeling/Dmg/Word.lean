/-! # Bytes and words

The processor handles bytes and 16-bit words. A word is split into its high and low byte
(`hi`, `lo`), put together again by `word`, and kept in memory low byte first. `signExtend` reads a
byte as a signed displacement. -/

namespace Dmg

/-- The high byte of a word. -/
def hi (w : UInt16) : UInt8 := (w / 0x100).toUInt8

/-- The low byte of a word. -/
def lo (w : UInt16) : UInt8 := w.toUInt8

/-- The word with high byte `h` and low byte `l`. -/
def word (h l : UInt8) : UInt16 := h.toUInt16 * 0x100 + l.toUInt16

theorem toNat_hi (w : UInt16) : (hi w).toNat = w.toNat / 256 := by
  have := w.toNat_lt
  simp [hi, UInt16.toNat_div]
  omega

theorem toNat_lo (w : UInt16) : (lo w).toNat = w.toNat % 256 := by
  simp [lo]

theorem toNat_word (h l : UInt8) : (word h l).toNat = h.toNat * 256 + l.toNat := by
  have := h.toNat_lt
  have := l.toNat_lt
  simp [word, UInt16.toNat_add, UInt16.toNat_mul]
  omega

@[simp] theorem hi_word (h l : UInt8) : hi (word h l) = h := by
  have := l.toNat_lt
  apply UInt8.toNat_inj.mp
  rw [toNat_hi, toNat_word]
  omega

@[simp] theorem lo_word (h l : UInt8) : lo (word h l) = l := by
  have := l.toNat_lt
  apply UInt8.toNat_inj.mp
  rw [toNat_lo, toNat_word]
  omega

@[simp] theorem word_hi_lo (w : UInt16) : word (hi w) (lo w) = w := by
  apply UInt16.toNat_inj.mp
  rw [toNat_word, toNat_hi, toNat_lo]
  omega

/-- A byte as a two's complement number in 16 bits: adding it moves an address by -128 to 127. -/
def signExtend (b : UInt8) : UInt16 :=
  if b < 0x80 then b.toUInt16 else b.toUInt16 + 0xFF00

end Dmg
