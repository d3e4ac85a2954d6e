/-! # Flags

The four condition flags of the processor. Kept as a byte (the register F) they occupy the high
nibble; the low nibble does not exist and reads as zero (`toByte_ofByte`). -/

namespace Dmg

/-- Zero, subtract, half carry (out of bit 3) and carry (out of bit 7). -/
structure Flags where
  z : Bool := false
  n : Bool := false
  h : Bool := false
  c : Bool := false
deriving DecidableEq

namespace Flags

/-- The byte F. -/
def toByte (f : Flags) : UInt8 :=
  (if f.z then 0x80 else 0) ||| (if f.n then 0x40 else 0) ||| (if f.h then 0x20 else 0) |||
    (if f.c then 0x10 else 0)

/-- The flags held by a byte; its low nibble is dropped. -/
def ofByte (b : UInt8) : Flags where
  z := b &&& 0x80 != 0
  n := b &&& 0x40 != 0
  h := b &&& 0x20 != 0
  c := b &&& 0x10 != 0

@[simp] theorem ofByte_toByte (f : Flags) : ofByte f.toByte = f := by
  rcases f with ⟨_ | _, _ | _, _ | _, _ | _⟩ <;> decide

theorem toByte_ofByte (b : UInt8) : (ofByte b).toByte = b &&& 0xF0 := by
  have key : ∀ n : Fin 256, (ofByte (UInt8.ofNat n)).toByte = UInt8.ofNat n &&& 0xF0 := by
    decide +kernel
  simpa using key ⟨b.toNat, b.toNat_lt⟩

end Flags

end Dmg
