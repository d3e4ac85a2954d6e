import Dmg.Cartridge

/-! # The boot image

A boot image covers the first 256 bytes of the cartridge until a write to `bootDisable` removes it
for good. -/

namespace Dmg

/-- Bytes of a boot image. -/
def bootSize : Nat := 0x100

/-- Any write here removes the boot image. -/
def bootDisable : UInt16 := 0xFF50

structure BootOverlay where
  cartridge : Cartridge
  image : Option (Bytes bootSize)

namespace BootOverlay

/-- The overlay of a cartridge by a boot image, or by none. -/
def ofImage (cartridge : Cartridge) : Option (Array UInt8) → Except LayoutError BootOverlay
  | none => .ok { cartridge, image := none }
  | some contents => match Bytes.ofArray? bootSize contents with
    | some image => .ok { cartridge, image := some image }
    | none => .error .bootSize

/-- Whether the boot image is still mapped. -/
def enabled (b : BootOverlay) : Bool := b.image.isSome

def read (b : BootOverlay) (a : UInt16) : Option UInt8 :=
  match b.image with
  | some image => if h : a.toNat < bootSize then some image[a.toNat] else b.cartridge.read a
  | none => b.cartridge.read a

def write (b : BootOverlay) (a : UInt16) : BootOverlay :=
  if a = bootDisable then { b with image := none } else b

/-- What a write reports. -/
def reports (b : BootOverlay) (a : UInt16) (v : UInt8) : List Event :=
  (if a = bootDisable && b.enabled then [.bootUnmapped] else []) ++ Cartridge.reports a v

end BootOverlay

end Dmg
