import Dmg.Bytes
import Dmg.Event
import Dmg.Error

/-! # Cartridges

A cartridge holds a program image whose header names the hardware on board. The only hardware
supported is 32 KiB of ROM and nothing else (type 0); where such a cartridge could have RAM it reads
as `0xFF`. -/

namespace Dmg

/-- Bytes of a program image. -/
def romSize : Nat := 0x8000

/-- Offset of the type byte in a program image. -/
def typeOffset : Nat := 0x147

/-- A cartridge's chip of plain ROM. -/
structure PlainRom where
  image : Bytes romSize

namespace PlainRom

def ofImage (image : Array UInt8) : Except CartridgeError PlainRom :=
  if h : image.size = romSize then .ok ⟨⟨image, h⟩⟩ else .error (.size romSize image.size)

/-- The chip answers every address it is asked for. -/
def read (r : PlainRom) (a : UInt16) : UInt8 :=
  if h : a.toNat < romSize then r.image[a.toNat] else 0xFF

/-- Writing changes nothing, and is reported where it hits the ROM. -/
def reports (a : UInt16) (v : UInt8) : List Event :=
  if a.toNat < romSize then [.romWriteIgnored a v] else []

end PlainRom

structure Cartridge where
  rom : PlainRom

namespace Cartridge

/-- A cartridge from its image. An image too short to name its hardware is judged by its size. -/
def ofImage (image : Array UInt8) : Except CartridgeError Cartridge :=
  match image[typeOffset]? with
  | none => .error (.size romSize image.size)
  | some code => if code = 0 then (PlainRom.ofImage image).map (⟨·⟩) else .error (.kind code)

/-- The addresses wired to the cartridge: its ROM and its RAM. -/
def maps (a : UInt16) : Bool := a < 0x8000 || (0xA000 ≤ a && a < 0xC000)

def read (c : Cartridge) (a : UInt16) : Option UInt8 := if maps a then some (c.rom.read a) else none

/-- What a write reports. -/
def reports (a : UInt16) (v : UInt8) : List Event := if maps a then PlainRom.reports a v else []

end Cartridge

end Dmg
