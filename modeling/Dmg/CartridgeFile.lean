import Dmg.Cartridge

/-! # Cartridge files

Loading a cartridge from a file. The files are a function, so that what a load does depends on
nothing else. -/

namespace Dmg

/-- The contents of the files that can be read. -/
abbrev Files := String → Except FileError (Array UInt8)

/-- A cartridge read from a file. The log records that the file was read before its contents are
judged. -/
def Cartridge.ofFile (files : Files) (path : String) : Array Event × Except LoadError Cartridge :=
  match files path with
  | .error e => (#[], .error (.file e))
  | .ok image => (#[.loaded path image.size], (Cartridge.ofImage image).mapError .cartridge)

end Dmg
