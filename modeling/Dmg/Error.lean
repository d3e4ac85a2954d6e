import Dmg.Hex

/-! # Errors

Each kind of failure is a type of its own that says what went wrong; its text is given by one
function. -/

namespace Dmg

/-- The processor met a byte that is no opcode. -/
structure IllegalOpcode where
  pc : UInt16
  opcode : UInt8
deriving DecidableEq

def IllegalOpcode.message (e : IllegalOpcode) : String :=
  "unsupported opcode 0x" ++ hexByte e.opcode ++ " at pc 0x" ++ hexWord e.pc

/-- What is wrong with a cartridge image. -/
inductive CartridgeError where
  | kind (code : UInt8)
  | size (expected actual : Nat)
deriving DecidableEq

def CartridgeError.message : CartridgeError → String
  | .kind code => "unsupported cartridge type 0x" ++ hexByte code
  | .size expected actual =>
    "cartridge image is " ++ toString actual ++ " bytes, expected " ++ toString expected

/-- Parts of a machine that cannot be put together as asked: memory or its echo would run past the last
address, an echo is longer than the memory behind it, or a boot image has the wrong size. -/
inductive LayoutError where
  | window (start : UInt16) (size : Nat)
  | echoSize
  | echoWindow (start : UInt16) (size : Nat)
  | bootSize
deriving DecidableEq

def LayoutError.message : LayoutError → String
  | .window start size =>
    "RAM window 0x" ++ hexWord start ++ "+0x" ++ hex 1 size ++ " overflows the address space"
  | .echoSize => "echo larger than the RAM it mirrors"
  | .echoWindow start size =>
    "echo window 0x" ++ hexWord start ++ "+0x" ++ hex 1 size ++ " overflows the address space"
  | .bootSize => "boot image must be 256 bytes"

/-- Why a file could not be read. -/
inductive FileError where
  | notFound
  | notDirectory
  | isDirectory
  | nameTooLong
  | other (reason : String)
deriving DecidableEq

def FileError.message : FileError → String
  | .notFound => "No such file or directory (os error 2)"
  | .notDirectory => "Not a directory (os error 20)"
  | .isDirectory => "Is a directory (os error 21)"
  | .nameTooLong => "File name too long (os error 36)"
  | .other reason => reason

/-- Why a cartridge could not be loaded from a file. -/
inductive LoadError where
  | file (e : FileError)
  | cartridge (e : CartridgeError)
deriving DecidableEq

def LoadError.message : LoadError → String
  | .file e => "I/O error: " ++ e.message
  | .cartridge e => e.message

end Dmg
