import Dmg.Word

/-! # Hexadecimal text

Numbers are shown in lower-case hexadecimal, filled up with zeros on the left to a least width. -/

namespace Dmg

/-- The hexadecimal digits of `n`, at least `width` of them. -/
def hex (width n : Nat) : String :=
  String.ofList ((Nat.toDigits 16 n).leftpad width '0')

def hexByte (b : UInt8) : String := hex 2 b.toNat

def hexWord (w : UInt16) : String := hex 4 w.toNat

end Dmg
