/-! # Blocks of bytes

Read-only and read-write memory as a block of known size, addressed from zero. -/

namespace Dmg

abbrev Bytes (size : Nat) := Vector UInt8 size

namespace Bytes
variable {size : Nat}

/-- A block of zeros. -/
def zeros (size : Nat) : Bytes size := Vector.replicate size 0

/-- The block with these contents, if there are `size` of them. -/
def ofArray? (size : Nat) (contents : Array UInt8) : Option (Bytes size) :=
  if h : contents.size = size then some ⟨contents, h⟩ else none

/-- The byte at `i`; none outside the block. -/
def read? (m : Bytes size) (i : Nat) : Option UInt8 := m[i]?

/-- The block with `v` at `i`; none outside the block. -/
def write? (m : Bytes size) (i : Nat) (v : UInt8) : Option (Bytes size) :=
  if h : i < size then some (m.set i v) else none

end Bytes

end Dmg
