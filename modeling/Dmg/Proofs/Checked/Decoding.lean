import Dmg.Proofs.Checked.Arithmetic
import Dmg.Proofs.Tables

/-! # Decoding by tables

The fields of an encoding are looked up in tables (`fieldOf`), and opcodes in the two tables that
are decoded once from all encodings (`opcodeTable`). The masks keep every field inside its table, so
the tables decode as `Instruction.decode?` and `Instruction.decodeCb` do, without a lookup that
misses. `Op.Sound` is what that buys the processor: no instruction stores to an immediate operand or
names a bit that a byte does not have. -/

namespace Dmg

open Unsigned (difference product)

/-- The entry of a table that a field names, `mask` being what is kept of the field. -/
def fieldOf {α : Type} (table : List α) (mask field : UInt8) : Option α :=
  table[(field &&& mask).toNat]?

def Pair.table : List Pair := [.bc, .de, .hl, .sp]
def StackPair.table : List StackPair := [.bc, .de, .hl, .af]
def Condition.table : List Condition := [.nz, .z, .nc, .c]
def AluOp.table : List AluOp := [.add, .adc, .sub, .sbc, .and, .xor, .or, .cp]
def Shift.table : List Shift := [.rlc, .rrc, .rl, .rr, .sla, .sra, .swap, .srl]

namespace Instruction

/-- Decoding as the bit fields `xx yyy zzz`, where `yyy` is also read as `pp q`. Encodings whose
operands are not looked up are decoded without. -/
def checkedDecode? (e : UInt8) : Option (Option Instruction) := do
  let y := (e >>> 3) &&& 7
  let z := e &&& 7
  let p := y >>> 1
  let q := y &&& 1
  match (e >>> 6).toNat, z.toNat with
  | 0, 0 =>
    if y < 4 then return decode? e
    else return branching e (.jr (some (← fieldOf Condition.table 3 (← difference y 4)))) 2 2 1
  | 0, 1 =>
    if q = 0 then return plain e (.loadPair (← fieldOf Pair.table 3 p)) 3 3
    else return plain e (.addHl (← fieldOf Pair.table 3 p)) 1 2
  | 0, 3 =>
    if q = 0 then return plain e (.incPair (← fieldOf Pair.table 3 p)) 1 2
    else return plain e (.decPair (← fieldOf Pair.table 3 p)) 1 2
  | 2, _ =>
    let src := Operand.ofField z.toNat
    return plain e (.alu (← fieldOf AluOp.table 7 y) src) 1 (if src.isMem then 2 else 1)
  | 3, 0 =>
    if y < 4 then return branching e (.ret (some (← fieldOf Condition.table 3 y))) 1 2 3
    else return decode? e
  | 3, 1 =>
    if q = 0 then return plain e (.pop (← fieldOf StackPair.table 3 p)) 1 3
    else return decode? e
  | 3, 2 =>
    if y < 4 then return branching e (.jp (some (← fieldOf Condition.table 3 y))) 3 3 1
    else return decode? e
  | 3, 4 =>
    if y < 4 then return branching e (.call (some (← fieldOf Condition.table 3 y))) 3 3 3
    else return decode? e
  | 3, 5 =>
    if q = 0 then return plain e (.push (← fieldOf StackPair.table 3 p)) 1 4
    else return decode? e
  | 3, 6 => return plain e (.alu (← fieldOf AluOp.table 7 y) .imm) 2 2
  | 3, 7 => return plain e (.rst (← product y.toUInt16 8)) 1 4
  | _, _ => return decode? e

def checkedDecodeCb (e : UInt8) : Option Instruction := do
  let i := decodeCb e
  if e >>> 6 = 0 then
    return { i with op := .shift (← fieldOf Shift.table 7 (e >>> 3)) (.ofField (e &&& 7).toNat) }
  else return i

/-- What each of the 256 encodings decodes to. -/
def opcodeTable {α : Type} (decode : UInt8 → Option α) : Option (List α) :=
  (List.range 256).mapM fun e => decode e.toUInt8

/-- An opcode, looked up in the table of a decoder. -/
def lookup {α : Type} (decode : UInt8 → Option α) (e : UInt8) : Option α := do
  (← opcodeTable decode)[e.toNat]?

theorem checkedDecode?_eq (e : UInt8) : checkedDecode? e = some (decode? e) := by
  have key : ∀ n : Fin 256, checkedDecode? (.ofNat n) = some (decode? (.ofNat n)) := by
    decide +kernel
  simpa using key ⟨e.toNat, e.toNat_lt⟩

theorem checkedDecodeCb_eq (e : UInt8) : checkedDecodeCb e = some (decodeCb e) := by
  have key : ∀ n : Fin 256, checkedDecodeCb (.ofNat n) = some (decodeCb (.ofNat n)) := by
    decide +kernel
  simpa using key ⟨e.toNat, e.toNat_lt⟩

/-- A table of a decoder that answers every byte has an entry for every byte. -/
theorem lookup_eq {α : Type} {decode : UInt8 → Option α} {f : UInt8 → α}
    (h : ∀ e, decode e = some (f e)) (e : UInt8) : lookup decode e = some (f e) := by
  have htable : opcodeTable decode = some ((List.range 256).map fun e => f e.toUInt8) := by
    unfold opcodeTable
    simp only [h]
    exact List.mapM_pure
  rw [lookup, htable]
  show ((List.range 256).map fun e => f e.toUInt8)[e.toNat]? = _
  rw [List.getElem?_map, List.getElem?_range e.toNat_lt]
  simp

end Instruction

namespace Op

/-- The operand that an operation stores to. -/
def target? : Op → Option Operand
  | .load dst _ => some dst
  | .inc t | .dec t | .shift _ t | .res _ t | .set _ t => some t
  | _ => none

/-- The number of the bit that an operation is about. -/
def bit? : Op → Option UInt8
  | .bit b _ | .res b _ | .set b _ => some b
  | _ => none

/-- What is stored to is not immediate, and a bit number is one of a byte. -/
def Sound (op : Op) : Prop := op.target? ≠ some .imm ∧ ∀ b ∈ op.bit?, b < 8

-- Named, lest the search find the instance that goes through all bytes.
instance (op : Op) : Decidable op.Sound :=
  @instDecidableAnd _ _ inferInstance (Option.decidableForallMem op.bit?)

namespace Sound
variable {op : Op}

theorem target_ne_imm (h : op.Sound) {t : Operand} (ht : op.target? = some t) : t ≠ .imm := by
  rintro rfl
  exact h.1 ht

theorem bit_lt (h : op.Sound) {b : UInt8} (hb : op.bit? = some b) : b < 8 := h.2 b hb

end Sound

end Op

theorem Instruction.Listed.sound {i : Instruction} (h : i.Listed) : i.op.Sound :=
  h.of_tables (fun i => i.op.Sound) (by decide +kernel) (by decide +kernel)

end Dmg
