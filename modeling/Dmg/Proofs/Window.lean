import Dmg.Bus
import Mathlib.Data.List.Induction

/-! # What a RAM window remembers

Two addresses of a window are one byte if they have the same place in its block
(`RamWindow.place?`). A read gives the last byte written to the place, through whichever address
(`RamWindow.read_after`). -/

namespace Dmg

/-- The value of the last write to an address with the property. -/
def lastWritten (W : List Write) (p : UInt16 → Prop) [DecidablePred p] : Option UInt8 :=
  (W.reverse.find? fun w => p w.address).map Write.value

section
variable {p q : UInt16 → Prop} [DecidablePred p] [DecidablePred q]

theorem lastWritten_concat (W : List Write) (w : Write) :
    lastWritten (W ++ [w]) p = if p w.address then some w.value else lastWritten W p := by
  unfold lastWritten
  rw [List.reverse_concat, List.find?_cons]
  by_cases h : p w.address <;> simp [h]

theorem lastWritten_congr (h : ∀ a, p a ↔ q a) (W : List Write) : lastWritten W p = lastWritten W q := by
  unfold lastWritten
  simp only [h]

end

namespace RamWindow
variable {w : RamWindow} {a b : UInt16} {i : Nat}

/-- The place of an address in the block of the window, as a number. -/
def place? (w : RamWindow) (a : UInt16) : Option Nat := (w.offset? a).map (·.val)

/-- The window after writes made one after the other. -/
def after (w : RamWindow) (W : List Write) : RamWindow :=
  W.foldl (fun w x => w.write x.address x.value) w

theorem after_concat (w : RamWindow) (W : List Write) (x : Write) :
    w.after (W ++ [x]) = (w.after W).write x.address x.value := by
  rw [after, List.foldl_append]; rfl

/-- An interval of addresses, by its size and by its last address. -/
theorem le_and_sub_lt_iff {start last : UInt16} {size : Nat} (h : start.toNat + size = last.toNat + 1) :
    start ≤ a ∧ a.toNat - start.toNat < size ↔ start ≤ a ∧ a ≤ last := by
  simp only [UInt16.le_iff_toNat_le]
  omega

/-- The place of an address in terms of the two intervals that are mapped. -/
theorem place?_eq (w : RamWindow) (a : UInt16) : w.place? a =
    if w.start ≤ a ∧ a.toNat - w.start.toNat < w.size then some (a.toNat - w.start.toNat)
    else match w.echo with
      | some e => if e.start ≤ a ∧ a.toNat - e.start.toNat < e.length
          then some (a.toNat - e.start.toNat) else none
      | none => none := by
  unfold place? offset?
  split
  · rfl
  · cases w.echo with
    | none => rfl
    | some e => dsimp only; split <;> rfl

theorem read_eq_none (h : w.place? a = none) : w.read a = none := by
  simp_all [place?, read]

/-- Places do not depend on what the cells hold. -/
theorem offset?_cells (w : RamWindow) (cells : Bytes w.size) (a : UInt16) :
    ({ w with cells } : RamWindow).offset? a = w.offset? a := by
  rcases w with ⟨size, _, start, fits, _ | e⟩ <;> rfl

theorem write_of_offset?_eq_some {k : Fin w.size} (h : w.offset? a = some k) (v : UInt8) :
    w.write a v = { w with cells := w.cells.set k v k.isLt } := by
  simp [write, h]

theorem place?_write (w : RamWindow) (a b : UInt16) (v : UInt8) : (w.write a v).place? b = w.place? b := by
  cases h : w.offset? a with
  | none => rw [write_of_offset?_eq_none h]
  | some k =>
    rw [write_of_offset?_eq_some h]
    exact congrArg (Option.map Fin.val) (offset?_cells w (w.cells.set k v k.isLt) b)

theorem place?_after (w : RamWindow) (W : List Write) (b : UInt16) : (w.after W).place? b = w.place? b := by
  induction W using List.reverseRecOn with
  | nil => rfl
  | append_singleton W x ih => rw [after_concat, place?_write, ih]

/-- After a write, the addresses with the same place read as what was written and the others as
before. -/
theorem read_write (hb : w.place? b = some i) (a : UInt16) (v : UInt8) :
    (w.write a v).read b = if w.place? a = some i then some v else w.read b := by
  obtain ⟨j, hj, rfl⟩ := Option.map_eq_some_iff.1 hb
  have hread (cells : Bytes w.size) : ({ w with cells } : RamWindow).read b = some cells[j] := by
    unfold read
    rw [offset?_cells, hj]
    rfl
  have hw : w.read b = some w.cells[j] := hread w.cells
  cases ha : w.offset? a with
  | none => simp [place?, ha]
  | some k =>
    rw [write_of_offset?_eq_some ha, hread, hw]
    by_cases hk : k.val = j.val
    · simp [place?, ha, hk]
    · simp [place?, ha, hk]

/-- A window answers with the last byte written to the place of the address. -/
theorem read_after (hb : w.place? b = some i) (W : List Write) :
    (w.after W).read b = (w.read b).map (lastWritten W fun a => w.place? a = some i).getD := by
  induction W using List.reverseRecOn with
  | nil =>
    show w.read b = _
    cases w.read b <;> rfl
  | append_singleton W x ih =>
    have hbW : (w.after W).place? b = some i := by rw [place?_after, hb]
    have hsome : (w.read b).isSome := by
      rw [read_isSome]
      simpa [place?] using congrArg Option.isSome hb
    obtain ⟨v, hv⟩ := Option.isSome_iff_exists.1 hsome
    rw [after_concat, read_write hbW, place?_after, ih, lastWritten_concat, hv]
    split <;> rfl

/-- A window that starts as zeros answers zero where nothing was written. -/
theorem read_after_of_zeros (hz : w.cells = .zeros w.size) (hb : w.place? b = some i)
    (W : List Write) :
    (w.after W).read b = some ((lastWritten W fun a => w.place? a = some i).getD 0) := by
  obtain ⟨j, hj, -⟩ := Option.map_eq_some_iff.1 hb
  have hread : w.read b = some 0 := by simp [read, hj, hz, Bytes.zeros]
  rw [read_after hb, hread]
  rfl

end RamWindow

end Dmg
