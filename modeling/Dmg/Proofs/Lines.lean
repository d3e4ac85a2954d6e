import Dmg.Interrupt

/-! # Lines and their bits

`Line.lowest_of_highest?` says which line `Line.highest?` picks, and `Line.highest?_eq_none_iff` when
there is none. -/

namespace Dmg

namespace Line

/-- The line is set in `bits`, and no line of a lower number is. -/
def Lowest (bits : UInt8) (l : Line) : Prop :=
  bits &&& l.mask ≠ 0 ∧ ∀ l' : Line, bits &&& l'.mask ≠ 0 → l.index ≤ l'.index

theorem pairwise_all : all.Pairwise fun l l' => l.index < l'.index := by decide

theorem lowest_of_highest? {bits : UInt8} {l : Line} (h : highest? bits = some l) :
    Lowest bits l := by
  refine ⟨by simpa using List.find?_some h, fun l' hl' => ?_⟩
  obtain ⟨-, as, bs, hall, has⟩ := List.find?_eq_some_iff_append.1 h
  have hord := hall ▸ pairwise_all
  rcases List.mem_append.1 (hall ▸ mem_all l') with hm | hm
  · exact absurd hl' (by simpa using has l' hm)
  · rcases List.mem_cons.1 hm with rfl | hm
    · exact UInt8.le_refl _
    · exact UInt8.le_of_lt (List.rel_of_pairwise_cons (List.pairwise_append.1 hord).2.1 hm)

theorem highest?_eq_none_iff {bits : UInt8} (h : bits < 32) : highest? bits = none ↔ bits = 0 := by
  have key : ∀ n : Fin 32, highest? (.ofNat n) = none ↔ UInt8.ofNat n = 0 := by decide +kernel
  simpa using key ⟨bits.toNat, UInt8.lt_iff_toNat_lt.1 h⟩

end Line

namespace Interrupts

/-- A write to neither interrupt register changes none of them. -/
theorem write_of_ne {i : Interrupts} {a : UInt16} (hf : a ≠ ifAddress) (he : a ≠ ieAddress)
    (v : UInt8) : i.write a v = i := by
  simp [write, hf, he]

end Interrupts

end Dmg
