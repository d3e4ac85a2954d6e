import Dmg.Proofs.Checked.Memory
import Dmg.Proofs.Window

/-! # Windows with an echo

An address that a window maps stands for a byte of its block (`StandsFor`): for one of the window where
it lies in it, else for one of the echo. Of every window that can be put together
(`RamWindow.Built`), the index that is computed for an address is that of this byte
(`RamWindow.Built.checkedIndex?_eq_some`), and a write changes what is read at the addresses that
stand for its byte, and nothing else. -/

namespace Dmg

variable {start s : UInt16} {size n i : Nat} {echo : Option (UInt16 × Nat)} {a b : UInt16}

/-- One of `size` addresses from `start` on. They do not go on at zero. -/
def Spans (start : UInt16) (size : Nat) (a : UInt16) : Prop :=
  start.toNat ≤ a.toNat ∧ a.toNat < start.toNat + size

instance (start : UInt16) (size : Nat) (a : UInt16) : Decidable (Spans start size a) :=
  inferInstanceAs (Decidable (_ ∧ _))

/-- The address is that of byte `i` of a block of `size` bytes at `start`, the beginning of which is
seen a second time where `echo` says. -/
inductive StandsFor (start : UInt16) (size : Nat) (echo : Option (UInt16 × Nat)) (a : UInt16) :
    Nat → Prop
  | own : Spans start size a → StandsFor start size echo a (a.toNat - start.toNat)
  | echoed {s : UInt16} {n : Nat} : ¬ Spans start size a → echo = some (s, n) → Spans s n a →
    StandsFor start size echo a (a.toNat - s.toNat)

theorem spans_iff : start ≤ a ∧ a.toNat - start.toNat < size ↔ Spans start size a := by
  rw [UInt16.le_iff_toNat_le, Spans]
  omega

theorem exists_standsFor :
    (∃ i, StandsFor start size echo a i) ↔
      Spans start size a ∨ ∃ s n, echo = some (s, n) ∧ Spans s n a := by
  constructor
  · rintro ⟨i, hown | ⟨-, hecho, hs⟩⟩
    · exact .inl hown
    · exact .inr ⟨_, _, hecho, hs⟩
  · intro h
    by_cases hown : Spans start size a
    · exact ⟨_, .own hown⟩
    · obtain ⟨s, n, hecho, hs⟩ := h.resolve_left hown
      exact ⟨_, .echoed hown hecho hs⟩

theorem standsFor_of_spans (h : Spans start size a) :
    StandsFor start size echo a i ↔ a.toNat - start.toNat = i := by
  constructor
  · rintro (_ | ⟨hnot, -, -⟩)
    · rfl
    · exact absurd h hnot
  · rintro rfl
    exact .own h

namespace RamWindow
variable {w w' : RamWindow}

theorem zeroed_isOk : (∃ w, zeroed start size = .ok w) ↔ start.toNat + size ≤ 0x10000 := by
  unfold zeroed
  split
  · next h => exact iff_of_true ⟨_, rfl⟩ h
  · next h =>
    refine iff_of_false ?_ h
    rintro ⟨w, hw⟩
    cases hw

theorem withEcho_isOk :
    (∃ w', w.withEcho s n = .ok w') ↔ n ≤ w.size ∧ s.toNat + n ≤ 0x10000 := by
  unfold withEcho
  split
  · next hw =>
    split
    · next hf => exact iff_of_true ⟨_, rfl⟩ ⟨hw, hf⟩
    · next hf =>
      refine iff_of_false ?_ (mt And.right hf)
      rintro ⟨w', hw'⟩
      cases hw'
  · next hw =>
    refine iff_of_false ?_ (mt And.left hw)
    rintro ⟨w', hw'⟩
    cases hw'

/-- `Built start size echo w`: the window is one of zeros, with the echo that it got last if it got one,
and may have been written to at any time. -/
inductive Built (start : UInt16) (size : Nat) : Option (UInt16 × Nat) → RamWindow → Prop
  | zeroed {w : RamWindow} : RamWindow.zeroed start size = .ok w → Built start size none w
  | withEcho {echo : Option (UInt16 × Nat)} {w w' : RamWindow} {s : UInt16} {n : Nat} :
    Built start size echo w → w.withEcho s n = .ok w' → Built start size (some (s, n)) w'
  | write {echo : Option (UInt16 × Nat)} {w : RamWindow} (a : UInt16) (v : UInt8) :
    Built start size echo w → Built start size echo (w.write a v)

def echoed? (w : RamWindow) : Option (UInt16 × Nat) := w.echo.map fun e => (e.start, e.length)

/-- A write leaves the window and its echo where they are. -/
theorem layout_write (w : RamWindow) (a : UInt16) (v : UInt8) :
    (w.write a v).start = w.start ∧ (w.write a v).size = w.size ∧
      (w.write a v).echoed? = w.echoed? := by
  cases h : w.offset? a with
  | none =>
    rw [write_of_offset?_eq_none h]
    exact ⟨rfl, rfl, rfl⟩
  | some k =>
    rw [write_of_offset?_eq_some h]
    exact ⟨rfl, rfl, rfl⟩

namespace Built

theorem layout (h : Built start size echo w) :
    w.start = start ∧ w.size = size ∧ w.echoed? = echo := by
  induction h with
  | zeroed h =>
    unfold RamWindow.zeroed at h
    split at h <;> cases h
    exact ⟨rfl, rfl, rfl⟩
  | withEcho _ h ih =>
    unfold RamWindow.withEcho at h
    split at h <;> [split at h; skip] <;> cases h
    exact ⟨ih.1, ih.2.1, rfl⟩
  | @write echo w a v _ ih =>
    obtain ⟨hstart, hsize, hecho⟩ := w.layout_write a v
    rw [hstart, hsize, hecho]
    exact ih

theorem place?_eq_some (h : Built start size echo w) :
    w.place? a = some i ↔ StandsFor start size echo a i := by
  obtain ⟨rfl, rfl, rfl⟩ := h.layout
  rw [place?_eq]
  by_cases hown : Spans w.start w.size a
  · rw [if_pos (spans_iff.2 hown), standsFor_of_spans hown, Option.some.injEq]
  · rw [if_neg (mt spans_iff.1 hown)]
    unfold echoed?
    cases w.echo with
    | none =>
      constructor
      · intro hi
        cases hi
      · rintro (hown' | ⟨-, hnone, -⟩)
        · exact absurd hown' hown
        · cases hnone
    | some e =>
      dsimp only [Option.map_some]
      constructor
      · intro hi
        split at hi
        · next hs =>
          cases hi
          exact .echoed hown rfl (spans_iff.1 hs)
        · cases hi
      · rintro (hown' | ⟨-, hsome, hs⟩)
        · exact absurd hown' hown
        · cases hsome
          rw [if_pos (spans_iff.2 hs)]

/-- The distance from a start, which is all that is computed, finds the byte. -/
theorem checkedIndex?_eq_some (h : Built start size echo w) (a : UInt16) :
    ∃ place, w.checkedIndex? a = some place ∧ ∀ i, place = some i ↔ StandsFor start size echo a i :=
  ⟨w.place? a, w.checkedIndex?_eq a, fun _ => h.place?_eq_some⟩

/-- An echo is no longer than the block, so that it ends inside of it too. -/
theorem lt_size (h : Built start size echo w) (hi : StandsFor start size echo a i) : i < size := by
  obtain ⟨k, -, rfl⟩ := Option.map_eq_some_iff.1 (h.place?_eq_some.2 hi)
  exact h.layout.2.1 ▸ k.isLt

theorem read_isSome (h : Built start size echo w) (a : UInt16) :
    (w.read a).isSome ↔ ∃ i, StandsFor start size echo a i := by
  rw [RamWindow.read_isSome, Option.isSome_iff_exists]
  constructor
  · rintro ⟨k, hk⟩
    exact ⟨k, h.place?_eq_some.1 (by rw [place?, hk]; rfl)⟩
  · rintro ⟨i, hi⟩
    obtain ⟨k, hk, -⟩ := Option.map_eq_some_iff.1 (h.place?_eq_some.2 hi)
    exact ⟨k, hk⟩

theorem read_write_same (h : Built start size echo w) (ha : StandsFor start size echo a i)
    (hb : StandsFor start size echo b i) (v : UInt8) : (w.write a v).read b = some v := by
  rw [read_write (h.place?_eq_some.2 hb), if_pos (h.place?_eq_some.2 ha)]

theorem read_write_of_ne (h : Built start size echo w)
    (hab : ∀ i, StandsFor start size echo a i → ¬ StandsFor start size echo b i) (v : UInt8) :
    (w.write a v).read b = w.read b := by
  cases hb : w.place? b with
  | none => rw [read_eq_none hb, read_eq_none ((place?_write w a b v).trans hb)]
  | some i =>
    have ha : w.place? a ≠ some i := fun ha =>
      hab i (h.place?_eq_some.1 ha) (h.place?_eq_some.1 hb)
    rw [read_write hb, if_neg ha]

theorem write_eq_self (h : Built start size echo w) (ha : ∀ i, ¬ StandsFor start size echo a i)
    (v : UInt8) : w.write a v = w := by
  have hnone : w.offset? a = none := by
    rw [← Option.not_isSome_iff_eq_none, ← RamWindow.read_isSome, h.read_isSome]
    exact not_exists.2 ha
  exact write_of_offset?_eq_none hnone v

end Built

/-- The bytes of a window with an echo: where they are, and what a write makes of them. -/
theorem keeps_bytes (start : UInt16) (size : Nat) :
    ((∃ w, zeroed start size = .ok w) ↔ start.toNat + size ≤ 0x10000) ∧
    ∀ echo w, Built start size echo w →
      (∀ s n, (∃ w', w.withEcho s n = .ok w') ↔ n ≤ size ∧ s.toNat + n ≤ 0x10000) ∧
      (∀ a, (∃ place, w.checkedIndex? a = some place ∧
          ∀ i, place = some i ↔ StandsFor start size echo a i) ∧
        (∀ i, StandsFor start size echo a i → i < size) ∧ w.checkedRead a = some (w.read a) ∧
        ((w.read a).isSome ↔ Spans start size a ∨ ∃ s n, echo = some (s, n) ∧ Spans s n a)) ∧
      ∀ a v, w.checkedWrite a v = some (w.write a v) ∧
        (∀ b i, StandsFor start size echo a i → StandsFor start size echo b i →
          (w.write a v).read b = some v) ∧
        (∀ b, (∀ i, StandsFor start size echo a i → ¬ StandsFor start size echo b i) →
          (w.write a v).read b = w.read b) ∧
        ((∀ i, ¬ StandsFor start size echo a i) → w.write a v = w) := by
  refine ⟨zeroed_isOk, fun echo w h => ⟨fun s n => ?_, fun a => ?_, fun a v => ?_⟩⟩
  · rw [withEcho_isOk, h.layout.2.1]
  · exact ⟨h.checkedIndex?_eq_some a, fun i => h.lt_size, w.checkedRead_eq a,
      (h.read_isSome a).trans exists_standsFor⟩
  · exact ⟨w.checkedWrite_eq a v, fun b i ha hb => h.read_write_same ha hb v,
      fun b hab => h.read_write_of_ne hab v, fun ha => h.write_eq_self ha v⟩

/-- A window of 16 bytes with an echo that starts inside of it. The byte at `0x18` is the window's
own and not the first of the echo, and is found again at `0x20`, behind the window. -/
theorem keeps_bytes_overlapping :
    let w : RamWindow :=
      ⟨0x10, .zeros 0x10, 0x10, by decide, some ⟨0x18, 0x10, by decide, by decide⟩⟩
    Built 0x10 0x10 (some (0x18, 0x10)) w ∧
      StandsFor 0x10 0x10 (some (0x18, 0x10)) 0x18 8 ∧
      StandsFor 0x10 0x10 (some (0x18, 0x10)) 0x20 8 ∧
      (w.write 0x18 7).read 0x20 = some 7 ∧ (w.write 0x18 7).read 0x10 = some 0 ∧
      (w.read 0x28).isSome = false ∧ w.write 0x28 9 = w := by
  intro w
  have hbuilt : Built 0x10 0x10 (some (0x18, 0x10)) w := .withEcho (.zeroed rfl) rfl
  have hown : StandsFor 0x10 0x10 (some (0x18, 0x10)) 0x18 8 := .own (by decide)
  have hechoed : StandsFor 0x10 0x10 (some (0x18, 0x10)) 0x20 8 :=
    .echoed (by decide) rfl (by decide)
  obtain ⟨-, hanswers, hwrites⟩ := (keeps_bytes 0x10 0x10).2 _ w hbuilt
  have hfirst : ∀ i, StandsFor 0x10 0x10 (some (0x18, 0x10)) 0x18 i →
      ¬ StandsFor 0x10 0x10 (some (0x18, 0x10)) 0x10 i := by
    intro i hi hi'
    rw [standsFor_of_spans (by decide)] at hi hi'
    exact absurd (hi.trans hi'.symm) (by decide)
  have hforeign : ¬ ∃ i, StandsFor 0x10 0x10 (some (0x18, 0x10)) 0x28 i := by
    rw [exists_standsFor]
    rintro (hspans | ⟨s, n, hecho, hspans⟩)
    · exact absurd hspans (by decide)
    · cases hecho
      exact absurd hspans (by decide)
  refine ⟨hbuilt, hown, hechoed, (hwrites _ _).2.1 _ 8 hown hechoed, ?_, ?_, ?_⟩
  · exact ((hwrites _ _).2.2.1 _ hfirst).trans (by decide)
  · rw [Bool.eq_false_iff]
    intro hsome
    exact hforeign (exists_standsFor.2 ((hanswers _).2.2.2.1 hsome))
  · exact (hwrites _ _).2.2.2 fun i hi => hforeign ⟨i, hi⟩

end RamWindow

end Dmg
