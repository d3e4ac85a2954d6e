import Dmg.Hex
import Mathlib.Tactic.Common

/-! # Reading texts back

What can be read from its text is told by it (`injective_of_read`). A number can, from its digits,
hexadecimal (`hex`) or decimal, and parts of a text that do not hold the character between them are
found again (`splitOn_intercalate`). -/

namespace Dmg

theorem injective_of_read {α β : Type} {text : α → β} {read : β → Option α}
    (h : ∀ a, read (text a) = some a) : Function.Injective text := by
  intro a a' heq
  have hread := h a
  rw [heq, h] at hread
  exact (Option.some.inj hread).symm

/-! ### Numbers -/

def hexDigits : List Char := "0123456789abcdef".toList

/-- The number with these hexadecimal digits. -/
def ofHex (digits : List Char) : Nat := digits.foldl (fun n c => 16 * n + hexDigits.idxOf c) 0

theorem digitChar_hex {d : Nat} (h : d < 16) :
    hexDigits.idxOf d.digitChar = d ∧ d.digitChar ∈ hexDigits := by
  have key : ∀ d : Fin 16, hexDigits.idxOf d.val.digitChar = d ∧ d.val.digitChar ∈ hexDigits := by
    decide
  exact key ⟨d, h⟩

theorem ofHex_concat (digits : List Char) (c : Char) :
    ofHex (digits ++ [c]) = 16 * ofHex digits + hexDigits.idxOf c := List.foldl_append

theorem ofHex_toDigits (n : Nat) : ofHex (Nat.toDigits 16 n) = n := by
  induction n using Nat.strongRecOn with
  | ind n ih =>
    rw [Nat.toDigits_eq_if (by decide)]
    split
    · next h =>
      show 16 * 0 + hexDigits.idxOf n.digitChar = n
      rw [(digitChar_hex h).1, Nat.zero_add]
    · next h =>
      rw [ofHex_concat, ih (n / 16) (by omega), (digitChar_hex (Nat.mod_lt n (by decide))).1]
      exact Nat.div_add_mod n 16

theorem mem_hexDigits_of_mem_toDigits {n : Nat} {c : Char} (h : c ∈ Nat.toDigits 16 n) :
    c ∈ hexDigits := by
  induction n using Nat.strongRecOn with
  | ind n ih =>
    rw [Nat.toDigits_eq_if (by decide)] at h
    split at h
    · next hn =>
      rw [List.mem_singleton.1 h]
      exact (digitChar_hex hn).2
    · next hn =>
      rcases List.mem_append.1 h with h | h
      · exact ih (n / 16) (by omega) h
      · rw [List.mem_singleton.1 h]
        exact (digitChar_hex (Nat.mod_lt n (by decide))).2

theorem toList_hex (width n : Nat) : (hex width n).toList =
    List.replicate (width - (Nat.toDigits 16 n).length) '0' ++ Nat.toDigits 16 n := by
  simp [hex, List.leftpad]

/-- Zeros in front do not change the number. -/
theorem ofHex_hex (width n : Nat) : ofHex (hex width n).toList = n := by
  have hzeros (k : Nat) :
      (List.replicate k '0').foldl (fun n c => 16 * n + hexDigits.idxOf c) 0 = 0 := by
    induction k with
    | zero => rfl
    | succ k ih => exact ih
  rw [toList_hex, ofHex, List.foldl_append, hzeros]
  exact ofHex_toDigits n

theorem mem_hexDigits_of_mem_hex {width n : Nat} {c : Char} (h : c ∈ (hex width n).toList) :
    c ∈ hexDigits := by
  rw [toList_hex] at h
  rcases List.mem_append.1 h with h | h
  · rw [List.eq_of_mem_replicate h]
    decide
  · exact mem_hexDigits_of_mem_toDigits h

theorem hex_inj {width m n : Nat} : hex width m = hex width n ↔ m = n :=
  (Function.LeftInverse.injective (g := fun s : String => ofHex s.toList) (ofHex_hex width)).eq_iff

theorem hexByte_inj {b b' : UInt8} : hexByte b = hexByte b' ↔ b = b' :=
  hex_inj.trans UInt8.toNat_inj

theorem hexWord_inj {w w' : UInt16} : hexWord w = hexWord w' ↔ w = w' :=
  hex_inj.trans UInt16.toNat_inj

/-- The number with these decimal digits. -/
def ofDecimal (text : String) : Nat := Nat.ofDigitChars 10 text.toList 0

theorem ofDecimal_toString (n : Nat) : ofDecimal (toString n) = n := by
  rw [ofDecimal, Nat.toString_eq_ofList_toDigits, String.toList_ofList]
  exact Nat.ofDigitChars_ten_toDigits

theorem toString_inj {m n : Nat} : toString m = toString n ↔ m = n :=
  (Function.LeftInverse.injective ofDecimal_toString).eq_iff

theorem isDigit_of_mem_toString {n : Nat} {c : Char} (h : c ∈ (toString n).toList) :
    c.isDigit = true := by
  rw [Nat.toString_eq_ofList_toDigits, String.toList_ofList] at h
  exact Nat.isDigit_of_mem_toDigits (by decide) (by decide) h

/-! ### Parts of a text -/

/-- The text can be one part of several: it holds none of the characters that stand between them. -/
def Solid (text : String) : Prop := ∀ c ∈ text.toList, c ≠ ' ' ∧ c ≠ ','

instance (text : String) : Decidable (Solid text) := List.decidableBAll _ text.toList

theorem Solid.append {s t : String} (hs : Solid s) (ht : Solid t) : Solid (s ++ t) := by
  intro c hc
  rw [String.toList_append] at hc
  exact (List.mem_append.1 hc).elim (hs c) (ht c)

theorem solid_toString (n : Nat) : Solid (toString n) := by
  intro c hc
  have hdigit := isDigit_of_mem_toString hc
  constructor <;> rintro rfl <;> exact absurd hdigit (by decide)

theorem solid_hex (width n : Nat) : Solid (hex width n) := by
  have hdigits : Solid "0123456789abcdef" := by decide
  exact fun c hc => hdigits c (mem_hexDigits_of_mem_hex hc)

theorem mem_intercalate {xs : List String} {c : Char} (h : c ∈ (",".intercalate xs).toList) :
    c = ',' ∨ ∃ x ∈ xs, c ∈ x.toList := by
  induction xs with
  | nil => cases h
  | cons x xs ih =>
    cases xs with
    | nil => exact .inr ⟨x, List.mem_singleton_self x, by simpa using h⟩
    | cons y ys =>
      rw [String.intercalate_cons_cons, String.toList_append, String.toList_append,
        List.append_assoc] at h
      rcases List.mem_append.1 h with h | h
      · exact .inr ⟨x, List.mem_cons_self, h⟩
      · rcases List.mem_append.1 h with h | h
        · exact .inl (List.mem_singleton.1 h)
        · obtain hcomma | ⟨z, hz, hc⟩ := ih h
          · exact .inl hcomma
          · exact .inr ⟨z, List.mem_cons_of_mem x hz, hc⟩

theorem splitOn_intercalate {s : String} {sep : Char} (hs : s.toList = [sep]) {xs : List String}
    (h : ∀ x ∈ xs, sep ∉ x.toList) (hne : xs ≠ []) :
    (s.intercalate xs).toList.splitOn sep = xs.map String.toList := by
  rw [String.toList_intercalate, hs]
  exact List.splitOn_intercalate sep (by simpa using h) (by simpa using hne)

theorem intercalate_inj {s : String} {sep : Char} (hs : s.toList = [sep]) {xs ys : List String}
    (hx : ∀ x ∈ xs, sep ∉ x.toList) (hxs : xs ≠ []) (hy : ∀ y ∈ ys, sep ∉ y.toList)
    (hys : ys ≠ []) : s.intercalate xs = s.intercalate ys ↔ xs = ys := by
  refine ⟨fun h => ?_, congrArg _⟩
  rw [← List.map_inj_right (fun _ _ => String.toList_inj.1), ← splitOn_intercalate hs hx hxs, h,
    splitOn_intercalate hs hy hys]

end Dmg
