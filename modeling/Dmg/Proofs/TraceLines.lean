import Dmg.Proofs.Mnemonics
import Dmg.Status

/-! # Texts that show operations

Blanks divide a line of the trace into words (`Event.lineWords`), and none of them can be taken for
another: the mark of a prefixed encoding is followed by digits, and no digits are the name of an
operation. The text of a busy processor ends in what occupies it. So each of them tells what it was
made from (`Op.texts_determine`). -/

namespace Dmg

/-! ### The trace -/

namespace Event
variable {cycle cycle' : UInt64} {pc pc' : UInt16} {i i' : Instruction}

def lineWords (cycle : UInt64) (pc : UInt16) (i : Instruction) : List String :=
  (toString cycle.toNat ++ ":") :: ("0x" ++ hexWord pc) ::
    ((if i.prefixed then ["cb"] else []) ++ hexByte i.encoding :: i.op.words)

theorem message_executing (cycle : UInt64) (pc : UInt16) (i : Instruction) :
    (executing cycle pc i).message = " ".intercalate (lineWords cycle pc i) := by
  have hne := i.op.words_ne_nil
  show toString cycle.toNat ++ ": 0x" ++ hexWord pc ++ " " ++ (if i.prefixed then "cb " else "") ++
    hexByte i.encoding ++ " " ++ i.op.mnemonic = _
  apply String.toList_inj.1
  cases hp : i.prefixed <;>
    simp [lineWords, hp, Op.mnemonic_eq, String.intercalate_cons_of_ne_nil, hne]

theorem blank_notMem_lineWords (cycle : UInt64) (pc : UInt16) (i : Instruction) :
    ∀ w ∈ lineWords cycle pc i, ' ' ∉ w.toList := by
  have hsolid {s : String} (h : Solid s) : ' ' ∉ s.toList := fun hc => (h _ hc).1 rfl
  intro w hw
  unfold lineWords at hw
  rcases List.mem_cons.1 hw with rfl | hw
  · exact hsolid ((solid_toString _).append (by decide))
  rcases List.mem_cons.1 hw with rfl | hw
  · exact hsolid (.append (by decide) (solid_hex 4 _))
  rcases List.mem_append.1 hw with hw | hw
  · split at hw
    · rw [List.mem_singleton.1 hw]
      decide
    · cases hw
  rcases List.mem_cons.1 hw with rfl | hw
  · exact hsolid (solid_hex 2 _)
  · exact i.op.blank_notMem_words w hw

/-- Digits are no name: those of a number are written small, names with capitals. -/
theorem hexByte_ne_name (b : UInt8) (op : Op) : hexByte b ≠ op.name := by
  intro h
  have hsmall : hexDigits.all (!·.isUpper) := by decide
  have hne : (hexByte b).toList ≠ [] := by
    rw [hexByte, toList_hex]
    simp [Nat.toDigits_ne_nil]
  obtain ⟨c, hc⟩ := List.exists_mem_of_ne_nil _ hne
  have hupper := List.all_eq_true.1 op.all_isUpper_name c (h ▸ hc)
  have hlower := List.all_eq_true.1 hsmall c (mem_hexDigits_of_mem_hex hc)
  rw [hupper] at hlower
  cases hlower

theorem encoding_inj {p p' : Bool} {b b' : UInt8} {op op' : Op}
    (h : (if p then ["cb"] else []) ++ hexByte b :: op.words =
      (if p' then ["cb"] else []) ++ hexByte b' :: op'.words) : p = p' ∧ b = b' ∧ op = op' := by
  -- only a prefixed encoding has digits as its second word
  have hmark (b b' : UInt8) (op op' : Op) :
      "cb" :: hexByte b :: op.words ≠ hexByte b' :: op'.words := by
    intro h
    obtain ⟨rest, hrest⟩ := op'.words_eq_cons
    rw [hrest] at h
    exact hexByte_ne_name b op' (List.cons.inj (List.cons.inj h).2).1
  have hsame (h : hexByte b :: op.words = hexByte b' :: op'.words) : b = b' ∧ op = op' := by
    obtain ⟨hbyte, hwords⟩ := List.cons.inj h
    refine ⟨hexByte_inj.1 hbyte, Op.mnemonic_inj.1 ?_⟩
    rw [Op.mnemonic_eq, Op.mnemonic_eq, hwords]
  cases p with
  | true => cases p' with
    | true => exact ⟨rfl, hsame (List.cons.inj h).2⟩
    | false => exact absurd h (hmark b b' op op')
  | false => cases p' with
    | true => exact absurd h.symm (hmark b' b op' op)
    | false => exact ⟨rfl, hsame h⟩

theorem message_executing_inj :
    (executing cycle pc i).message = (executing cycle' pc' i').message ↔
      cycle = cycle' ∧ pc = pc' ∧ i.prefixed = i'.prefixed ∧ i.encoding = i'.encoding ∧
        i.op = i'.op := by
  rw [message_executing, message_executing,
    intercalate_inj rfl (blank_notMem_lineWords cycle pc i) (List.cons_ne_nil _ _)
      (blank_notMem_lineWords cycle' pc' i') (List.cons_ne_nil _ _)]
  constructor
  · intro h
    simp only [lineWords, List.cons.injEq] at h
    obtain ⟨hcycle, hpc, hrest⟩ := h
    refine ⟨?_, ?_, encoding_inj hrest⟩
    · exact UInt64.toNat_inj.1 (toString_inj.1 ((String.append_left_inj _).1 hcycle))
    · exact hexWord_inj.1 ((String.append_right_inj _).1 hpc)
  · rintro ⟨rfl, rfl, hcuted, hencoding, hop⟩
    simp only [lineWords, hcuted, hencoding, hop]

end Event

/-! ### A busy processor -/

/-- What is shown of an activity: the operation of an instruction, or the line. -/
def Activity.shown : Activity → Op ⊕ Line
  | .execute i => .inl i.op
  | .dispatch l => .inr l

theorem Op.ofText?_lineName (l : Line) : ofText? l.name = none := by cases l <;> decide

theorem Line.name_inj {l l' : Line} : l.name = l'.name ↔ l = l' := by
  cases l <;> cases l' <;> decide

theorem Activity.text_inj {act act' : Activity} :
    act.text = act'.text ↔ act.shown = act'.shown := by
  have hmixed (i : Instruction) (l : Line) : i.op.mnemonic ≠ l.name := by
    intro h
    have hread := i.op.ofText?_mnemonic
    rw [h, Op.ofText?_lineName] at hread
    cases hread
  cases act with
  | execute i => cases act' with
    | execute i' => simpa [text, shown] using Op.mnemonic_inj
    | dispatch l' => simpa [text, shown] using hmixed i l'
  | dispatch l => cases act' with
    | execute i' => simpa [text, shown] using (hmixed i' l).symm
    | dispatch l' => simpa [text, shown] using Line.name_inj

theorem takeWhile_toString (n : Nat) (rest : List Char) :
    ((toString n).toList ++ ',' :: rest).takeWhile Char.isDigit = (toString n).toList := by
  rw [List.takeWhile_append_of_pos fun _ => isDigit_of_mem_toString]
  exact List.append_nil _

theorem Phase.text_busy_inj {act act' : Activity} {n n' : UInt8} :
    (busy act n).text = (busy act' n').text ↔ n = n' ∧ act.shown = act'.shown := by
  constructor
  · intro h
    have hparts : (toString n.toNat).toList ++ ',' :: (act.text.toList ++ [')']) =
        (toString n'.toNat).toList ++ ',' :: (act'.text.toList ++ [')']) := by
      simpa [text] using congrArg String.toList h
    -- the first comma ends the number, whatever the operation has in its own text
    have hn : (toString n.toNat).toList = (toString n'.toNat).toList := by
      rw [← takeWhile_toString, hparts, takeWhile_toString]
    rw [hn] at hparts
    have hact := (List.cons.inj (List.append_cancel_left hparts)).2
    refine ⟨UInt8.toNat_inj.1 (toString_inj.1 (String.toList_inj.1 hn)), ?_⟩
    exact Activity.text_inj.1 (String.toList_inj.1 (List.append_cancel_right hact))
  · rintro ⟨rfl, h⟩
    rw [text, text, Activity.text_inj.2 h]

/-- The texts of operands and operations tell what they are of, and so do the texts that hold those
of operations: the lines of the trace and of a busy processor. -/
theorem Op.texts_determine :
    (∀ op op' : Op, op.mnemonic = op'.mnemonic ↔ op = op') ∧
    (∀ x x' : Operand, x.text = x'.text ↔ x = x') ∧
    (∀ (cycle cycle' : UInt64) (pc pc' : UInt16) (i i' : Instruction),
      (Event.executing cycle pc i).message = (Event.executing cycle' pc' i').message ↔
        cycle = cycle' ∧ pc = pc' ∧ i.prefixed = i'.prefixed ∧ i.encoding = i'.encoding ∧
          i.op = i'.op) ∧
    ∀ (act act' : Activity) (n n' : UInt8),
      (Phase.busy act n).text = (Phase.busy act' n').text ↔ n = n' ∧ act.shown = act'.shown :=
  ⟨fun _ _ => mnemonic_inj, fun _ _ => Operand.text_inj,
    fun _ _ _ _ _ _ => Event.message_executing_inj, fun _ _ _ _ => Phase.text_busy_inj⟩

end Dmg
