import Dmg.Instruction.Mnemonic
import Dmg.Proofs.Texts

/-! # Reading mnemonics back

The text of an operation can be read: blanks and commas divide it into a name and operands
(`Op.words`), and these tell the operation (`Op.ofText?_mnemonic`). Hence different operations have
different texts (`Op.mnemonic_inj`). -/

namespace Dmg

/-! ### Operands -/

/-- The first of the values that has the text. -/
def named? {α : Type} (all : List α) (text : α → String) (s : String) : Option α :=
  all.find? (text · = s)

def Operand.all : List Operand :=
  [.reg .b, .reg .c, .reg .d, .reg .e, .reg .h, .reg .l, .reg .a, .mem .bc, .mem .de, .mem .hl,
    .mem .hlInc, .mem .hlDec, .mem .high, .mem .highC, .mem .direct, .imm]

def Operand.ofText? : String → Option Operand := named? all text

def Pair.ofName? : String → Option Pair := named? [.bc, .de, .hl, .sp] name

def StackPair.ofName? : String → Option StackPair := named? [.bc, .de, .hl, .af] name

def Condition.ofName? : String → Option Condition := named? [.nz, .z, .nc, .c] name

def AluOp.ofName? : String → Option AluOp :=
  named? [.add, .adc, .sub, .sbc, .and, .xor, .or, .cp] name

def Shift.ofName? : String → Option Shift :=
  named? [.rlc, .rrc, .rl, .rr, .sla, .sra, .swap, .srl] name

@[simp] theorem Operand.ofText?_text (x : Operand) : ofText? x.text = some x := by
  cases x with
  | reg r => cases r <;> rfl
  | mem m => cases m <;> rfl
  | imm => rfl

@[simp] theorem Pair.ofName?_name (p : Pair) : ofName? p.name = some p := by cases p <;> rfl

@[simp] theorem StackPair.ofName?_name (p : StackPair) : ofName? p.name = some p := by
  cases p <;> rfl

@[simp] theorem Condition.ofName?_name (cond : Condition) : ofName? cond.name = some cond := by
  cases cond <;> rfl

@[simp] theorem AluOp.ofName?_name (op : AluOp) : ofName? op.name = some op := by cases op <;> rfl

@[simp] theorem Shift.ofName?_name (s : Shift) : ofName? s.name = some s := by cases s <;> rfl

/-! ### Words -/

namespace Op

/-- The operands of a branch: the condition, if there is one, and the target. -/
def branchOperands (target : String) (c : Option Condition) : List String :=
  (c.map Condition.name).toList ++ [target]

def name : Op → String
  | .nop => "NOP"
  | .stop => "STOP"
  | .halt => "HALT"
  | .di => "DI"
  | .ei => "EI"
  | .daa => "DAA"
  | .cpl => "CPL"
  | .scf => "SCF"
  | .ccf => "CCF"
  | .load dst src => if dst = .mem .high ∨ src = .mem .high then "LDH" else "LD"
  | .loadPair _ | .storeSp | .loadSpHl | .loadHlSp => "LD"
  | .addSp | .addHl _ => "ADD"
  | .push _ => "PUSH"
  | .pop _ => "POP"
  | .alu op _ => op.name
  | .inc _ | .incPair _ => "INC"
  | .dec _ | .decPair _ => "DEC"
  | .rotateA s => s.name ++ "A"
  | .shift s _ => s.name
  | .bit .. => "BIT"
  | .res .. => "RES"
  | .set .. => "SET"
  | .jp _ | .jpHl => "JP"
  | .jr _ => "JR"
  | .call _ => "CALL"
  | .ret _ => "RET"
  | .reti => "RETI"
  | .rst _ => "RST"

def operands : Op → List String
  | .nop | .stop | .halt | .di | .ei | .daa | .cpl | .scf | .ccf | .rotateA _ | .reti => []
  | .load dst src => [dst.text, src.text]
  | .loadPair p => [p.name, "n16"]
  | .storeSp => ["[n16]", "SP"]
  | .loadSpHl => ["SP", "HL"]
  | .loadHlSp => ["HL", "SP+e8"]
  | .addSp => ["SP", "e8"]
  | .addHl p => ["HL", p.name]
  | .push p | .pop p => [p.name]
  | .alu _ src => ["A", src.text]
  | .inc t | .dec t | .shift _ t => [t.text]
  | .incPair p | .decPair p => [p.name]
  | .bit b t | .res b t | .set b t => [toString b.toNat, t.text]
  | .jp c | .call c => branchOperands "n16" c
  | .jpHl => ["HL"]
  | .jr c => branchOperands "e8" c
  | .ret c => (c.map Condition.name).toList
  | .rst v => ["0x" ++ hex 2 v.toNat]

/-- The text between the blanks. -/
def words (op : Op) : List String :=
  match op.operands with
  | [] => [op.name]
  | xs => [op.name, ",".intercalate xs]

theorem mnemonic_eq (op : Op) : op.mnemonic = " ".intercalate op.words := by
  apply String.toList_inj.1
  cases op with
  | load dst src =>
    simp only [mnemonic, loadName, words, name, operands]
    split <;> simp
  | jp cond | jr cond | call cond | ret cond =>
    cases cond <;> simp [mnemonic, words, name, operands, branchText, branchOperands]
  | _ => simp [mnemonic, words, name, operands]

theorem all_isUpper_name (op : Op) : op.name.toList.all Char.isUpper := by
  cases op with
  | load dst src =>
    simp only [name]
    split <;> decide
  | alu op src =>
    simp only [name]
    cases op <;> decide
  | rotateA s | shift s t =>
    simp only [name]
    cases s <;> decide
  | _ =>
    simp only [name]
    decide

theorem solid_text (x : Operand) : Solid x.text := by
  cases x with
  | reg r => cases r <;> decide
  | mem m => cases m <;> decide
  | imm => decide

theorem solid_branchOperands {target : String} (h : Solid target) (cond : Option Condition) :
    ∀ x ∈ branchOperands target cond, Solid x := by
  intro x hx
  rcases List.mem_append.1 hx with hx | hx
  · obtain ⟨cond, -, rfl⟩ := by simpa using hx
    cases cond <;> decide
  · rwa [List.mem_singleton.1 hx]

theorem solid_of_mem_operands (op : Op) : ∀ x ∈ op.operands, Solid x := by
  cases op with
  | load dst src => simpa [operands] using ⟨solid_text dst, solid_text src⟩
  | loadPair p | addHl p => cases p <;> decide
  | push p | pop p => cases p <;> decide
  | alu op src => simpa [operands] using ⟨by decide, solid_text src⟩
  | inc t | dec t | shift s t => simpa [operands] using solid_text t
  | incPair p | decPair p => cases p <;> decide
  | bit b t | res b t | set b t => simpa [operands] using ⟨solid_toString b.toNat, solid_text t⟩
  | jp cond | jr cond | call cond => exact solid_branchOperands (by decide) cond
  | ret cond => cases cond with
    | none => decide
    | some cond => cases cond <;> decide
  | rst v => simpa [operands] using Solid.append (by decide) (solid_hex 2 v.toNat)
  | rotateA s => simp [operands]
  | _ => decide

/-! ### Reading -/

def plain : List Op :=
  [.nop, .stop, .halt, .di, .ei, .daa, .cpl, .scf, .ccf, .ret none, .reti, .rotateA .rlc,
    .rotateA .rrc, .rotateA .rl, .rotateA .rr, .rotateA .sla, .rotateA .sra, .rotateA .swap,
    .rotateA .srl]

def ofOne? (n x : String) : Option Op :=
  if n = "PUSH" then (StackPair.ofName? x).map .push
  else if n = "POP" then (StackPair.ofName? x).map .pop
  else if n = "INC" then (Pair.ofName? x).map .incPair <|> (Operand.ofText? x).map .inc
  else if n = "DEC" then (Pair.ofName? x).map .decPair <|> (Operand.ofText? x).map .dec
  else if n = "JP" then if x = "HL" then some .jpHl else some (.jp none)
  else if n = "JR" then some (.jr none)
  else if n = "CALL" then some (.call none)
  else if n = "RET" then (Condition.ofName? x).map fun cond => .ret (some cond)
  else if n = "RST" then some (.rst (.ofNat (ofHex (x.toList.drop 2))))
  else (Shift.ofName? n).bind fun s => (Operand.ofText? x).map (.shift s)

def ofLoad? (x y : String) : Option Op :=
  (Operand.ofText? x).bind fun dst => (Operand.ofText? y).map (.load dst)

def ofTwo? (n x y : String) : Option Op :=
  if n = "LDH" then ofLoad? x y
  else if n = "LD" then
    if y = "SP" then some .storeSp
    else if y = "HL" then some .loadSpHl
    else if y = "SP+e8" then some .loadHlSp
    else if y = "n16" then (Pair.ofName? x).map .loadPair
    else ofLoad? x y
  else if n = "ADD" then
    if x = "SP" then some .addSp
    else if x = "HL" then (Pair.ofName? y).map .addHl
    else (Operand.ofText? y).map (.alu .add)
  else if n = "BIT" then (Operand.ofText? y).map (.bit (.ofNat (ofDecimal x)))
  else if n = "RES" then (Operand.ofText? y).map (.res (.ofNat (ofDecimal x)))
  else if n = "SET" then (Operand.ofText? y).map (.set (.ofNat (ofDecimal x)))
  else if n = "JP" then (Condition.ofName? x).map fun cond => .jp (some cond)
  else if n = "JR" then (Condition.ofName? x).map fun cond => .jr (some cond)
  else if n = "CALL" then (Condition.ofName? x).map fun cond => .call (some cond)
  else (AluOp.ofName? n).bind fun op => (Operand.ofText? y).map (.alu op)

/-- The operation of the name that takes these operands. -/
def ofOperands? (n : String) : List String → Option Op
  | [] => named? plain name n
  | [x] => ofOne? n x
  | [x, y] => ofTwo? n x y
  | _ => none

/-- The operation with the text. -/
def ofText? (text : String) : Option Op :=
  match text.toList.splitOn ' ' with
  | [n] => ofOperands? (.ofList n) []
  | [n, xs] => ofOperands? (.ofList n) ((xs.splitOn ',').map .ofList)
  | _ => none

/-- The pairs are no operands of one byte. -/
theorem pairOfName?_text (x : Operand) : Pair.ofName? x.text = none := by
  cases x with
  | reg r => cases r <;> rfl
  | mem m => cases m <;> rfl
  | imm => rfl

/-- No load of one byte is taken for another one. -/
theorem text_notMem (x : Operand) : x.text ∉ ["SP", "HL", "SP+e8", "n16"] := by
  cases x with
  | reg r => cases r <;> decide
  | mem m => cases m <;> decide
  | imm => decide

theorem ofLoad?_text (dst src : Operand) : ofLoad? dst.text src.text = some (.load dst src) := by
  simp [ofLoad?]

theorem ofDecimal_byte (b : UInt8) : UInt8.ofNat (ofDecimal (toString b.toNat)) = b := by
  rw [ofDecimal_toString, UInt8.ofNat_toNat]

theorem ofHex_vector (v : UInt16) :
    UInt16.ofNat (ofHex (("0x" ++ hex 2 v.toNat).toList.drop 2)) = v := by
  rw [String.toList_append]
  show UInt16.ofNat (ofHex (hex 2 v.toNat).toList) = v
  rw [ofHex_hex, UInt16.ofNat_toNat]

theorem ofOperands?_operands (op : Op) : ofOperands? op.name op.operands = some op := by
  cases op with
  | load dst src =>
    have hsrc := text_notMem src
    simp only [List.mem_cons, List.not_mem_nil, or_false, not_or] at hsrc
    simp only [name]
    split <;> simp [operands, ofOperands?, ofTwo?, hsrc, ofLoad?_text]
  | alu op src =>
    -- `ADD` is the name of two more operations and found before the others, so each is looked up
    cases op <;> simp [name, operands, ofOperands?, ofTwo?, AluOp.name, AluOp.ofName?, named?]
  | rotateA s => cases s <;> rfl
  | shift s t =>
    cases s <;> simp [name, operands, ofOperands?, ofOne?, Shift.name, Shift.ofName?, named?]
  | inc t | dec t => simp [name, operands, ofOperands?, ofOne?, pairOfName?_text]
  | bit b t | res b t | set b t =>
    simp only [name, operands, ofOperands?, ofTwo?, ofDecimal_byte]
    simp
  | jp cond | jr cond | call cond =>
    cases cond <;> simp [name, operands, ofOperands?, ofOne?, ofTwo?, branchOperands]
  | ret cond => cases cond <;> simp [name, operands, ofOperands?, ofOne?, named?, plain]
  | rst v =>
    simp only [name, operands, ofOperands?, ofOne?, ofHex_vector]
    simp
  | _ => simp [name, operands, ofOperands?, ofOne?, ofTwo?, named?, plain]

theorem blank_notMem_words (op : Op) : ∀ w ∈ op.words, ' ' ∉ w.toList := by
  have hname : ' ' ∉ op.name.toList := by
    intro h
    exact absurd (List.all_eq_true.1 op.all_isUpper_name _ h) (by decide)
  have hoperands : ' ' ∉ (",".intercalate op.operands).toList := by
    intro h
    obtain hcomma | ⟨x, hx, hblank⟩ := mem_intercalate h
    · cases hcomma
    · exact (op.solid_of_mem_operands x hx _ hblank).1 rfl
  intro w hw
  unfold words at hw
  split at hw
  · rwa [List.mem_singleton.1 hw]
  · rcases List.mem_cons.1 hw with rfl | hw
    · exact hname
    · rwa [List.mem_singleton.1 hw]

theorem words_eq_cons (op : Op) : ∃ rest, op.words = op.name :: rest := by
  unfold words
  split <;> exact ⟨_, rfl⟩

theorem words_ne_nil (op : Op) : op.words ≠ [] := by
  obtain ⟨rest, h⟩ := op.words_eq_cons
  rw [h]
  exact List.cons_ne_nil _ _

theorem ofText?_mnemonic (op : Op) : ofText? op.mnemonic = some op := by
  have hread := op.ofOperands?_operands
  rw [ofText?, mnemonic_eq, splitOn_intercalate rfl op.blank_notMem_words op.words_ne_nil, words]
  cases hop : op.operands with
  | nil =>
    rw [hop] at hread
    simpa using hread
  | cons x xs =>
    have hcomma : ∀ y ∈ op.operands, ',' ∉ y.toList := fun y hy hc =>
      (op.solid_of_mem_operands y hy _ hc).2 rfl
    rw [hop] at hread hcomma
    show ofOperands? (.ofList op.name.toList)
      (((",".intercalate (x :: xs)).toList.splitOn ',').map .ofList) = some op
    rw [splitOn_intercalate rfl hcomma (List.cons_ne_nil x xs), List.map_map]
    simpa using hread

theorem mnemonic_inj {op op' : Op} : op.mnemonic = op'.mnemonic ↔ op = op' :=
  (injective_of_read ofText?_mnemonic).eq_iff

end Op

theorem Operand.text_inj {x x' : Operand} : x.text = x'.text ↔ x = x' :=
  (injective_of_read ofText?_text).eq_iff

end Dmg
