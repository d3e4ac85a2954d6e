import Dmg.Pattern.Expr

/-! # The meaning of pattern expressions

What an expression stands for under the options that hold where it stands
(`PatternExpr.meaning`). Without tables of Unicode, classes of digits, words and blanks,
properties, and the cases of letters are known for ASCII alone: where options ask for more, that is
a fault, and the first one from the left counts. -/

namespace Dmg

structure Options where
  ignoreCase : Bool := false
  lines : Bool := false
  dotAll : Bool := false
  few : Bool := false
  unicode : Bool := true
  crlf : Bool := false

namespace Options

/-- Turn an option on or off. That blanks stand for nothing matters only to the reader of a
pattern. -/
def set (o : Options) (change : PatternOption × Bool) : Options :=
  match change with
  | (.ignoreCase, on) => { o with ignoreCase := on }
  | (.lines, on) => { o with lines := on }
  | (.dotAll, on) => { o with dotAll := on }
  | (.unicode, on) => { o with unicode := on }
  | (.few, on) => { o with few := on }
  | (.crlf, on) => { o with crlf := on }
  | (.spaced, _) => o

def apply (o : Options) (changes : OptionChanges) : Options := changes.foldl set o

end Options

def faultAt {α : Type} (fault : PatternFault) (span : TextSpan) : Except PatternError α :=
  .error { fault, span }

/-! ### Classes -/

/-- A class of digits, words or blanks, or what lies outside of it. A byte outside of it need not be
a character. -/
def LetterClass.meaning (l : LetterClass) (o : Options) (inverted : Bool) (span : TextSpan) :
    Except PatternError CharSet :=
  if o.unicode then faultAt .noClassTable span
  else if inverted then faultAt .invalidEncoding span
  else .ok l.toSet

/-- The name of a property as it is compared: in lower case, without blanks, hyphens, underscores
and what is not ASCII, and without `is` at the start. -/
def propertyKey (name : String) : String :=
  let cs := name.toList
  let isMarked := (cs.take 2).map Char.toLower = ['i', 's']
  let key := ((if isMarked then cs.drop 2 else cs).filter fun c =>
    c.toNat < 128 ∧ c ≠ ' ' ∧ c ≠ '_' ∧ c ≠ '-').map Char.toLower
  if isMarked ∧ key = ['c'] then "isc" else String.ofList key

/-- What is wrong with any property. Three names are those of values alone, so that their property
is known. -/
def propertyFault (name : String) : PatternFault :=
  if propertyKey name ∈ ["cf", "sc", "lc"] then .noPropertyValue else .noProperty

/-- A property of characters, which is a fault in any case. -/
def propertyMeaning (o : Options) (name : String) (span : TextSpan) : Except PatternError CharSet :=
  faultAt (if o.unicode then propertyFault name else .unicodeOff) span

/-- A set of characters, and whether it is known to hold all cases of the letters in it. -/
structure CasedSet where
  set : CharSet
  closed : Bool

namespace CasedSet

def none : CasedSet := ⟨.none, true⟩

/-- Whether a set stays closed when others are added one after the other. Only one that adds
something can open it. -/
def staysClosed (s : CharSet) : List CasedSet → Bool
  | [] => true
  | t :: ts =>
    if t.set.isEmpty ∨ s = t.set then staysClosed s ts
    else t.closed && staysClosed (s.union t.set) ts

def unionAll (sets : List CasedSet) : CasedSet :=
  ⟨.unionAll (sets.map set), staysClosed .none sets⟩

/-- The set with all cases of its letters, where cases are ignored. -/
def fold (s : CasedSet) (o : Options) (span : TextSpan) : Except PatternError CasedSet :=
  if !o.ignoreCase then .ok s
  else if !o.unicode then .ok ⟨s.set.bothCases, true⟩
  else if s.closed ∨ s.set.isEmpty then .ok ⟨s.set, true⟩
  else faultAt .noCaseFolding span

/-- The set, or what lies outside of it, after cases have been taken together. What lies outside of
ASCII has no single byte. -/
def finish (s : CasedSet) (o : Options) (inverted : Bool) (span : TextSpan) :
    Except PatternError CasedSet := do
  let s ← s.fold o span
  let t : CasedSet := if inverted then ⟨s.set.compl, s.closed || s.set.isEmpty⟩ else s
  if !o.unicode ∧ !t.set.isAscii then faultAt .invalidEncoding span else .ok t

end CasedSet

/-- A character that is written in a class. -/
def WrittenChar.inClass (c : WrittenChar) (o : Options) : Except PatternError Char :=
  if o.unicode ∨ c.char.toNat < 128 then .ok c.char
  else faultAt (if c.byte then .invalidEncoding else .unicodeOff) c.span

def SetOp.apply (op : SetOp) (s t : CharSet) : CharSet :=
  match op with
  | inter => s.inter t
  | diff => s.diff t
  | symmDiff => s.symmDiff t

mutual

/-- The set that stands between the brackets of a class. An operator takes the cases of its right
side together before those of its left side. -/
def ClassExpr.meaning (o : Options) : ClassExpr → Except PatternError CasedSet
  | empty _ => .ok .none
  | char c => return ⟨.single (← c.inClass o), false⟩
  | range low high => return ⟨.range (← low.inClass o) (← high.inClass o), false⟩
  | named s inverted span => CasedSet.finish ⟨s, false⟩ o inverted span
  | letter l inverted span => return ⟨← l.meaning o inverted span, false⟩
  | property name span => return ⟨← propertyMeaning o name span, false⟩
  | bracketed inside inverted span => do
    return .unionAll [← (← meaning o inside).finish o inverted span]
  | union items _ => return .unionAll (← meanings o items)
  | joined op left right => do
    let s ← meaning o left
    let t ← meaning o right
    let t ← t.fold o right.span
    let s ← s.fold o left.span
    return ⟨op.apply s.set t.set, s.closed && t.closed⟩

def ClassExpr.meanings (o : Options) : List ClassExpr → Except PatternError (List CasedSet)
  | [] => .ok []
  | item :: items => return (← meaning o item) :: (← meanings o items)

end

/-! ### Expressions -/

/-- A single character, with its other case where cases are ignored. -/
def WrittenChar.meaning (c : WrittenChar) (o : Options) : Except PatternError Pattern :=
  if o.unicode then
    if o.ignoreCase then faultAt .noCaseFolding c.span else .ok (.literal [c.char])
  else if c.byte ∧ c.char.toNat ≥ 128 then faultAt .invalidEncoding c.span
  else if o.ignoreCase then .ok (.ofSet (CharSet.single c.char).bothCases true)
  else .ok (.literal [c.char])

def PlaceSign.meaning (s : PlaceSign) (o : Options) : Place :=
  match s with
  | lineStart => if o.lines then .lineStart o.crlf else .textStart
  | lineEnd => if o.lines then .lineEnd o.crlf else .textEnd
  | textStart => .textStart
  | textEnd => .textEnd
  | word w => .word w o.unicode

def dotSet (o : Options) : CharSet :=
  let lineEnds : CharSet :=
    if o.dotAll then .none
    else if o.crlf then .ofRanges [('\n', '\n'), ('\r', '\r')]
    else .single '\n'
  lineEnds.compl

namespace PatternExpr

mutual

/-- The pattern of an expression, and the options that hold after it. -/
def meaning (o : Options) : PatternExpr → Except PatternError (Pattern × Options)
  | empty => .ok (.empty, o)
  | options changes => .ok (.empty, o.apply changes)
  | char c => return (← c.meaning o, o)
  | dot span =>
    if o.unicode then .ok (.ofSet (dotSet o) false, o) else faultAt .invalidEncoding span
  | place sign _ => .ok (.place (sign.meaning o), o)
  | letter l inverted span => return (.ofSet (← l.meaning o inverted span) (!o.unicode), o)
  | property name span => return (.ofSet (← propertyMeaning o name span) (!o.unicode), o)
  | bracketed inside inverted span => do
    let s ← (← inside.meaning o).finish o inverted span
    return (.ofSet s.set (!o.unicode), o)
  | repeated p least most few _ => do
    let (p, o) ← meaning o p
    return (p.repeated least most (few != o.few), o)
  | group number changes p _ => do
    let (p, _) ← meaning (o.apply changes) p
    return (match number with
      | some n => .group n p
      | none => p, o)
  | sequence ps _ => do
    let (ps, o) ← meanings o ps
    return (.ofSequence ps, o)
  | oneOf ps _ => do
    let (ps, o) ← meanings o ps
    return (.ofBranches ps, o)

/-- The patterns of several expressions from left to right, and the options after them. -/
def meanings (o : Options) : List PatternExpr → Except PatternError (List Pattern × Options)
  | [] => .ok ([], o)
  | p :: ps => do
    let (p, o) ← meaning o p
    let (ps, o) ← meanings o ps
    return (p :: ps, o)

end

end PatternExpr

end Dmg
