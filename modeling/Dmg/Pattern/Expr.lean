import Dmg.Pattern
import Dmg.Pattern.Error

/-! # Pattern expressions

A pattern as it is written (`PatternExpr`), with the spans of its parts, so that a fault found later
can be shown in its place. How deep parts may lie in each other is limited
(`PatternExpr.tooDeep?`). -/

namespace Dmg

/-- What can be set inside a pattern. With `lines`, `^` and `$` match at the ends of lines, which with
`crlf` are carriage returns as well, and with `dotAll` a dot matches them. With `few`, repetitions
prefer few turns unless they say so themselves; with `spaced`, blanks and comments mean nothing. -/
inductive PatternOption where
  | ignoreCase | lines | dotAll | few | unicode | crlf | spaced
deriving DecidableEq

abbrev OptionChanges := List (PatternOption × Bool)

/-- A character as it is written, which may be by the two digits of a byte. -/
structure WrittenChar where
  char : Char
  byte : Bool := false
  span : TextSpan
deriving DecidableEq

inductive LetterClass where
  | digit | word | blank
deriving DecidableEq

/-- The ASCII characters of a class. -/
def LetterClass.toSet : LetterClass → CharSet
  | digit => .range '0' '9'
  | word => .ofRanges [('0', '9'), ('A', 'Z'), ('_', '_'), ('a', 'z')]
  | blank => .ofRanges [('\t', '\r'), (' ', ' ')]

inductive SetOp where
  | inter | diff | symmDiff
deriving DecidableEq

/-- What stands between the brackets of a class; `named` are those such as `[:alpha:]`. -/
inductive ClassExpr where
  | empty (span : TextSpan)
  | char (c : WrittenChar)
  | range (low high : WrittenChar)
  | named (s : CharSet) (inverted : Bool) (span : TextSpan)
  | letter (l : LetterClass) (inverted : Bool) (span : TextSpan)
  | property (name : String) (span : TextSpan)
  | bracketed (inside : ClassExpr) (inverted : Bool) (span : TextSpan)
  | union (items : List ClassExpr) (span : TextSpan)
  | joined (op : SetOp) (left right : ClassExpr)

/-- A place as it is written; what it means depends on options. -/
inductive PlaceSign where
  | lineStart | lineEnd | textStart | textEnd
  | word (w : WordPlace)
deriving DecidableEq

/-- A pattern as it is written. A repetition is `few` if a sign behind it says so, and a group may have
a number and options that are set inside of it. -/
inductive PatternExpr where
  | empty
  | options (changes : OptionChanges)
  | char (c : WrittenChar)
  | dot (span : TextSpan)
  | place (sign : PlaceSign) (span : TextSpan)
  | letter (l : LetterClass) (inverted : Bool) (span : TextSpan)
  | property (name : String) (span : TextSpan)
  | bracketed (inside : ClassExpr) (inverted : Bool) (span : TextSpan)
  | repeated (p : PatternExpr) (least : Nat) (most : Option Nat) (few : Bool) (span : TextSpan)
  | group (number : Option Nat) (changes : OptionChanges) (p : PatternExpr) (span : TextSpan)
  | oneOf (ps : List PatternExpr) (span : TextSpan)
  | sequence (ps : List PatternExpr) (span : TextSpan)

namespace ClassExpr

def span : ClassExpr → TextSpan
  | empty span | named _ _ span | letter _ _ span | property _ span | bracketed _ _ span
  | union _ span => span
  | char c => c.span
  | range low high => ⟨low.span.start, high.span.stop⟩
  | joined _ left right => ⟨left.span.start, right.span.stop⟩

mutual

/-- The first part, from outside and from the left, that lies too deep, where `depth` parts lie
around. Brackets, unions and joined classes count. -/
def tooDeep? (depth : Nat) : ClassExpr → Option TextSpan
  | bracketed inside _ span =>
    if depth < deepest then tooDeep? (depth + 1) inside else some span
  | union items span => if depth < deepest then anyTooDeep? (depth + 1) items else some span
  | joined op left right =>
    if depth < deepest then (tooDeep? (depth + 1) left).or (tooDeep? (depth + 1) right)
    else some (joined op left right).span
  | _ => none

def anyTooDeep? (depth : Nat) : List ClassExpr → Option TextSpan
  | [] => none
  | e :: es => (tooDeep? depth e).or (anyTooDeep? depth es)

end

end ClassExpr

namespace PatternExpr

def span : PatternExpr → TextSpan
  | empty | options _ => ⟨0, 0⟩
  | char c => c.span
  | dot span | place _ span | letter _ _ span | property _ span | bracketed _ _ span
  | repeated _ _ _ _ span | group _ _ _ span | oneOf _ span | sequence _ span => span

mutual

/-- The first part, from outside and from the left, that lies too deep, where `depth` parts lie
around. Single characters, places and classes named by a letter or a property do not count. -/
def tooDeep? (depth : Nat) : PatternExpr → Option TextSpan
  | bracketed inside _ span =>
    if depth < deepest then inside.tooDeep? (depth + 1) else some span
  | repeated p _ _ _ span | group _ _ p span =>
    if depth < deepest then tooDeep? (depth + 1) p else some span
  | oneOf ps span | sequence ps span =>
    if depth < deepest then anyTooDeep? (depth + 1) ps else some span
  | _ => none

def anyTooDeep? (depth : Nat) : List PatternExpr → Option TextSpan
  | [] => none
  | p :: ps => (tooDeep? depth p).or (anyTooDeep? depth ps)

end

end PatternExpr

end Dmg
