/-! # Errors in patterns

Why the text of a pattern is refused (`PatternFault`), where in the text (`PatternError`), and the
report that shows the text with the places marked below it (`PatternError.report`). -/

namespace Dmg

/-- Groups, classes and repetitions may lie in each other this deep. -/
def deepest : Nat := 250

inductive PatternFault where
  | backreference | lookAround
  | groupUnclosed | groupUnopened
  | nameDuplicate | nameEmpty | nameInvalid | nameUnclosed
  | optionDangling | optionDuplicate | optionRepeatedNegation | optionUnclosed | optionUnknown
  | operandMissing
  | countDecimal | countInvalid | countUnclosed | decimalInvalid
  | escapeUnclosed | escapeUnknown | hexEmpty | hexInvalid | hexDigit | propertyInvalid
  | edgeUnclosed | edgeUnknown | edgeOrCountUnclosed
  | classUnclosed | classEscape | classRange | classRangeLiteral
  | tooDeep
  /-- Tables of Unicode that are not at hand. -/
  | noClassTable | noProperty | noPropertyValue | noCaseFolding
  | unicodeOff | invalidEncoding
deriving DecidableEq

def PatternFault.message : PatternFault → String
  | backreference => "backreferences are not supported"
  | lookAround => "look-around, including look-ahead and look-behind, is not supported"
  | groupUnclosed => "unclosed group"
  | groupUnopened => "unopened group"
  | nameDuplicate => "duplicate capture group name"
  | nameEmpty => "empty capture group name"
  | nameInvalid => "invalid capture group character"
  | nameUnclosed => "unclosed capture group name"
  | optionDangling => "dangling flag negation operator"
  | optionDuplicate => "duplicate flag"
  | optionRepeatedNegation => "flag negation operator repeated"
  | optionUnclosed => "expected flag but got end of regex"
  | optionUnknown => "unrecognized flag"
  | operandMissing => "repetition operator missing expression"
  | countDecimal => "repetition quantifier expects a valid decimal"
  | countInvalid => "invalid repetition count range, the start must be <= the end"
  | countUnclosed => "unclosed counted repetition"
  | decimalInvalid => "decimal literal invalid"
  | escapeUnclosed => "incomplete escape sequence, reached end of pattern prematurely"
  | escapeUnknown => "unrecognized escape sequence"
  | hexEmpty => "hexadecimal literal empty"
  | hexInvalid => "hexadecimal literal is not a Unicode scalar value"
  | hexDigit => "invalid hexadecimal digit"
  | propertyInvalid => "invalid Unicode character class"
  | edgeUnclosed =>
    "special word boundary assertion is either unclosed or contains an invalid character"
  | edgeUnknown => "unrecognized special word boundary assertion, " ++
    "valid choices are: start, end, start-half or end-half"
  | edgeOrCountUnclosed => "found either the beginning of a special word boundary or a " ++
    "bounded repetition on a \\b with an opening brace, but no closing brace"
  | classUnclosed => "unclosed character class"
  | classEscape => "invalid escape sequence found in character class"
  | classRange => "invalid character class range, the start must be <= the end"
  | classRangeLiteral => "invalid range boundary, must be a literal"
  | tooDeep => "exceed the maximum number of nested parentheses/brackets (" ++
    toString deepest ++ ")"
  | noClassTable =>
    "Unicode-aware Perl class not found (make sure the unicode-perl feature is enabled)"
  | noProperty => "Unicode property not found"
  | noPropertyValue => "Unicode property value not found"
  | noCaseFolding => "Unicode-aware case insensitivity matching is not available " ++
    "(make sure the unicode-case feature is enabled)"
  | unicodeOff => "Unicode not allowed here"
  | invalidEncoding => "pattern can match invalid UTF-8"

structure TextSpan where
  start : Nat
  stop : Nat
deriving DecidableEq

/-- A fault, the part of the pattern it lies in, and an earlier part it clashes with, if any. -/
structure PatternError where
  fault : PatternFault
  span : TextSpan
  earlier : Option TextSpan := none
deriving DecidableEq

/-! ### Lines of a text -/

/-- Where a place of a text is: its line and its column, both from zero. -/
def lineAndColumn (cs : List Char) (place : Nat) : Nat × Nat :=
  (cs.take place).foldl (fun (line, column) c =>
    if c = '\n' then (line + 1, 0) else (line, column + 1)) (0, 0)

/-- The lines of a text; one that is empty and the last is left out. -/
def textLines (text : String) : List String :=
  let lines := text.splitOn "\n"
  let ended := lines.dropLast.map fun line =>
    if line.endsWith "\r" then String.ofList line.toList.dropLast else line
  ended ++ (lines.getLast?.filter (· ≠ "")).toList

def repeatChar (n : Nat) (c : Char) : String := String.ofList (List.replicate n c)

namespace PatternError

/-- A row of markers below parts of a line, which are given by their first and last columns from
left to right; an empty part has one marker. -/
def markers : List (Nat × Nat) → Nat → String
  | [], _ => ""
  | (start, stop) :: rest, column =>
    let width := max 1 (stop - start)
    let gap := start - column
    repeatChar gap ' ' ++ repeatChar width '^' ++ markers rest (column + gap + width)

def spans (e : PatternError) : List TextSpan := e.earlier.toList ++ [e.span]

/-- The lines of the text, each after what `label` gives for its number, and markers below them for
the parts that begin and end in one line. -/
def marked (e : PatternError) (text : String) (margin : Nat) (label : Nat → String) :
    List String :=
  let cs := text.toList
  let placed := e.spans.map fun s => (lineAndColumn cs s.start, lineAndColumn cs s.stop)
  (textLines text).mapIdx (fun i line =>
    let here := placed.filterMap fun ((line, start), (line', stop)) =>
      if line = i ∧ line' = i then some (start, stop) else none
    (label i ++ line) ::
      if here.isEmpty then [] else [repeatChar margin ' ' ++ markers here 0]) |>.flatten

/-- What is said about a part that begins in one line and ends in another. -/
def overLines (cs : List Char) (s : TextSpan) : Option String :=
  let (line, column) := lineAndColumn cs s.start
  let (line', column') := lineAndColumn cs s.stop
  if line = line' then none
  else some ("on line " ++ toString (line + 1) ++ " (column " ++ toString (column + 1) ++
    ") through line " ++ toString (line' + 1) ++ " (column " ++ toString column' ++ ")")

/-- The report of an error in the pattern `text`, line by line. A text of several lines is numbered
and stands between dividers. -/
def report (e : PatternError) (text : String) : List String :=
  let cs := text.toList
  let title := "regex parse error:"
  let message := "error: " ++ e.fault.message
  if '\n' ∈ cs then
    let width := (toString (cs.count '\n' + 1)).length
    let number (i : Nat) : String :=
      let digits := toString (i + 1)
      repeatChar (width - digits.length) ' ' ++ digits ++ ": "
    let divider := repeatChar 79 '~'
    [title, divider] ++ e.marked text (width + 2) number ++ [divider] ++
      e.spans.filterMap (overLines cs) ++ [message]
  else title :: e.marked text 4 (fun _ => "    ") ++ [message]

end PatternError

end Dmg
