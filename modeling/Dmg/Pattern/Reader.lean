import Dmg.Blank
import Dmg.Letter
import Dmg.Pattern.Expr

/-! # Reading patterns

The text of a pattern is read from left to right (`PatternExpr.read`). What is malformed ends the
reading at once. Where blanks and comments stand for nothing, they may also stand between the parts
of an escape, of a class and of the bounds of a repetition. -/

namespace Dmg

namespace PatternExpr

/-- A text as far as it has been read. -/
structure ReadState where
  rest : List Char
  position : Nat := 0
  /-- The characters of the whole text, which bound all there is to do. -/
  size : Nat
  /-- Blanks and comments stand for nothing. -/
  spaced : Bool := false
  names : List (String × TextSpan) := []
  groups : Nat := 0

abbrev Reader := StateT ReadState (Except PatternError)

namespace Reader

/-! ### Characters -/

def peek : Reader (Option Char) := return (← get).rest.head?

def atEnd : Reader Bool := return (← get).rest.isEmpty

def position : Reader Nat := return (← get).position

/-- What lies between `start` and the next character. -/
def spanFrom (start : Nat) : Reader TextSpan := return ⟨start, ← position⟩

def skip (n : Nat) : Reader Unit :=
  modify fun s =>
    { s with rest := s.rest.drop n, position := s.position + (s.rest.take n).length }

/-- Pass the characters `cs` if they come next. -/
def accept (cs : String) : Reader Bool := do
  if cs.toList.isPrefixOf (← get).rest then
    skip cs.length
    return true
  else return false

def skipWhile (p : Char → Bool) : Reader (List Char) := do
  let cs := (← get).rest.takeWhile p
  skip cs.length
  return cs

/-- The length of the blanks and comments at the start of a text. A comment ends with its line. -/
def blanks : Nat → List Char → Nat
  | 0, _ => 0
  | n + 1, cs =>
    let ink := cs.dropWhile isBlank
    let space := (cs.takeWhile isBlank).length
    match ink with
    | '#' :: cs =>
      space + 1 + (cs.takeWhile (· ≠ '\n')).length + blanks n (cs.dropWhile (· ≠ '\n'))
    | _ => space

/-- Pass the blanks and comments before the next character, where they stand for nothing. -/
def skipBlanks : Reader Unit := do
  let s ← get
  if s.spaced ∧ s.rest.head?.any fun c => isBlank c || c == '#' then
    skip (blanks (s.size + 1) s.rest)

def advance : Reader Unit := do
  skip 1
  skipBlanks

/-- The first character that is no blank, where the words of a comment count and the sign that
starts it does not. -/
def firstInk (comment : Bool) : List Char → Option Char
  | [] => none
  | c :: cs =>
    if isBlank c then firstInk comment cs
    else if c = '#' ∧ !comment then firstInk true cs
    else some c

/-- What comes after the next character, apart from blanks that stand for nothing. -/
def peekBehind : Reader (Option Char) := do
  let s ← get
  let rest := s.rest.drop 1
  return if s.spaced then (firstInk false rest).or rest.head? else rest.head?

/-! ### Faults -/

def fail {α : Type} (fault : PatternFault) (start stop : Nat) : Reader α :=
  throw { fault, span := { start, stop } }

def failFrom {α : Type} (fault : PatternFault) (start : Nat) : Reader α := do
  fail fault start (← position)

/-- A fault just before the next character. -/
def failHere {α : Type} (fault : PatternFault) : Reader α := do failFrom fault (← position)

def failNext {α : Type} (fault : PatternFault) : Reader α := do
  let here ← position
  fail fault here (here + 1)

/-! ### Escapes -/

def isHex (c : Char) : Bool := c.isDigit || ('a' ≤ c && c ≤ 'f') || ('A' ≤ c && c ≤ 'F')

def hexValue (cs : List Char) : Nat :=
  cs.foldl (fun n c => 16 * n +
    (if c.isDigit then c.toNat - '0'.toNat else c.toLower.toNat - 'a'.toNat + 10)) 0

/-- The character of a code point, of which the digits stand between `start` and `stop`. -/
def codePoint (digits : List Char) (start stop : Nat) : Reader Char := do
  let n := hexValue digits
  if n.isValidChar then return Char.ofNat n else fail .hexInvalid start stop

/-- So many hexadecimal digits, of which the first comes next. -/
def hexDigits : Nat → Reader (List Char)
  | 0 => return []
  | n + 1 => do
    match ← peek with
    | none => failHere .escapeUnclosed
    | some c =>
      if !isHex c then failNext .hexDigit
      advance
      return c :: (← hexDigits n)

/-- Hexadecimal digits up to a closing brace, which is not passed; the text ends at `brace` if there
is none. -/
def hexInBraces (brace : Nat) : Nat → Reader (List Char)
  | 0 => failFrom .escapeUnclosed brace
  | fuel + 1 => do
    match ← peek with
    | none => failFrom .escapeUnclosed brace
    | some '}' => return []
    | some c =>
      if !isHex c then failNext .hexDigit
      advance
      return c :: (← hexInBraces brace fuel)

/-- A code point after the letter that announces it, and whether it is written as a byte. -/
def hex (letter : Char) : Reader (Char × Bool) := do
  advance
  let start ← position
  match ← peek with
  | none => failHere .escapeUnclosed
  | some '{' =>
    advance
    let digits ← hexInBraces start ((← get).size + 1)
    let stop ← position
    advance
    if digits.isEmpty then failFrom .hexEmpty start
    else return (← codePoint digits (start + 1) stop, false)
  | some _ =>
    let digits ← hexDigits (match letter with
      | 'x' => 2
      | 'u' => 4
      | _ => 8)
    return (← codePoint digits start (← position), letter = 'x')

def nameInBraces : Nat → Reader (List Char)
  | 0 => failHere .escapeUnclosed
  | fuel + 1 => do
    match ← peek with
    | none => failHere .escapeUnclosed
    | some '}' =>
      skip 1
      return []
    | some c =>
      advance
      return c :: (← nameInBraces fuel)

/-- The name of a property of characters, which is a letter or stands between braces. -/
def propertyName : Reader String := do
  advance
  match ← peek with
  | none => failHere .escapeUnclosed
  | some '\\' => failNext .propertyInvalid
  | some '{' =>
    advance
    return String.ofList (← nameInBraces ((← get).size + 1))
  | some c =>
    advance
    return String.ofList [c]

def isEdgeChar (c : Char) : Bool := c.isAlpha || c == '-'

/-- The characters of a name, with the blanks between and behind them passed. -/
def edgeName : Nat → Reader (List Char)
  | 0 => return []
  | fuel + 1 => do
    match ← peek with
    | some c =>
      if !isEdgeChar c then return []
      advance
      return c :: (← edgeName fuel)
    | none => return []

/-- The sort of edge that is named between braces after the letter of an edge. The escape starts at
`start`, and a brace comes next; if it is no name that comes then, the brace is not passed. -/
def edgeSort (start : Nat) : Reader (Option WordPlace) := do
  let before ← get
  advance
  match ← peek with
  | none => failFrom .edgeOrCountUnclosed start
  | some c =>
    if !isEdgeChar c then
      set before
      return none
    let nameStart ← position
    let name ← edgeName ((← get).size + 1)
    if (← peek) ≠ some '}' then failFrom .edgeUnclosed before.position
    let nameStop ← position
    skip 1
    match String.ofList name with
    | "start" => return some .start
    | "end" => return some .finish
    | "start-half" => return some .startHalf
    | "end-half" => return some .finishHalf
    | _ => fail .edgeUnknown nameStart nameStop

def escape : Reader PatternExpr := do
  let start ← position
  skip 1
  match ← peek with
  | none => failFrom .escapeUnclosed start
  | some c =>
    let place (sign : PlaceSign) : Reader PatternExpr := return .place sign (← spanFrom start)
    let char (c : Char) (byte : Bool) : Reader PatternExpr :=
      return .char { char := c, byte, span := ← spanFrom start }
    if c.isDigit then fail .backreference start ((← position) + 1)
    else if c = 'x' ∨ c = 'u' ∨ c = 'U' then
      let (x, byte) ← hex c
      char x byte
    else if c = 'p' ∨ c = 'P' then
      let name ← propertyName
      return .property name (← spanFrom start)
    else do
      skip 1
      let letter (l : LetterClass) : Reader PatternExpr :=
        return .letter l c.isUpper (← spanFrom start)
      match c with
      | 'd' | 'D' => letter .digit
      | 'w' | 'W' => letter .word
      | 's' | 'S' => letter .blank
      | 'a' => char '\x07' false
      | 'f' => char '\x0C' false
      | 't' => char '\t' false
      | 'n' => char '\n' false
      | 'r' => char '\r' false
      | 'v' => char '\x0B' false
      | 'A' => place .textStart
      | 'z' => place .textEnd
      | 'b' =>
        let sort ← if (← peek) = some '{' then edgeSort start else pure none
        place (.word (sort.getD .edge))
      | 'B' => place (.word .inside)
      | '<' => place (.word .start)
      | '>' => place (.word .finish)
      | c =>
        if c.toNat < 128 ∧ !c.isAlphanum then char c false
        else failFrom .escapeUnknown start

/-! ### Classes -/

def namedClass? : String → Option CharSet
  | "alnum" => some (.ofRanges [('0', '9'), ('A', 'Z'), ('a', 'z')])
  | "alpha" => some (.ofRanges [('A', 'Z'), ('a', 'z')])
  | "ascii" => some (.range '\x00' '\x7F')
  | "blank" => some (.ofRanges [('\t', '\t'), (' ', ' ')])
  | "cntrl" => some (.ofRanges [('\x00', '\x1F'), ('\x7F', '\x7F')])
  | "digit" => some LetterClass.digit.toSet
  | "graph" => some (.range '!' '~')
  | "lower" => some (.range 'a' 'z')
  | "print" => some (.range ' ' '~')
  | "punct" => some (.ofRanges [('!', '/'), (':', '@'), ('[', '\x60'), ('\x7B', '~')])
  | "space" => some LetterClass.blank.toSet
  | "upper" => some (.range 'A' 'Z')
  | "word" => some LetterClass.word.toSet
  | "xdigit" => some (.ofRanges [('0', '9'), ('A', 'F'), ('a', 'f')])
  | _ => none

/-- A named class such as `[:alpha:]`, if one comes next; otherwise nothing is passed. -/
def namedClass : Reader (Option ClassExpr) := do
  let before ← get
  if ← accept "[:" then
    let inverted ← accept "^"
    let name ← skipWhile (· ≠ ':')
    if ← accept ":]" then
      if let some s := namedClass? (String.ofList name) then
        return some (.named s inverted (← spanFrom before.position))
  set before
  return none

/-- The items of a class, last first, and the part of the text they take up. -/
structure Items where
  span : TextSpan
  items : List ClassExpr := []

namespace Items

/-- No items, before the next character. -/
def here : Reader Items := do return { span := ← spanFrom (← position) }

def push (is : Items) (item : ClassExpr) : Items :=
  let start := if is.items.isEmpty then item.span.start else is.span.start
  { span := ⟨start, item.span.stop⟩, items := item :: is.items }

def toExpr (is : Items) : ClassExpr :=
  match is.items with
  | [] => .empty is.span
  | [item] => item
  | items => .union items.reverse is.span

end Items

/-- A class that has been opened: where it starts, what opens it, and whether it is inverted. -/
structure OpenClass where
  opening : TextSpan
  inverted : Bool

/-- One end of a range, or a single item. -/
def classItem : Reader PatternExpr := do
  match ← peek with
  | some '\\' => escape
  | some c =>
    let start ← position
    skip 1
    return .char { char := c, span := ← spanFrom start }
  | none => return .empty

def rangeEnd (e : PatternExpr) : Reader WrittenChar :=
  match e with
  | .char c => return c
  | e => fail .classRangeLiteral e.span.start e.span.stop

/-- An item of a class or a range of characters. -/
def classRange (cls : OpenClass) : Reader ClassExpr := do
  let unclosed : Reader Unit := do
    if ← atEnd then fail .classUnclosed cls.opening.start cls.opening.stop
  let first ← classItem
  skipBlanks
  unclosed
  let behind ← peekBehind
  if (← peek) ≠ some '-' ∨ behind = some ']' ∨ behind = some '-' then
    match first with
    | .char c => return .char c
    | .letter l inverted span => return .letter l inverted span
    | .property name span => return .property name span
    | e => fail .classEscape e.span.start e.span.stop
  else
    advance
    unclosed
    let last ← classItem
    let low ← rangeEnd first
    let high ← rangeEnd last
    if low.char ≤ high.char then return .range low high
    else fail .classRange low.span.start high.span.stop

/-- Hyphens at the start of a class that starts at `start`. They stand for themselves. -/
def hyphens (start : Nat) : Nat → Items → Reader Items
  | 0, items => return items
  | fuel + 1, items => do
    if (← peek) ≠ some '-' then return items
    let here ← position
    advance
    if ← atEnd then fail .classUnclosed start start
    hyphens start fuel (items.push (.char { char := '-', span := ⟨here, here + 1⟩ }))

/-- The start of a class: the class and the items that come first and stand for themselves, which
are hyphens or else one closing bracket. -/
def openClass : Reader (OpenClass × Items) := do
  let start ← position
  let unclosed : Reader Unit := do
    if ← atEnd then failFrom .classUnclosed start
  advance
  unclosed
  let inverted := (← peek) = some '^'
  if inverted then
    advance
    unclosed
  let items ← hyphens start ((← get).size + 1) (← Items.here)
  let items ← if items.items.isEmpty ∧ (← peek) = some ']' then do
      let here ← position
      advance
      unclosed
      pure (items.push (.char { char := ']', span := ⟨here, here + 1⟩ }))
    else pure items
  return ({ opening := ← spanFrom start, inverted }, items)

/-- A class and an operator joined to what comes after it. -/
def join (left : Option (ClassExpr × SetOp)) (right : ClassExpr) : ClassExpr :=
  match left with
  | none => right
  | some (e, op) => .joined op e right

/-- The rest of a class, and the part of the text that the whole class takes up: `left` lies before
the last operator, and `items` are those after it. -/
def classBody (cls : OpenClass) :
    Nat → Option (ClassExpr × SetOp) → Items → Reader (ClassExpr × TextSpan)
  | 0, _, _ => fail .classUnclosed cls.opening.start cls.opening.stop
  | fuel + 1, left, items => do
    skipBlanks
    let operator (op : SetOp) : Reader (ClassExpr × TextSpan) := do
      skip 2
      classBody cls fuel (some (join left items.toExpr, op)) (← Items.here)
    match (← get).rest with
    | [] => fail .classUnclosed cls.opening.start cls.opening.stop
    | ']' :: _ =>
      skip 1
      return (join left items.toExpr, ← spanFrom cls.opening.start)
    | '[' :: _ =>
      match ← namedClass with
      | some e => classBody cls fuel left (items.push e)
      | none =>
        let (inner, innerItems) ← openClass
        let (inside, span) ← classBody inner fuel none innerItems
        classBody cls fuel left (items.push (.bracketed inside inner.inverted span))
    | '&' :: '&' :: _ => operator .inter
    | '-' :: '-' :: _ => operator .diff
    | '~' :: '~' :: _ => operator .symmDiff
    | _ :: _ =>
      let e ← classRange cls
      classBody cls fuel left (items.push e)

def charClass : Reader PatternExpr := do
  let fuel := (← get).size + 1
  let (cls, items) ← openClass
  let (inside, span) ← classBody cls fuel none items
  return .bracketed inside cls.inverted span

/-! ### Repetitions -/

/-- Digits, with the blanks between and behind them passed. -/
def digits : Nat → Reader (List Char)
  | 0 => return []
  | fuel + 1 => do
    match ← peek with
    | some c =>
      if !c.isDigit then return []
      advance
      return c :: (← digits fuel)
    | none => return []

/-- Pass blanks, which here stand for nothing anyway. -/
def skipSpace : Nat → Reader Unit
  | 0 => return
  | fuel + 1 => do
    if (← peek).any isBlank then
      advance
      skipSpace fuel

/-- A decimal number with blanks around it, or what is wrong with it. -/
def decimal : Reader (Except PatternError Nat) := do
  let fuel := (← get).size + 1
  let _ ← skipWhile isBlank
  let start ← position
  let cs ← digits fuel
  let span ← spanFrom start
  skipSpace fuel
  let n := cs.foldl (fun (n : Nat) c => 10 * n + (c.toNat - '0'.toNat)) 0
  return if cs.isEmpty then .error { fault := .countDecimal, span }
    else if n < 0x100000000 then .ok n
    else .error { fault := .decimalInvalid, span }

/-- The bounds of a repetition in braces, of which the first comes next, and whether few turns are
asked for. -/
def bounds : Reader (Nat × Option Nat × Bool) := do
  let start ← position
  let unclosed : Reader Unit := do
    if ← atEnd then failFrom .countUnclosed start
  advance
  unclosed
  let least ← decimal
  unclosed
  let range ← if (← peek) = some ',' then do
      advance
      unclosed
      let least ← least
      if (← peek) = some '}' then pure (least, none)
      else pure (least, some (← ← decimal))
    else do
      let n ← least
      pure (n, some n)
  if (← peek) ≠ some '}' then failFrom .countUnclosed start
  advance
  let few ← accept "?"
  if range.2.any (· < range.1) then failFrom .countInvalid start
  return (range.1, range.2, few)

/-! ### Groups -/

def option? : Char → Option PatternOption
  | 'i' => some .ignoreCase
  | 'm' => some .lines
  | 's' => some .dotAll
  | 'U' => some .few
  | 'u' => some .unicode
  | 'R' => some .crlf
  | 'x' => some .spaced
  | _ => none

/-- The options named before the end of a list of options, which is not passed: each is turned off
after a hyphen and on before it. `seen` is what was read before, last first. -/
def optionList : Nat → List (Char × Nat) → OptionChanges → Reader OptionChanges
  | 0, _, changes => return changes
  | fuel + 1, seen, changes => do
    let here ← position
    match ← peek with
    | none => failHere .optionUnclosed
    | some c =>
      if c = ':' ∨ c = ')' then
        match seen with
        | ('-', spot) :: _ => fail .optionDangling spot (spot + 1)
        | _ => return changes
      else
        let on := (seen.lookup '-').isNone
        let change ← match c, option? c with
          | '-', _ => pure []
          | _, some o => pure [(o, on)]
          | _, none => failNext .optionUnknown
        if let some spot := seen.lookup c then
          throw {
            fault := if c = '-' then .optionRepeatedNegation else .optionDuplicate
            span := ⟨here, here + 1⟩
            earlier := some ⟨spot, spot + 1⟩ }
        skip 1
        optionList fuel ((c, here) :: seen) (changes ++ change)

/-- The name of a group and the bracket that ends it. -/
def groupName : Reader Unit := do
  let start ← position
  let cs ← skipWhile (· ≠ '>')
  let span ← spanFrom start
  let starts (c : Char) : Bool := c == '_' || isAlphabetic c
  let goesOn (c : Char) : Bool :=
    starts c || isNumeric c || c == '.' || c == '[' || c == ']'
  let valid (i : Nat) (c : Char) : Bool := if i = 0 then starts c else goesOn c
  match (cs.mapIdx valid).findIdx? (!·) with
  | some i => fail .nameInvalid (start + i) (start + i + 1)
  | none =>
    if !(← accept ">") then failHere .nameUnclosed
    if cs.isEmpty then fail .nameEmpty start start
    let name := String.ofList cs
    match (← get).names.lookup name with
    | some earlier => throw { fault := .nameDuplicate, span, earlier := some earlier }
    | none => modify fun s => { s with names := (name, span) :: s.names }

/-- What a parenthesis starts: a group, with options set inside of it, or options set for the rest
of the group it stands in. -/
inductive Opening where
  | group (number : Option Nat) (changes : OptionChanges)
  | options (changes : OptionChanges)

def nextGroup : Reader (Option Nat) := do
  modify fun s => { s with groups := s.groups + 1 }
  return some (← get).groups

def openGroup : Reader Opening := do
  let start ← position
  advance
  for sign in ["?=", "?!", "?<=", "?<!"] do
    if ← accept sign then failFrom .lookAround start
  let inner ← position
  let named ← accept "?P<"
  if ← (if named then pure true else accept "?<") then
    groupName
    return .group (← nextGroup) []
  else if ← accept "?" then
    if ← atEnd then fail .groupUnclosed start (start + 1)
    let changes ← optionList ((← get).size + 1) [] []
    if ← accept ")" then
      if changes.isEmpty then fail .operandMissing inner inner else return .options changes
    else
      skip 1
      return .group none changes
  else return .group (← nextGroup) []

/-- Whether blanks stand for nothing after changes of options. -/
def spacedAfter (changes : OptionChanges) (before : Bool) : Bool :=
  (changes.lookup .spaced).getD before

/-! ### Patterns -/

/-- One character that is no operator, or an escape. -/
def simple (c : Char) : Reader PatternExpr := do
  let start ← position
  if c = '\\' then escape
  else
    skip 1
    let span ← spanFrom start
    match c with
    | '.' => return .dot span
    | '^' => return .place .lineStart span
    | '$' => return .place .lineEnd span
    | c => return .char { char := c, span }

/-- The pieces of a branch, last first, and where it starts. -/
structure Branch where
  start : Nat
  pieces : List PatternExpr := []

namespace Branch

def push (b : Branch) (p : PatternExpr) : Branch := { b with pieces := p :: b.pieces }

/-- The whole branch, which ends before the next character. -/
def toExpr (b : Branch) : Reader PatternExpr := do
  match b.pieces with
  | [] => return .empty
  | [p] => return p
  | ps => return .sequence ps.reverse (← spanFrom b.start)

/-- The last piece, which is to be repeated, and the branch before it. -/
def operand (b : Branch) : Reader (PatternExpr × Branch) := do
  match b.pieces with
  | [] | .options _ :: _ => failHere .operandMissing
  | p :: pieces => return (p, { b with pieces })

end Branch

/-- Read up to the end of the text or to a closing parenthesis, which is not passed. The branches
that are `done`, last first, come before the one that is read. -/
def body (start : Nat) : Nat → List PatternExpr → Branch → Reader PatternExpr
  | 0, _, branch => branch.toExpr
  | fuel + 1, done, branch => do
    skipBlanks
    let here ← position
    match ← peek with
    | none | some ')' =>
      let last ← branch.toExpr
      match done with
      | [] => return last
      | done => return .oneOf (last :: done).reverse (← spanFrom start)
    | some '|' =>
      let p ← branch.toExpr
      skip 1
      body start fuel (p :: done) { start := ← position }
    | some '(' =>
      let outside := (← get).spaced
      match ← openGroup with
      | .options changes =>
        modify fun s => { s with spaced := spacedAfter changes outside }
        body start fuel done (branch.push (.options changes))
      | .group number changes =>
        modify fun s => { s with spaced := spacedAfter changes outside }
        let inner ← position
        let p ← body inner fuel [] { start := inner }
        if ← accept ")" then
          modify fun s => { s with spaced := outside }
          body start fuel done (branch.push (.group number changes p (← spanFrom here)))
        else fail .groupUnclosed here (here + 1)
    | some '[' =>
      let p ← charClass
      body start fuel done (branch.push p)
    | some '{' =>
      let (p, branch) ← branch.operand
      let (least, most, few) ← bounds
      let span ← spanFrom p.span.start
      body start fuel done (branch.push (.repeated p least most few span))
    | some c =>
      if c = '*' ∨ c = '+' ∨ c = '?' then
        let (p, branch) ← branch.operand
        skip 1
        let few ← accept "?"
        let least := if c = '+' then 1 else 0
        let most := if c = '?' then some 1 else none
        let span ← spanFrom p.span.start
        body start fuel done (branch.push (.repeated p least most few span))
      else
        let p ← simple c
        body start fuel done (branch.push p)

def whole : Reader PatternExpr := do
  let p ← body 0 ((← get).size + 1) [] { start := 0 }
  if !(← atEnd) then failNext .groupUnopened
  return p

end Reader

def read (text : String) : Except PatternError PatternExpr :=
  return (← Reader.whole.run { rest := text.toList, size := text.length }).1

end PatternExpr

end Dmg
