import Dmg.Pattern

/-! # Patterns that are words

What a pattern matches may be known to be one of a few words, and these are searched for without a
machine (`Pattern.isWords`). To that end the openings of the matches are listed, which are words
that matches begin with, in the order in which they are preferred. Lists are kept short, and so are
the words in them: of words that are not worth it, only the starts are searched for. -/

namespace Dmg

/-- A word that matches begin with, or that is the `whole` of a match. -/
structure Opening where
  bytes : List UInt8
  whole : Bool
deriving DecidableEq

namespace Opening

/-- The opening of a match without characters. -/
def empty : Opening := ⟨[], true⟩

/-- The opening of matches that may go on. -/
def leaveOpen (w : Opening) : Opening := { w with whole := false }

/-- At most the first `n` bytes. -/
def cut (n : Nat) (w : Opening) : Opening :=
  if w.bytes.length ≤ n then w else ⟨w.bytes.take n, false⟩

/-- Equal words next to each other, made one. The first word is given apart. -/
def merge : Opening → List Opening → List Opening
  | w, [] => [w]
  | w, v :: rest =>
    if w.bytes = v.bytes then merge { w with whole := w.whole && v.whole } rest
    else w :: merge v rest

def mergeAll : List Opening → List Opening
  | [] => []
  | w :: rest => merge w rest

end Opening

/-! ### Listing the openings -/

/-- The openings of all matches, unless they cannot be listed. -/
abbrev Openings := Option (List Opening)

namespace Openings

/-! Of a set so many characters are listed, of a repetition so many turns, of a word so many bytes, and
so many words in all. -/

def mostChars : Nat := 10

def mostTurns : Nat := 10

def mostBytes : Nat := 100

def mostWords : Nat := 250

def empty : Openings := some [.empty]

/-- The openings of matches that may go on. -/
def leaveOpen (o : Openings) : Openings := o.map (·.map (·.leaveOpen))

def cut (n : Nat) (o : Openings) : Openings := o.map (·.map (·.cut n))

/-- The opening of one word. -/
def ofBytes (bytes : List UInt8) : Openings := cut mostBytes (some [⟨bytes, true⟩])

/-- The characters of a set. -/
def ofSet (s : CharSet) : Openings :=
  let count := s.ranges.foldl (fun n (low, high) => n + (high + 1 - low)) 0
  if count ≤ mostChars then
    some (s.ranges.flatMap fun (low, high) => (List.range (high + 1 - low)).map fun n =>
      ⟨(Char.ofNat (low + n)).toString.toUTF8.toList, true⟩)
  else none

/-- Openings, each with one of others behind it. What cannot be listed leaves the words open. -/
def cross (o others : Openings) : Openings :=
  o.bind fun words =>
    cut mostBytes <| match others.filter fun vs => words.length * vs.length ≤ mostWords with
    | none =>
      if words.any (·.bytes.isEmpty) then none else some (words.map (·.leaveOpen))
    | some vs => some <| Opening.mergeAll <| words.flatMap fun w =>
      if w.whole then vs.map fun v => ⟨w.bytes ++ v.bytes, v.whole⟩ else [w]

/-- Openings with others behind them, unless all of them are open already. -/
def andThen (o others : Openings) : Openings :=
  if o.all (·.all (!·.whole)) then o else o.cross others

/-- Openings, and others that are less preferred. If there are too many, the starts are listed. -/
def orElse (o others : Openings) : Openings := do
  let words ← o
  let vs ← others
  if words.length + vs.length ≤ mostWords then return Opening.mergeAll (words ++ vs)
  let words := Opening.mergeAll (words.map (·.cut 4))
  let vs := Opening.mergeAll (vs.map (·.cut 4))
  if words.length + vs.length ≤ mostWords then return Opening.mergeAll (words ++ vs)
  none

def ofSequence : List Openings → Openings
  | [o] => o
  | os => os.foldl andThen empty

/-- The openings of a repetition, from those of a turn. -/
def repeated (turn : Openings) (least : Nat) (most : Option Nat) (few : Bool) : Openings :=
  if least = 0 then
    let turn := if most = some 1 then turn else turn.leaveOpen
    if few then empty.orElse turn else turn.orElse empty
  else
    let start := Nat.repeat (·.andThen turn) (min least mostTurns) empty
    if most = some least ∧ least ≤ mostTurns then start else start.leaveOpen

end Openings

namespace Pattern

/-- The openings of the parts of a pattern that follow each other. -/
def partOpenings : Pattern → List Openings
  | empty | place _ => [.empty]
  | literal cs => [.ofBytes (String.ofList cs).toUTF8.toList]
  | one s _ => [.ofSet s]
  | group _ p => [.ofSequence p.partOpenings]
  | seq p q => p.partOpenings ++ q.partOpenings
  | alt p q => [(Openings.ofSequence p.partOpenings).orElse (.ofSequence q.partOpenings)]
  | times p least most few => [(Openings.ofSequence p.partOpenings).repeated least most few]

def openings (p : Pattern) : Openings := .ofSequence p.partOpenings

end Pattern

/-! ### Searching for them -/

/-- Bytes that are common in texts. -/
def isCommonByte (b : UInt8) : Bool :=
  b ≥ 0xC0 || "\n\r (),-./0129:_abcdefghilmnoprstuvxy|".toUTF8.toList.contains b

namespace Opening

/-- The words that begin with none before them. -/
def preferred (words : List Opening) : List Opening :=
  words.foldl (fun kept w =>
    if kept.any (·.bytes.isPrefixOf w.bytes) then kept else kept ++ [w]) []

/-- What all words begin with. -/
def commonStart : List Opening → List UInt8
  | [] => []
  | [w] => w.bytes
  | w :: rest => ((w.bytes.zip (commonStart rest)).takeWhile fun (b, c) => b = c).map (·.1)

/-- Starts of words. As long as there are more than some number of words, they are cut. -/
def shorten : List (Nat × Nat) → List Opening → List Opening
  | [], words => words
  | (size, most) :: rest, words =>
    if words.length ≤ most then words else shorten rest (preferred (words.map (·.cut size)))

/-- Whether all words are searched for as they are. What they have in common is searched for in
their place if that is one rare byte, or is long; and so are the starts of many long words. -/
def searchedWhole (words : List Opening) : Bool :=
  let kept := preferred words
  let start := commonStart kept
  let byRareByte := words.length > 1 ∧ start.length ≤ 3 ∧ start.head?.any (!isCommonByte ·)
  let areFew := kept.all (·.whole) ∧ kept.length ≤ 16
  let kept :=
    if byRareByte then kept.map (·.cut 1)
    else if start.length > 4 ∨ start.length > 1 ∧ ¬ areFew then kept.map (·.cut start.length)
    else kept
  let short := shorten [(5, 10), (4, 10), (3, 64), (2, 64), (1, 10)] kept
  kept.all (·.whole) && (short.any (·.bytes.length ≤ 2) || short.length > 64 || short.all (·.whole))

end Opening

namespace Pattern

/-- Whether there are neither places nor groups in a pattern. -/
def isPlain : Pattern → Bool
  | empty | literal _ | one _ _ => true
  | place _ | group _ _ => false
  | seq p q | alt p q => p.isPlain && q.isPlain
  | times p _ _ _ => p.isPlain

def isWords (p : Pattern) : Bool :=
  p.isPlain && match p.openings with
  | none | some [] => false
  | some words => words.all (!·.bytes.isEmpty) && Opening.searchedWhole (Opening.mergeAll words)

end Pattern

end Dmg
