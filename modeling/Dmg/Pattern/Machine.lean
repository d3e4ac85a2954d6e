import Dmg.CharSet.Machine
import Dmg.Pattern

/-! # The machines of patterns

A pattern is searched for by a machine that reads the bytes of a text forward, and by one that reads
them backward (`Pattern.buildWhole`). Each part of a pattern is a part of the machine, with one way
in and one way out. What counts is whether the machines become too large (`Pattern.fits`). -/

namespace Dmg

/-! ### Words beside each other -/

/-- Words that go on, between those that have ended. Of several that end before any goes on, one
counts. -/
def chunks (words : List (List UInt8)) : List (List (List UInt8)) :=
  ((words.takeWhile (·.isEmpty)).take 1 ++ words.dropWhile (·.isEmpty)).splitOn []

/-- What follows the byte `b` in a word, put before what follows it in others. -/
def putUnder (b : UInt8) (tail : List UInt8) :
    List (UInt8 × List (List UInt8)) → List (UInt8 × List (List UInt8))
  | [] => [(b, [tail])]
  | (c, tails) :: rest =>
    if b = c then (c, tail :: tails) :: rest else (c, tails) :: putUnder b tail rest

/-- The bytes that words start with, each with what follows it. -/
def byFirstByte (words : List (List UInt8)) : List (UInt8 × List (List UInt8)) :=
  words.foldr (fun word groups =>
    match word with
    | [] => groups
    | b :: tail => putUnder b tail groups) []

/-- The states that read one of several words up to the end they share. Words that start alike share
states, as long as no word that has ended stands between them. -/
def wordStates : Nat → List (List UInt8) → List Pattern.Built
  | 0, _ => []
  | n + 1, words =>
    let chunks := (chunks words).map byFirstByte
    let filled := chunks.filter (!·.isEmpty)
    let fork : Pattern.Built := ⟨1, stateSize + forkSize * (filled.length + (chunks.length - 1))⟩
    let states : List Pattern.Built := filled.map fun starts =>
      ⟨1, stateSize + if starts.length = 1 then 0 else rangeSize * starts.length⟩
    fork :: states ++ filled.flatten.flatMap fun (_, tails) =>
      if tails.all (·.isEmpty) then [] else wordStates n tails

namespace Pattern

def bytes? : Pattern → Option (List UInt8)
  | literal cs => some (String.ofList cs).toUTF8.toList
  | _ => none

def isAlt : Pattern → Bool
  | alt _ _ => true
  | _ => false

/-- The part that reads one of several words. -/
def wordPart (d : Direction) (words : List (List UInt8)) : Part :=
  let words := match d with
    | .forward => words
    | .backward => words.map List.reverse
  let states := wordStates (words.foldl (fun n word => max n word.length) 0) words
  ⟨do states.forM Builder.add; Builder.single⟩

/-! ### Patterns -/

/-- The part that a pattern is. Words beside each other share states; else parts beside each other
lie at a junction, which is built behind the second one. Without `whole`, the pattern is only the
first of the parts beside each other. -/
def part (d : Direction) (whole : Bool) : Pattern → Part
  | empty | place _ => ⟨Builder.single⟩
  | literal cs =>
    let size := (String.ofList cs).utf8ByteSize
    ⟨do Builder.add ⟨size, stateSize * size⟩; return .plain⟩
  | one s _ => s.part d
  | group _ p =>
    let inner := p.part d true
    match d with
    | .forward => ⟨Builder.enclosed inner.build⟩
    | .backward => inner
  | seq p q =>
    let first := p.part d true
    let second := q.part d true
    match d with
    | .forward => ⟨Builder.andThen first.build second.build⟩
    | .backward => ⟨Builder.andThen second.build first.build⟩
  | alt p q =>
    match if whole then (alt p q).branches.mapM bytes? else none with
    | some words => wordPart d words
    | none =>
      let first := p.part d false
      let second := q.part d true
      ⟨if p.isAlt then Builder.joined first.build second.build
        else Builder.beside first.build second.build⟩
  | times p least most _ =>
    let turn := (p.part d true).build
    match most with
    | none => ⟨Builder.atLeast turn (p.shortest.any (0 < ·)) least⟩
    | some most =>
      if least = 0 ∧ most = 1 then ⟨Builder.optional turn⟩
      else if least = most then ⟨Builder.exactly turn least⟩
      else ⟨Builder.upTo turn least (most - least)⟩

/-- Whether every match begins at the place `l`, or ends there when it is read backward. -/
def beginsAt (l : Place) (d : Direction) : Pattern → Bool
  | empty | literal _ | one _ _ => false
  | place k => k = l
  | group _ p => p.beginsAt l d
  | seq p q =>
    match d with
    | .forward => p.beginsAt l d || (q.beginsAt l d && p.longest = some 0)
    | .backward => q.beginsAt l d || (p.beginsAt l d && q.longest = some 0)
  | alt p q => p.beginsAt l d && q.beginsAt l d
  | times p least _ _ => 0 < least && p.beginsAt l d

/-- The machine that looks for a pattern anywhere in a text. Unless a match has to begin where the
machine begins to read, it passes over bytes before the match. -/
def buildWhole (p : Pattern) (d : Direction) : Builder Unit := do
  let origin : Place := match d with
    | .forward => .textStart
    | .backward => .textEnd
  if p.beginsAt origin d then Builder.add ⟨1, stateSize⟩
  else Builder.add ⟨3, 3 * stateSize + rangeSize + 2 * forkSize⟩
  Builder.leave (← ((group 0 p).part d true).build)
  Builder.add ⟨1, stateSize⟩

def fits (p : Pattern) (d : Direction) : Bool := ((p.buildWhole d).run {}).isSome

/-- Whether a pattern asks for words of Unicode, of which there is no table. -/
def needsWordTable : Pattern → Bool
  | empty | literal _ | one _ _ => false
  | place (.word _ unicode) => unicode
  | place _ => false
  | group _ p | times p _ _ _ => p.needsWordTable
  | seq p q | alt p q => p.needsWordTable || q.needsWordTable

end Pattern

end Dmg
