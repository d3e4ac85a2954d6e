import Dmg.CharSet
import Dmg.Marks

/-! # Patterns

Regular expressions over characters. Marks are put on the places of a text, and a pattern takes each
place to the marks on the places where a match that starts there can end (`Pattern.lead`); it occurs
in a text if a match that starts somewhere ends somewhere. Which of several matches is found does
not matter to that. Yet what is asked for in different ways is different: a start that patterns have
in common can be shared only if it is the same in every respect (`Pattern.ofBranches`). -/

namespace Dmg

/-- A place described by the ASCII word characters next to it (`WordPlace.holds`). -/
inductive WordPlace where
  | edge | inside | start | finish | startHalf | finishHalf
deriving DecidableEq

/-- A place of a text. Lines end with a line feed; with `crlf`, with a carriage return as well, and both
together are one end. With `unicode`, the letters of words are not those of ASCII alone. -/
inductive Place where
  | textStart | textEnd
  | lineStart (crlf : Bool)
  | lineEnd (crlf : Bool)
  | word (w : WordPlace) (unicode : Bool)
deriving DecidableEq

/-- A pattern. What is `one` of a set is asked for as a byte or as a character. Of `times`, there are at
least `least` and, if that is given, at most `most`; with `few`, rather fewer than more. -/
inductive Pattern where
  | empty
  | literal (cs : List Char)
  | one (s : CharSet) (byte : Bool)
  | place (l : Place)
  | seq (p q : Pattern)
  | alt (p q : Pattern)
  | times (p : Pattern) (least : Nat) (most : Option Nat) (few : Bool)
  | group (n : Nat) (p : Pattern)
deriving DecidableEq

/-! ### Places -/

def isWordChar (c : Char) : Bool := c.isAlphanum || c == '_'

def WordPlace.holds (w : WordPlace) (before after : Bool) : Bool :=
  match w with
  | edge => before != after
  | inside => before == after
  | start => !before && after
  | finish => before && !after
  | startHalf => !before
  | finishHalf => !after

/-- Whether a place of a text is the described one, given the characters on both sides. -/
def Place.holds (l : Place) (before after : Option Char) : Bool :=
  match l with
  | textStart => before.isNone
  | textEnd => after.isNone
  | lineStart crlf => match before with
    | none => true
    | some c => c == '\n' || crlf && c == '\r' && after != some '\n'
  | lineEnd crlf => match after with
    | none => true
    | some c => if crlf then c == '\r' || c == '\n' && before != some '\r' else c == '\n'
  | word w _ => w.holds (before.any isWordChar) (after.any isWordChar)

/-! ### Matches -/

/-- `f` applied `n` times; nothing more is done once a value stays as it is. -/
def settle {α : Type} [DecidableEq α] (f : α → α) : Nat → α → α
  | 0, a => a
  | n + 1, a => let b := f a; if b = a then a else settle f n b

theorem settle_eq_repeat {α : Type} [DecidableEq α] (f : α → α) (n : Nat) (a : α) :
    settle f n a = Nat.repeat f n a := by
  have fixed (n : Nat) (a : α) (h : f a = a) : Nat.repeat f n a = a := by
    induction n with
    | zero => rfl
    | succ n ih => exact (congrArg f ih).trans h
  have shift (n : Nat) (a : α) : Nat.repeat f n (f a) = f (Nat.repeat f n a) := by
    induction n with
    | zero => rfl
    | succ n ih => exact congrArg f ih
  induction n generalizing a with
  | zero => rfl
  | succ n ih =>
    by_cases h : f a = a
    · exact (if_pos h).trans (fixed (n + 1) a h).symm
    · exact (if_neg h).trans ((ih (f a)).trans (shift n a))

namespace Pattern

/-- Marks one character to the left, where that character is admitted. -/
def advance (text : Array Char) (admits : Char → Bool) (marks : Marks) : Marks :=
  marks.mapIdx fun i _ => if text[i]?.any admits then marks.get (i + 1) else 0

/-- Each place with the marks on the places where a match that starts there can end. -/
def lead (text : Array Char) : Pattern → Marks → Marks
  | empty, marks => marks
  | literal cs, marks => cs.foldr (fun c marks => advance text (· == c) marks) marks
  | one s _, marks => advance text s.contains marks
  | place l, marks => marks.mapIdx fun i m =>
    let before := if i = 0 then none else text[i - 1]?
    if l.holds before text[i]? then m else 0
  | seq p q, marks => lead text p (lead text q marks)
  | alt p q, marks => (lead text p marks).union (lead text q marks)
  | group _ p, marks => lead text p marks
  | times p least most _, marks =>
    if least = 0 ∧ most = some 1 then marks.union (lead text p marks)
    else
      let turn := lead text p (.ofPlaces text.size)
      let more := match most with
        | none => turn.close marks
        | some m => settle (fun marks => marks.union (turn.through marks)) (m - least) marks
      settle turn.through least more

def occursIn (p : Pattern) (text : String) : Bool :=
  let cs := text.toList.toArray
  (lead cs p (Array.replicate (cs.size + 1) 1)).any (· ≠ 0)

/-! ### Lengths -/

/-- Characters in the shortest match; none if nothing matches. -/
def shortest : Pattern → Option Nat
  | empty | place _ => some 0
  | literal cs => some cs.length
  | one s _ => if s.isEmpty then none else some 1
  | seq p q => return (← p.shortest) + (← q.shortest)
  | alt p q => return min (← p.shortest) (← q.shortest)
  | times p least _ _ => return (← p.shortest) * least
  | group _ p => p.shortest

/-- Characters in the longest match; none if nothing matches or there is no longest. -/
def longest : Pattern → Option Nat
  | empty | place _ => some 0
  | literal cs => some cs.length
  | one s _ => if s.isEmpty then none else some 1
  | seq p q => return (← p.longest) + (← q.longest)
  | alt p q => return max (← p.longest) (← q.longest)
  | times p _ most _ => return (← p.longest) * (← most)
  | group _ p => p.longest

/-! ### Building -/

/-- One character of a set; a set of one character is that character. A set without characters has
one form. -/
def ofSet (s : CharSet) (byte : Bool) : Pattern :=
  match s.single? with
  | some c => literal [c]
  | none => one s (byte || s.isEmpty)

/-- The parts that follow each other. -/
def elements : Pattern → List Pattern
  | empty => []
  | seq p q => elements p ++ elements q
  | p => [p]

/-- The parts that stand beside each other, before others. -/
def branchesBefore : Pattern → List Pattern → List Pattern
  | alt p q, rest => p.branchesBefore (q.branchesBefore rest)
  | p, rest => p :: rest

def branches (p : Pattern) : List Pattern := p.branchesBefore []

/-- Neighbouring characters taken together. -/
def mergeLiterals : List Pattern → List Pattern
  | [] => []
  | literal cs :: ps =>
    match mergeLiterals ps with
    | literal ds :: ps => literal (cs ++ ds) :: ps
    | ps => literal cs :: ps
  | p :: ps => p :: mergeLiterals ps

def chain : List Pattern → Pattern
  | [] => empty
  | [p] => p
  | p :: ps => seq p (chain ps)

def ofSequence (ps : List Pattern) : Pattern := chain (mergeLiterals (ps.flatMap elements))

def commonStart : List (List Pattern) → List Pattern
  | [] => []
  | [ps] => ps
  | ps :: rest => ((ps.zip (commonStart rest)).takeWhile fun (p, q) => p = q).map (·.1)

/-- The characters of a set that is written as a single character. -/
def singleChar? : Pattern → Option CharSet
  | literal [c] => some (.single c)
  | _ => none

def set? : Pattern → Option CharSet
  | one s _ => some s
  | _ => none

/-- Patterns beside each other. Characters beside each other are a set, and so are sets. -/
def beside (ps : List Pattern) : Pattern :=
  let ps := ps.flatMap branches
  let together (sets : List CharSet) : Pattern := ofSet (.unionAll sets) false
  match ps with
  | [] => ofSet .none true
  | [p] => p
  | p :: rest =>
    match ps.mapM singleChar?, ps.mapM set? with
    | some sets, _ | none, some sets => together sets
    | none, none => rest.foldl alt p

/-- One of several patterns. A start that all of them share stands before them. -/
def ofBranches (ps : List Pattern) : Pattern :=
  let parts := (ps.flatMap branches).map elements
  let shared := if parts.all (·.length ≥ 2) then commonStart parts else []
  if shared.isEmpty ∨ parts.length < 2 then beside ps
  else ofSequence (shared ++ [beside (parts.map fun ps => ofSequence (ps.drop shared.length))])

/-- A pattern repeated. What matches only at a place need not be matched there again. -/
def repeated (p : Pattern) (least : Nat) (most : Option Nat) (few : Bool) : Pattern :=
  let fixed := p.longest = some 0
  let least := if fixed then min least 1 else least
  let most := if fixed then some (min (most.getD 1) 1) else most
  if least = 0 ∧ most = some 0 then empty
  else if least = 1 ∧ most = some 1 then p
  else times p least most few

end Pattern

end Dmg
