import Dmg.Blank
import Dmg.Event
import Dmg.Pattern.Read

/-! # Log filters

Which events a log shows. A filter is a list of rules, each with a level for the sources whose names
begin in a certain way, and perhaps a pattern that has to occur in the message. It is written as
rules separated by commas, and a slash before the pattern: `info,bus=debug/cpu`. What is wrong with
a part of the text leaves that part out and is a warning (`LogFilter.read`). -/

namespace Dmg

/-- The least severe level that is shown; none shows nothing. -/
abbrev Threshold := Option Level

/-- A threshold by its name, in upper or lower case. -/
def Threshold.ofName? (name : String) : Option Threshold :=
  if name.toUpper = "OFF" then some none
  else (Level.all.find? fun l => l.name = name.toUpper).map some

/-- Whether a level is at the threshold or more severe. -/
def Threshold.shows (t : Threshold) (l : Level) : Bool := t.any fun least => l.rank ≤ least.rank

/-- The threshold of the sources whose names begin with `beginning`; without one, of all sources
that have no rule of their own. -/
structure LogRule where
  beginning : Option String
  threshold : Threshold
deriving DecidableEq

namespace LogRule

def everywhere (l : Level) : LogRule := { beginning := none, threshold := some l }

def covers (r : LogRule) (source : String) : Bool := r.beginning.all fun b => source.startsWith b

/-- How closely a rule describes what it covers. -/
def closeness (r : LogRule) : Nat := (r.beginning.map String.utf8ByteSize).getD 0

/-- A rule put among others; it takes the place of one with the same beginning. -/
def insert (r : LogRule) : List LogRule → List LogRule
  | [] => [r]
  | q :: rs => if q.beginning = r.beginning then r :: rs else q :: insert r rs

def ignored (text : String) : List String :=
  ["warning: invalid logging spec '" ++ text ++ "', ignoring it"]

/-- A rule from its text, or the warning that it is none: a threshold, the beginning of names, or
both with an equals sign between them. -/
def read (text : String) : Except (List String) LogRule :=
  match text.splitOn "=" with
  | [part] => match Threshold.ofName? part with
    | some threshold => .ok { beginning := none, threshold }
    | none => .ok { beginning := some part, threshold := some .trace }
  | [beginning, level] =>
    let level := String.ofList (trimBlanks level.toList)
    if level = "" then .ok { beginning := some beginning, threshold := some .trace }
    else match Threshold.ofName? level with
      | some threshold => .ok { beginning := some beginning, threshold }
      | none => .error (ignored level)
  | _ => .error (ignored text)

end LogRule

structure LogFilter where
  rules : List LogRule := [.everywhere .error]
  pattern : Option Pattern := none

namespace LogFilter

/-- The threshold for a source: that of the closest rule, and of the last one among equals. -/
def threshold (f : LogFilter) (source : String) : Threshold :=
  let closest := f.rules.foldl (fun best r =>
    if r.covers source ∧ best.all (·.closeness ≤ r.closeness) then some r else best) none
  closest.bind (·.threshold)

/-- Whether an event is shown, where `source` is the name of the part it comes from. -/
def shows (f : LogFilter) (source : String) (e : Event) : Bool :=
  match e.level? with
  | some l => (f.threshold source).shows l && f.pattern.all (·.occursIn e.message)
  | none => false

def readRules (text : String) : List LogRule × List String :=
  let parts := (text.splitOn ",").map fun part => String.ofList (trimBlanks part.toList)
  (parts.filter (· ≠ "")).foldl (fun (rules, warnings) part =>
    match LogRule.read part with
    | .ok r => (r.insert rules, warnings)
    | .error w => (rules, warnings ++ w)) ([], [])

/-- The filter of these rules; without any, errors alone are shown. -/
def ofRules (rules : List LogRule) (pattern : Option Pattern) : LogFilter :=
  if rules.isEmpty then { pattern } else { rules, pattern }

/-- A warning about a pattern, of which the report is given. -/
def patternRefused : List String → List String
  | [] => []
  | line :: lines => ("warning: invalid regex filter - " ++ line) :: lines

def read (text : String) : LogFilter × List String :=
  match text.splitOn "/" with
  | [rules] =>
    let (rules, warnings) := readRules rules
    (ofRules rules none, warnings)
  | [rules, pattern] =>
    let (rules, warnings) := readRules rules
    match Pattern.read pattern with
    | .ok p => (ofRules rules (some p), warnings)
    | .error r => (ofRules rules none, warnings ++ patternRefused (r.report pattern))
  | _ => ({}, (LogRule.ignored text).map (· ++ " (too many '/'s)"))

end LogFilter

end Dmg
