import Dmg.Pattern.Machine
import Dmg.Pattern.Meaning
import Dmg.Pattern.Reader
import Dmg.Pattern.Words

/-! # Patterns from texts

From a text to a pattern (`Pattern.read`), or to what is said about a text that is refused. -/

namespace Dmg

namespace Pattern

/-- Why there is no pattern for a text: a part of it is wrong, its machine would take too much space,
or it asks for the words of Unicode. -/
inductive Refusal where
  | error (e : PatternError)
  | tooLarge
  | noWordTable
deriving DecidableEq

def Refusal.report (text : String) : Refusal → List String
  | error e => e.report text
  | tooLarge => ["Compiled regex exceeds size limit of " ++ toString largestMachine ++ " bytes."]
  | noWordTable => ["error building NFA"]

/-- An expression that does not lie too deep in itself. -/
def checkDepth (e : PatternExpr) : Except PatternError PatternExpr :=
  match e.tooDeep? 0 with
  | some span => .error { fault := .tooDeep, span }
  | none => .ok e

/-- A pattern with machines, which words need not have. The one that reads forward is built first. -/
def checkMachines (p : Pattern) : Except Refusal Pattern :=
  if !(p.fits .forward || p.isWords) then .error .tooLarge
  else if p.needsWordTable then .error .noWordTable
  else if !(p.fits .backward || p.isWords) then .error .tooLarge
  else .ok p

def ofExpr (e : PatternExpr) : Except PatternError Pattern :=
  return (← (← checkDepth e).meaning {}).1

def read (text : String) : Except Refusal Pattern :=
  match PatternExpr.read text >>= ofExpr with
  | .error e => .error (.error e)
  | .ok p => checkMachines p

end Pattern

end Dmg
