import Dmg.CommandLine.Arguments
import Dmg.LogFilter

/-! # The libraries of the program

Those that the program is run and tested with: the arguments are read by `Options.ofArguments?`, the
log goes by a filter, and the causes of a failure are listed behind it. -/

namespace Dmg.CommandLine

/-- The failure on a terminal. Several causes are numbered. -/
def Failure.lines (f : Failure) : List String :=
  let heading := "Error: " ++ f.context
  match f.causes with
  | [] => [heading]
  | [cause] => [heading, "", "Caused by:", "    " ++ cause]
  | causes =>
    [heading, "", "Caused by:"] ++
      causes.mapIdx fun i cause => "    " ++ toString i ++ ": " ++ cause

/-- What a command writes to its log: a filter, and the names of the sources that its rules go by.
-/
structure LogSettings where
  filter : LogFilter := {}
  name : Source → String := Source.name

namespace LogSettings

def shows (log : LogSettings) (e : Event) : Bool := log.filter.shows (log.name e.source) e

/-- A text whose lines after the first are indented. -/
def hanging (text : String) : String := "\n    ".intercalate (text.splitOn "\n")

def libraries (log : LogSettings) : Libraries where
  options? := Options.ofArguments?
  entry? e := if log.shows e then some (hanging e.logLine) else none
  display := Failure.lines

end LogSettings

/-- Run the command of some options. -/
def report (log : LogSettings) (files : Files) (o : Options) : Report :=
  log.libraries.report files o

end Dmg.CommandLine
