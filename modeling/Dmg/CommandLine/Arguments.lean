import Dmg.CommandLine.Command

/-! # Arguments

The command line names one cartridge image and up to three options, each followed by its value or
joined to it by an equals sign, anywhere before a `--`. -/

namespace Dmg.CommandLine

/-- The options that take a value. -/
inductive Switch where
  | boot | frames | cycles
deriving DecidableEq

/-- A switch from its name without the dashes. -/
def Switch.ofName? (name : List Char) : Option Switch :=
  if name = "boot".toList then some .boot
  else if name = "frames".toList then some .frames
  else if name = "cycles".toList then some .cycles
  else none

/-- The arguments as far as they have been read; a switch may stand there without a value. -/
structure Collected where
  rom : Option String := none
  boot : Option (Option String) := none
  frames : Option (Option String) := none
  cycles : Option (Option String) := none

namespace Collected

def get (c : Collected) : Switch → Option (Option String)
  | .boot => c.boot
  | .frames => c.frames
  | .cycles => c.cycles

def set (c : Collected) (s : Switch) (v : Option String) : Collected :=
  match s with
  | .boot => { c with boot := some v }
  | .frames => { c with frames := some v }
  | .cycles => { c with cycles := some v }

/-- The cartridge image, if it is the only one. -/
def setRom? (c : Collected) (path : String) : Option Collected :=
  if c.rom.isNone then some { c with rom := some path } else none

end Collected

/-- A switch that was given must have a value, unless there is a default. -/
def given? : Option (Option String) → Option (Option String)
  | none => some none
  | some none => none
  | some (some v) => some (some v)

def Collected.toOptions? (c : Collected) : Option Options := do
  return {
    rom := some (← c.rom)
    boot := ← given? c.boot
    frames := some ((c.frames.bind id).getD "60")
    cycles := ← given? c.cycles }

/-- A long argument without its leading dashes, split at its first equals sign. Further equals signs
at the front of the value are dropped with it. -/
def splitLong (arg : List Char) : List Char × Option String :=
  let body := arg.dropWhile (· = '-')
  let name := body.takeWhile (· ≠ '=')
  match body.drop name.length with
  | [] => (name, none)
  | value => (name, some (String.ofList (value.dropWhile (· = '='))))

/-- Read the arguments; `awaiting` is the switch that a plain argument would be the value of, and
`plain` says that a `--` was passed. None is a command line that is not understood. -/
def collect (plain : Bool) (awaiting : Option Switch) : List String → Collected → Option Collected
  | [], c => some c
  | arg :: rest, c =>
    if plain then do collect true awaiting rest (← c.setRom? arg)
    else match arg.toList with
      | ['-', '-'] => collect true awaiting rest c
      | '-' :: '-' :: _ =>
        let (name, value) := splitLong arg.toList
        match Switch.ofName? name with
        | none => none
        | some s =>
          if (c.get s).isSome then none
          else collect false (if value.isNone then some s else none) rest (c.set s value)
      | '-' :: _ :: _ => none
      | _ => match awaiting with
        | some s => collect false none rest (c.set s (some arg))
        | none => do collect false none rest (← c.setRom? arg)

/-- The options a command line asks for; none if it is not understood. -/
def Options.ofArguments? (args : List String) : Option Options :=
  (collect false none args {}).bind Collected.toOptions?

end Dmg.CommandLine
