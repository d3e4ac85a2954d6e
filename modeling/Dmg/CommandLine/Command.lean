import Dmg.CartridgeFile
import Dmg.Decimal
import Dmg.Handheld

/-! # Running a cartridge from the command line

Everything a command does, as a function of the files it can read: numbers are checked first, then
the cartridge and the boot image, then the machine runs with a serial link to standard output. The
first thing that goes wrong is the failure that is reported, and decides the exit code.

A command takes apart no command line, and lays out neither a log nor a failure: that is the work of
other libraries, which it is given as `Libraries`. -/

namespace Dmg.CommandLine

/-- The texts that a command line has under each name, if it has any. -/
structure Options where
  rom : Option String := none
  boot : Option String := none
  frames : Option String := none
  cycles : Option String := none
deriving DecidableEq

namespace Options

def romPath (o : Options) : String := o.rom.getD ""

def framesText (o : Options) : String := o.frames.getD "60"

end Options

structure Settings where
  rom : String
  boot : Option String
  frames : Nat
  cycles : Option UInt64

/-- What went wrong, and the chain of its causes. -/
structure Failure where
  context : String
  causes : List String := []
deriving DecidableEq

/-- A number in the text of a switch. -/
def number (switch text : String) : Except Failure Nat :=
  (Decimal.parse text).mapError fun e =>
    { context := switch ++ " must be a number", causes := [e.message] }

def Options.settings (o : Options) : Except Failure Settings := do
  let frames ← number "--frames" o.framesText
  let cycles ← o.cycles.mapM (number "--cycles")
  return { rom := o.romPath, boot := o.boot, frames, cycles := cycles.map Nat.toUInt64 }

/-- The failure to load a cartridge; the reason a file cannot be read is a further cause. -/
def loadFailure (path : String) (e : LoadError) : Failure where
  context := "couldn't load cartridge " ++ path
  causes := e.message :: match e with
    | .file reason => [reason.message]
    | .cartridge _ => []

def readBoot (files : Files) : Option String → Except Failure (Option (Array UInt8))
  | none => .ok none
  | some path => match files path with
    | .error e => .error { context := "couldn't read boot ROM " ++ path, causes := [e.message] }
    | .ok image =>
      if image.size = bootSize then .ok (some image)
      else .error { context := "boot ROM " ++ path ++ " is " ++ toString image.size ++
        " bytes, expected " ++ toString bootSize }

def runMachine (keep : Event → Bool) (s : Settings) (m : Machine Empty) (seen : Array Event) :
    Run Empty :=
  match s.cycles with
  | some target => m.runUntil keep target seen
  | none => m.runFrames keep s.frames seen

/-- What a run ends with: the machine's last word, or the failure that stopped it. -/
def conclude (keep : Event → Bool) (run : Run Empty) : Array Event × Option Failure :=
  let { machine := m, events, failure } := run
  match failure with
  | some e =>
    let context := "stopped at cycle " ++ toString m.cycles.toNat
    (events, some { context, causes := [e.message] })
  | none =>
    (events ++ #[.finished m.cycles m.cpu.regs.pc m.cpu.regs.sp m.cpu.regs.af].filter keep, none)

/-- All that becomes visible of what passes `keep`, and the failure if there is one. -/
def perform (keep : Event → Bool) (files : Files) (o : Options) : Array Event × Option Failure :=
  match o.settings with
  | .error e => (#[], some e)
  | .ok settings =>
    match Cartridge.ofFile files settings.rom with
    | (seen, .error e) => (seen.filter keep, some (loadFailure settings.rom e))
    | (seen, .ok cartridge) =>
      match readBoot files settings.boot with
      | .error e => (seen.filter keep, some e)
      | .ok image =>
        let assembly := Machine.handheld cartridge image
        match assembly.machine with
        | .error e => ((seen ++ assembly.events).filter keep, some { context := e.message })
        | .ok machine =>
          let wired := machine.attach (.serial { sink := .unlimited })
          let seen := (seen ++ assembly.events ++ wired.events).filter keep
          conclude keep (runMachine keep settings wired.machine seen)

structure Report where
  exitCode : UInt8
  stdout : Array UInt8
  stderr : List String

def sentBytes (events : Array Event) : Array UInt8 :=
  events.filterMap fun
    | .sent byte => some byte
    | _ => none

/-- What is not the work of a command: what a command line says, unless it is refused; what there is to
say about the settings of the log, and the entry for a record that it shows; and the lines that a failure
is printed in. -/
structure Libraries where
  options? : List String → Option Options
  warnings : List String := []
  entry? : Event → Option String
  display : Failure → List String

namespace Libraries

/-- The entry for an event, if it is a record: bytes that are sent are none, and writes that a spy
sees. -/
def logged (lib : Libraries) (e : Event) : Option String :=
  if e.level?.isSome then lib.entry? e else none

/-- Whether an event is seen on either output. -/
def visible (lib : Libraries) : Event → Bool
  | .sent _ => true
  | e => (lib.logged e).isSome

/-- Run the command of some options: the serial output goes to standard output, the log and a failure
to standard error. -/
def report (lib : Libraries) (files : Files) (o : Options) : Report :=
  let (events, failure) := perform lib.visible files o
  { exitCode := if failure.isNone then 0 else 1
    stdout := sentBytes events
    stderr := lib.warnings ++ events.toList.filterMap lib.logged ++
      (failure.map lib.display).getD [] }

/-- Run a command; none if its command line is refused. -/
def run? (lib : Libraries) (files : Files) (args : List String) : Option Report :=
  (lib.options? args).map (lib.report files)

end Libraries

end Dmg.CommandLine
