import Dmg.CommandLine.Report

/-! # The program

Reads the files the command line names, runs the command, and hands its report to the system. The
environment variable `DMG_LOG` says what the log shows. -/

namespace Dmg.CommandLine

/-- The reason for a failure to read a file. The system's code for it comes with either sign. -/
def fileError (e : IO.Error) : FileError :=
  match e with
  | .noFileOrDirectory .. => .notFound
  | .inappropriateType _ code _ => if code = 20 ∨ -code = 20 then .notDirectory else .isDirectory
  | .invalidArgument _ code _ =>
    if code = 36 ∨ -code = 36 then .nameTooLong else .other (toString e)
  | e => .other (toString e)

/-- A file as a command sees it. -/
def readFile (path : String) : IO (Except FileError (Array UInt8)) :=
  try
    return .ok (← IO.FS.readBinFile path).data
  catch e => return .error (fileError e)

/-- Run the command of some options. -/
def runOptions (lib : Libraries) (o : Options) : IO UInt32 := do
  let rom ← readFile o.romPath
  let boot ← o.boot.mapM fun path => return (path, ← readFile path)
  let files : Files := fun path =>
    match boot with
    | some (bootPath, contents) => if path = bootPath ∧ path ≠ o.romPath then contents else rom
    | none => rom
  let report := lib.report files o
  (← IO.getStdout).write ⟨report.stdout⟩
  (← IO.getStdout).flush
  report.stderr.forM IO.eprintln
  return report.exitCode.toUInt32

end Dmg.CommandLine

open Dmg Dmg.CommandLine in
def main (args : List String) : IO UInt32 := do
  let (filter, warnings) := LogFilter.read ((← IO.getEnv "DMG_LOG").getD "")
  let lib := { LogSettings.libraries { filter } with warnings }
  match lib.options? args with
  | some o => runOptions lib o
  | none =>
    (warnings ++ ["usage: dmg [--boot IMAGE] [--frames N] [--cycles N] ROM"]).forM IO.eprintln
    return 1
