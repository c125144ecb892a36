import Scriptlet.CommandLine

/-! The command line as a program: it looks at the file system, the variables and standard
input, and writes what is reported. -/

namespace Scriptlet.Main

/-- What the file system has at a path. -/
def entryAt (path : Path) : IO Entry := do
  let file := (← IO.currentDir) / path.text
  match ← file.metadata.toBaseIO with
  | .ok found =>
    match found.type with
    | .dir => return .directory
    | _ => return .file (← IO.FS.readBinFile file).toList
  | .error (.noFileOrDirectory ..) | .error (.inappropriateType ..) => return .missing
  | .error (.invalidArgument ..) => return .tooLong
  | .error e => throw e

/-- The entry at the one path that the arguments may name. -/
def namedEntry (args : List String) : IO Entry := do
  match CommandLine.argument? args with
  | .ok (some arg) =>
    match Path.ofText? arg with
    | some path => entryAt path
    | none => return .missing
  | _ => return .missing

partial def readAll (input : IO.FS.Stream) (before : String) : IO String := do
  let line ← input.getLine
  if line.isEmpty then return before else readAll input (before ++ line)

/-- Standard input, read only if the program text comes from it. -/
def standardInput (args : List String) : IO String := do
  match CommandLine.argument? args with
  | .ok none | .ok (some "-") => readAll (← IO.getStdin) ""
  | _ => return ""

def readVariables : IO Settings.Variables := do
  let found ← Settings.names.mapM fun name => do return (name, ← IO.getEnv name)
  return fun name => (found.lookup name).join

/-- The calls that are open where the command line begins. -/
def openCalls : Nat := 2

end Scriptlet.Main

open Scriptlet in
def main (args : List String) : IO UInt32 := do
  let entry ← Main.namedEntry args
  let surroundings : Surroundings :=
    { vars := ← Main.readVariables
      input := ← Main.standardInput args
      lookup := fun _ => entry
      openCalls := some Main.openCalls
      trace := fun _ _ => "" }
  let report := CommandLine.run .standard surroundings args
  IO.print report.output
  IO.eprint report.errors
  match report.ending with
  | .exit code => return code.toUInt32
  | .abort reason =>
    IO.eprintln reason.message
    return 1
