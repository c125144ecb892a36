import Scriptlet.Directory
import Scriptlet.Program
import Scriptlet.Settings
import Scriptlet.Text.Encoding
import Scriptlet.Text.Newline

/-! The command line. Its one argument is a path, a program text, or a dash for standard input;
what the program prints and its value go to the output, errors and the log to the error output. -/

namespace Scriptlet

/-- What the command line can look at. -/
structure Surroundings where
  vars : Settings.Variables
  input : String
  lookup : Path → Entry
  /-- How many calls are open. Where they are not counted every recursion limit is taken. -/
  openCalls : Option Nat
  /-- The trace that leads to an error of a program text. -/
  trace : String → Error → String

/-- What stands against the recursion limit that the variables ask for. -/
def Surroundings.limitFault? (s : Surroundings) : Option Settings.LimitFault := do
  Settings.limitFault? (← s.openCalls) (← Settings.recursionLimit? s.vars)

namespace CommandLine

/-- Ends that are no result of a program. -/
inductive Abort where
  | unexpectedArgument (arg : String)
  | limitRefused (fault : Settings.LimitFault)
  | noInput
  | isDirectory (path : Path)
  | nameTooLong (path : Path)
  | unreadable (fault : Text.EncodingFault)
  | fault (fault : Fault)
deriving DecidableEq, Repr

def Abort.message : Abort → String
  | .unexpectedArgument arg => "Unexpected argument: " ++ arg
  | .limitRefused e => e.message
  | .noInput => "No input provided on stdin"
  | .isDirectory path => "[Errno 21] Is a directory: " ++ Text.quoted path.text
  | .nameTooLong path => "[Errno 36] File name too long: " ++ Text.quoted path.text
  | .unreadable e => e.message
  | .fault f => f.message

inductive Ending where
  | exit (code : Nat)
  | abort (reason : Abort)
deriving DecidableEq, Repr

/-- How a call of the command line ends, what it writes, and the recursion limit it asks for. -/
structure Report where
  ending : Ending
  output : String
  errors : String
  recursionLimit : Option Int
deriving DecidableEq, Repr

def strictOption : String := "--strict"

/-- What the options ask for: there is one for strictness, and none against it. -/
def strictness? (args : List String) : Option Bool :=
  if args.contains strictOption then some true else none

/-- The argument among the options, of which there is at most one. -/
def argument? (args : List String) : Except Abort (Option String) :=
  match args.filter (· ≠ strictOption) with
  | [] => .ok none
  | [arg] => .ok (some arg)
  | _ :: extra :: _ => .error (.unexpectedArgument extra)

/-- A program text that was stored: its line ends are unified. -/
def storedText (text : List Char) : String := String.ofList (Text.unifyNewlines text)

/-- The program text from standard input, which must not be empty. -/
def inputSource (s : Surroundings) : Except Abort String :=
  if s.input = "" then .error .noInput else .ok (storedText s.input.toList)

/-- The program text that an argument stands for: the text of the file it names, or else
itself. -/
def argumentSource (s : Surroundings) (arg : String) : Except Abort String :=
  match Path.ofText? arg with
  | none => .ok arg
  | some path =>
    match s.lookup path with
    | .missing => .ok arg
    | .tooLong => .error (.nameTooLong path)
    | .directory => .error (.isDirectory path)
    | .file bytes =>
      match Text.decode bytes with
      | .ok text => .ok (storedText text)
      | .error fault => .error (.unreadable fault)

/-- Without an argument, or with a dash, the program text comes from standard input. -/
def source (s : Surroundings) : Option String → Except Abort String
  | none | some "-" => inputSource s
  | some arg => argumentSource s arg

/-- The lines of the log, if it shows notices. -/
def logText (vars : Settings.Variables) (lines : List String) : String :=
  if Settings.showsNotices vars then String.join (lines.map ("DEBUG " ++ · ++ "\n")) else ""

/-- What is said about an error of the program, with the trace if it is asked for. -/
def errorText (vars : Settings.Variables) (trace : Error → String) (e : Error) : String :=
  logText vars ["fwjs.runner: run failed with " ++ e.kind.name] ++
    (if Settings.traceErrors vars then trace e else "") ++
    "error[" ++ e.kind.name ++ "]: " ++ e.text ++ "\n"

/-- The notices that evaluation left. -/
def noticeText (vars : Settings.Variables) (s : State) : String :=
  logText vars (s.notices.toList.map Notice.text)

/-- What is reported about a program that has run. -/
def ofRun (vars : Settings.Variables) (trace : Error → String) (limit : Option Int) :
    EStateM.Result Fault State Value → Report
  | .ok v s =>
    if v.writable then ⟨.exit 0, s.output ++ s.heap.text v ++ "\n", noticeText vars s, limit⟩
    else ⟨.abort (.fault .numberTooLong), s.output, noticeText vars s, limit⟩
  | .error (.error e) s => ⟨.exit 1, s.output, noticeText vars s ++ errorText vars trace e, limit⟩
  | .error f s => ⟨.abort (.fault f), s.output, noticeText vars s, limit⟩

/-- Calls the command line with arguments. The recursion limit is settled before the program
text is looked for. -/
def run (limits : Limits) (s : Surroundings) (args : List String) : Report :=
  match argument? args with
  | .error reason => ⟨.abort reason, "", "", none⟩
  | .ok arg =>
    let limit := Settings.recursionLimit? s.vars
    match s.limitFault? with
    | some fault => ⟨.abort (.limitRefused fault), "", "", limit⟩
    | none =>
      match source s arg with
      | .error reason => ⟨.abort reason, "", "", limit⟩
      | .ok text =>
        let strict := Settings.strictFor s.vars (strictness? args)
        ofRun s.vars (s.trace text) limit (Program.runFresh limits strict text .empty)

end CommandLine

end Scriptlet
