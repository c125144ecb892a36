import Scriptlet.Number
import Scriptlet.Text.Blank
import Scriptlet.Text.Casing
import Scriptlet.Text.Digit

/-! Settings, read from named variables. White space around a value never counts. -/

namespace Scriptlet.Settings

/-- The variables that are set, and their values. -/
abbrev Variables := String → Option String

/-- The words that switch a flag on, in any case. -/
def onWords : List String := ["1", "true", "yes", "on"]

/-- A flag is on if its variable is one of the words for it; `default` holds if it is not set. -/
def flag (vars : Variables) (name : String) (default : Bool) : Bool :=
  match vars name with
  | none => default
  | some raw => onWords.contains (String.ofList (Text.lowerAll (Text.trim raw.toList)))

/-- Digits of any script behind a first one, each with at most one underscore before it. -/
def moreDigits? : List Char → Option (List Nat)
  | [] => some []
  | '_' :: c :: rest => do
    let d ← Text.digitValue? c
    let ds ← moreDigits? rest
    return d :: ds
  | c :: rest => do
    let d ← Text.digitValue? c
    let ds ← moreDigits? rest
    return d :: ds

/-- The number that digits of any script stand for, unless they are too many. -/
def natural? : List Char → Option Nat
  | [] => none
  | c :: rest => do
    let d ← Text.digitValue? c
    let ds ← moreDigits? rest
    if (d :: ds).length ≤ Number.digitLimit then
      return (d :: ds).foldl (fun n d => 10 * n + d) 0
    else none

/-- The number that digits with an optional sign stand for. -/
def signed? : List Char → Option Int
  | '+' :: rest => (natural? rest).map Int.ofNat
  | '-' :: rest => (natural? rest).map (- Int.ofNat ·)
  | text => (natural? text).map Int.ofNat

/-- The number in a variable, if it is set to one. -/
def integer? (vars : Variables) (name : String) : Option Int :=
  (vars name).bind fun raw => signed? (Text.trim raw.toList)

def strictName : String := "FWJS_STRICT_UNBOUND"

def traceName : String := "FWJS_DEBUG_PY_TRACE"

def recursionName : String := "FWJS_RECURSION_LIMIT"

def logName : String := "FWJS_LOG_LEVEL"

/-- The variables that are looked at. -/
def names : List String := [strictName, traceName, recursionName, logName]

/-- Whether reading an unbound name is an error. -/
def strictUnbound (vars : Variables) : Bool := flag vars strictName false

/-- Whether a program is run strictly: as it is asked for, or else as the variable says. -/
def strictFor (vars : Variables) (asked : Option Bool) : Bool := asked.getD (strictUnbound vars)

/-- Whether errors are reported with a trace. -/
def traceErrors (vars : Variables) : Bool := flag vars traceName false

def recursionLimit? (vars : Variables) : Option Int := integer? vars recursionName

/-- Why a recursion limit is not taken. -/
inductive LimitFault where
  | outOfRange
  | belowOne
  | tooLow (limit : Int) (calls : Nat)
deriving DecidableEq, Repr

def LimitFault.message : LimitFault → String
  | .outOfRange => "Python int too large to convert to C int"
  | .belowOne => "recursion limit must be greater or equal than 1"
  | .tooLow limit calls =>
    "cannot set the recursion limit to " ++ Number.text limit ++ " at the recursion depth " ++
      calls.repr ++ ": the limit is too low"

/-- What stands against a recursion limit where so many calls are open. A limit is a positive
number of 32 bits with a sign, and leaves room for one more call. -/
def limitFault? (calls : Nat) (limit : Int) : Option LimitFault :=
  if limit < -0x80000000 ∨ 0x7fffffff < limit then some .outOfRange
  else if limit < 1 then some .belowOne
  else if limit ≤ calls then some (.tooLow limit calls)
  else none

/-- The levels of the log by name. -/
def levels : List (String × Nat) :=
  [("CRITICAL", 50), ("FATAL", 50), ("ERROR", 40), ("WARNING", 30), ("WARN", 30), ("INFO", 20),
    ("DEBUG", 10), ("NOTSET", 0)]

/-- The level of a log that shows warnings. -/
def warningLevel : Nat := 30

/-- The level of the log. A name is taken in any case, and all else means warnings. -/
def logLevel (vars : Variables) : Nat :=
  match vars logName with
  | none => warningLevel
  | some raw =>
    (levels.lookup (String.ofList (Text.upperAll (Text.trim raw.toList)))).getD warningLevel

/-- Whether the log shows notices. -/
def showsNotices (vars : Variables) : Bool := logLevel vars ≤ 10

end Scriptlet.Settings
