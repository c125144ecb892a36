import Scriptlet.Evaluation
import Scriptlet.Reading
import Scriptlet.Token.Scan

/-! Programs as text. A text is scanned and read from left to right, so that its first problem
decides; only a text that is read to its end is searched for parameters that repeat and for
literals that are too long. -/

namespace Scriptlet.Program

def malformed {α : Type} (what : Malformed) (p : Position) : Except Fault α :=
  .error (.error (.ofMalformed what (.ofPosition p)))

/-- Reads the tokens of a text as one expression. -/
def read (scan : Scan) : Except Fault Expr :=
  let tokens := scan.tokens
  match Reading.start.readAll tokens, scan.rest with
  | .error t, _ => malformed (.unexpectedToken t.symbol.text) t.position
  | .ok _, c :: _ => malformed (.unexpectedCharacter c) scan.stop
  | .ok r, [] =>
    match r.finish? with
    | some done => .ok (Reading.block (tokens.head?.map Token.position) done)
    | none => malformed .unexpectedEnd ((tokens.getLast?.map Token.position).getD .start)

/-- The first name of a list that stands earlier in it, or among those seen before. -/
def firstRepeated (seen : List String) : List String → Option String
  | [] => none
  | name :: rest => if seen.contains name then some name else firstRepeated (name :: seen) rest

/-- The parameters of the function whose `function` stands before the tokens. -/
def parameters (tokens : List Token) : List (String × Position) :=
  ((tokens.dropWhile (·.symbol ≠ .openParen)).takeWhile (·.symbol ≠ .closeParen)).filterMap
    fun t => match t.symbol with
      | .name name => some (name, t.position)
      | _ => none

/-- The fault of a parameter list that repeats a name, at its first parameter. -/
def parameterFault? (params : List (String × Position)) : Option Fault :=
  match params, firstRepeated [] (params.map Prod.fst) with
  | (_, p) :: _, some name =>
    some (.error (.ofMalformed (.duplicateParameter name) (.ofPosition p)))
  | _, _ => none

/-- The first parameter list that repeats a name, or literal with too many digits. -/
def firstFault? : List Token → Option Fault
  | [] => none
  | t :: rest =>
    let fault : Option Fault := match t.symbol with
      | .number digits =>
        if Number.digitLimit < digits.length then some (.literalTooLong digits.length) else none
      | .keyword .function => parameterFault? (parameters rest)
      | _ => none
    fault.or (firstFault? rest)

/-- The expression that a program text stands for. -/
def parse (source : String) : Except Fault Expr := do
  let scan := Scan.ofText source.toList
  let e ← read scan
  match firstFault? scan.tokens with
  | some fault => .error fault
  | none => .ok e

def parseM (source : String) : EvalM Expr :=
  match parse source with
  | .ok e => return e
  | .error fault => throw fault

/-- Runs a program text in a frame of the heap. The text is read before anything else. -/
def runIn (limits : Limits) (f : Nat) (strict : Option Bool) (source : String) : EvalM Value := do
  let e ← parseM source
  limits.evalIn f strict e

/-- Runs a program text in a new global frame. -/
def runFresh (limits : Limits) (strict : Bool) (source : String) : EvalM Value := do
  let e ← parseM source
  limits.evalFresh strict e

end Scriptlet.Program
