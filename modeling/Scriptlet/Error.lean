import Scriptlet.Operator
import Scriptlet.Position
import Scriptlet.Text.Quoted

/-! Errors of the language. An error has a cause, which decides its kind and its message, and
at most one place, which is settled once. -/

namespace Scriptlet

/-- The constructs that ask for a condition. -/
inductive Conditional where
  | branch
  | loop
deriving DecidableEq, Repr

def Conditional.keyword : Conditional → String
  | .branch => "if"
  | .loop => "while"

/-- What is wrong with a text that is no program. -/
inductive Malformed where
  | unexpectedToken (text : String)
  | unexpectedCharacter (c : Char)
  | unexpectedEnd
  | duplicateParameter (name : String)
  | described (message : String)
deriving DecidableEq, Repr

def Malformed.message : Malformed → String
  | .unexpectedToken text => "Unexpected token " ++ Text.quoted text
  | .unexpectedCharacter c => "Unexpected character " ++ Text.quoted c.toString
  | .unexpectedEnd => "Unexpected end of input"
  | .duplicateParameter name => "Duplicate parameter '" ++ name ++ "'"
  | .described message => message

/-- The kinds that errors are told apart by. -/
inductive Kind where
  | runtime
  | duplicateDeclaration
  | invalidCondition
  | notCallable
  | arityMismatch
  | unboundVariable
  | typeMismatch
  | divisionByZero
  | recursionDepth
  | malformed
deriving DecidableEq, Repr

def Kind.name : Kind → String
  | .runtime => "runtime"
  | .duplicateDeclaration => "duplicate-declaration"
  | .invalidCondition => "invalid-condition"
  | .notCallable => "not-callable"
  | .arityMismatch => "arity-mismatch"
  | .unboundVariable => "unbound-variable"
  | .typeMismatch => "type-mismatch"
  | .divisionByZero => "division-by-zero"
  | .recursionDepth => "recursion-depth"
  | .malformed => "syntax"

/-- Causes of errors. A value at fault is held by its description. -/
inductive Cause where
  | described (message : String)
  | unknownNode (type : String)
  | duplicateDeclaration (name : String)
  | invalidCondition (construct : Conditional) (got : String)
  | notCallable (got : String)
  | arityMismatch (expected got : Nat)
  | unboundVariable (name : String)
  | typeMismatch (op : Operator) (got : String)
  | divisionByZero
  | moduloByZero
  | depthExceeded
  | malformed (what : Malformed)
deriving DecidableEq, Repr

namespace Cause

def kind : Cause → Kind
  | .described _ | .unknownNode _ => .runtime
  | .duplicateDeclaration _ => .duplicateDeclaration
  | .invalidCondition .. => .invalidCondition
  | .notCallable _ => .notCallable
  | .arityMismatch .. => .arityMismatch
  | .unboundVariable _ => .unboundVariable
  | .typeMismatch .. => .typeMismatch
  | .divisionByZero | .moduloByZero => .divisionByZero
  | .depthExceeded => .recursionDepth
  | .malformed _ => .malformed

def message : Cause → String
  | .described message => message
  | .unknownNode type => "Unknown node: " ++ type
  | .duplicateDeclaration name => "Variable '" ++ name ++ "' already declared in this scope"
  | .invalidCondition construct got =>
    construct.keyword ++ " condition must be a boolean; got " ++ got
  | .notCallable got => got ++ " is not callable"
  | .arityMismatch expected got => s!"Function expects {expected} args; got {got}"
  | .unboundVariable name => "Name '" ++ name ++ "' not found"
  | .typeMismatch op got => "Operator '" ++ op.symbol ++ "' expects numbers; got " ++ got
  | .divisionByZero => "Division by zero"
  | .moduloByZero => "Modulo by zero"
  | .depthExceeded => "Maximum evaluation depth exceeded"
  | .malformed what => what.message

end Cause

structure Error where
  cause : Cause
  place : Option Place
deriving DecidableEq, Repr

namespace Error

def kind (e : Error) : Kind := e.cause.kind

/-- The message, with the place behind it if there is one. -/
def text (e : Error) : String :=
  e.cause.message ++ match e.place with
    | some place => place.suffix
    | none => ""

/-- Settles the place of an error that has none. Running too deep is no fault of the
expression where it shows, so that error keeps no place. -/
def stamp (e : Error) (pos : Option Position) : Error :=
  if e.place.isNone && e.cause ≠ .depthExceeded then ⟨e.cause, pos.map .ofPosition⟩ else e

/-- An error in a program text. A place without a line is dropped. -/
def ofMalformed (what : Malformed) (place : Place) : Error :=
  ⟨.malformed what, if place.line.isSome then some place else none⟩

end Error

end Scriptlet
