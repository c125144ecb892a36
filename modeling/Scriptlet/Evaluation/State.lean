import Scriptlet.Fault
import Scriptlet.Heap

/-! What evaluation works on: the heap, the lines printed so far, and the notices for the log.
Evaluation keeps all of it when it fails. -/

namespace Scriptlet

/-- Events that the log can show. -/
inductive Notice where
  | globalCreated (name : String)
  | shadowed (name : String)
  | applied (closure : String) (count depth : Nat)
deriving DecidableEq, Repr

/-- The part of the program that a notice comes from, and what it says. -/
def Notice.text : Notice → String
  | .globalCreated name =>
    "fwjs.types: assignment to undeclared '" ++ name ++ "' creates a global binding"
  | .shadowed name => "fwjs.types: declaration of '" ++ name ++ "' shadows an outer binding"
  | .applied closure count depth =>
    "fwjs.runtime: apply " ++ closure ++ " with " ++ count.repr ++ " arg(s) at depth " ++
      depth.repr

structure State where
  heap : Heap
  printed : Array String
  notices : Array Notice
deriving Inhabited

/-- No frames, and nothing printed. -/
def State.empty : State := ⟨.empty, #[], #[]⟩

/-- The printed lines as one text. -/
def State.output (s : State) : String := String.join (s.printed.toList.map (· ++ "\n"))

/-- A computation on the state that may fail and keeps the state when it does. -/
abbrev EvalM := EStateM Fault State

/-- What may be shown: a value, a text as it is, or nothing. -/
inductive Shown where
  | value (v : Value)
  | text (words : String)
  | nothing
deriving DecidableEq, Repr

namespace EvalM

def fail {α : Type} (cause : Cause) : EvalM α := throw (.error ⟨cause, none⟩)

def getHeap : EvalM Heap := do return (← get).heap

def modifyHeap (f : Heap → Heap) : EvalM Unit := modify fun s => { s with heap := f s.heap }

def notify (n : Notice) : EvalM Unit := modify fun s => { s with notices := s.notices.push n }

def ofExcept {α : Type} : Except Cause α → EvalM α
  | .ok a => pure a
  | .error cause => fail cause

/-- The text of a value, if its digits are not too many. -/
def textOf (v : Value) : EvalM String := do
  let h ← getHeap
  if v.writable then return h.text v else throw .numberTooLong

/-- The text of something to be shown. Nothing is shown like null. -/
def wordsOf : Shown → EvalM String
  | .value v => textOf v
  | .text words => return words
  | .nothing => return "null"

/-- How a value is named in a message, if its digits are not too many. -/
def describe (v : Value) : EvalM String := do
  let h ← getHeap
  if v.writable then return h.describe v else throw .numberTooLong

/-- Prints a value on a line of its own. -/
def print (v : Value) : EvalM Unit := do
  let line ← textOf v
  modify fun s => { s with printed := s.printed.push line }

/-- Makes a frame and gives its number. -/
def newFrame (parent : Option Nat) (strict : Option Bool) : EvalM Nat :=
  modifyGet fun s =>
    (s.heap.frames.size, { s with heap := s.heap.pushFrame parent strict })

/-- Makes a closure and gives it as a value unlike any other. -/
def newClosure (c : Closure) : EvalM Value :=
  modifyGet fun s =>
    (.closure s.heap.closures.size, { s with heap := s.heap.pushClosure c })

/-- The value of a name, or else the one to be taken instead. Without that an unbound name is an
error. -/
def resolve (f : Nat) (name : String) (instead : Option Value) : EvalM Value := do
  match ((← getHeap).resolve? f name).or instead with
  | some v => return v
  | none => fail (.unboundVariable name)

/-- The value of a name. An unbound name is an error in a strict frame and null in a lax one. -/
def read (f : Nat) (name : String) : EvalM Value := do
  resolve f name (if (← getHeap).strict f then none else some .null)

/-- Binds a new name in a frame. A name that the frame itself binds cannot be declared again. -/
def declare (f : Nat) (name : String) (v : Value) : EvalM Unit := do
  if (← getHeap).binds f name then fail (.duplicateDeclaration name)
  else
    if (← getHeap).shadows f name then notify (.shadowed name)
    modifyHeap (·.put f name v)

/-- Gives a name a value in the frame that binds it, or else in the global frame. -/
def assign (f : Nat) (name : String) (v : Value) : EvalM Unit := do
  if ((← getHeap).owner? f name).isNone then notify (.globalCreated name)
  modifyHeap (·.assign f name v)

/-- Declares names with their values, from left to right. -/
def declareAll (f : Nat) : List (String × Value) → EvalM Unit
  | [] => return
  | (name, v) :: rest => do
    declare f name v
    declareAll f rest

/-- Runs a computation and gives every error without a place the place of an expression. -/
def stamp {α : Type} (pos : Option Position) (x : EvalM α) : EvalM α := fun s =>
  match x s with
  | .ok a s' => .ok a s'
  | .error fault s' => .error (fault.stamp pos) s'

/-- Runs a computation with a frame made strict or lax for its time. -/
def withStrict {α : Type} (f : Nat) (strict : Option Bool) (x : EvalM α) : EvalM α :=
  match strict with
  | none => x
  | some strict => fun s =>
    let before := s.heap.strict f
    let restore (s' : State) : State := { s' with heap := s'.heap.setStrict f before }
    match x { s with heap := s.heap.setStrict f strict } with
    | .ok a s' => .ok a (restore s')
    | .error fault s' => .error fault (restore s')

end EvalM

end Scriptlet
