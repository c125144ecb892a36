import Scriptlet.Expr
import Scriptlet.Error

/-! The heap: frames that bind names to values, and closures that captured a frame. Both are
numbered in the order in which they were made, and neither is ever taken away. A frame's chain
runs from the frame outward to its global frame; every search goes along it. -/

namespace Scriptlet

/-- One scope. Its variables stand in the order in which they were made. -/
structure Frame where
  parent : Option Nat
  strict : Bool
  vars : List (String × Value)
deriving DecidableEq, Repr

namespace Frame

def names (f : Frame) : List String := f.vars.map Prod.fst

def get? (f : Frame) (name : String) : Option Value := f.vars.lookup name

def binds (f : Frame) (name : String) : Bool := f.names.contains name

/-- Gives a name a value. A name that is bound keeps its place, a new one goes last. -/
def put (f : Frame) (name : String) (value : Value) : Frame :=
  if f.binds name then
    { f with vars := f.vars.map fun var => if var.1 = name then (name, value) else var }
  else { f with vars := f.vars ++ [(name, value)] }

end Frame

/-- A function together with the frame in which it was made. -/
structure Closure where
  params : List String
  body : Expr
  frame : Nat
deriving Repr, Inhabited

/-- The text of a closure shows its parameters and hides its body. -/
def Closure.text (c : Closure) : String :=
  "function(" ++ ", ".intercalate c.params ++ ") \x7b...\x7d"

structure Heap where
  frames : Array Frame
  closures : Array Closure
deriving Repr, Inhabited

namespace Heap

def empty : Heap := ⟨#[], #[]⟩

def parent? (h : Heap) (f : Nat) : Option Nat := h.frames[f]?.bind Frame.parent

/-- The frames from `f` outward. A frame hangs only under frames made before it. -/
def chain (h : Heap) (f : Nat) : List Nat :=
  match h.parent? f with
  | some p => if p < f then f :: h.chain p else [f]
  | none => [f]
termination_by f

/-- How many frames are around a frame. -/
def depth (h : Heap) (f : Nat) : Nat := (h.chain f).length - 1

/-- The outermost frame around a frame. -/
def global (h : Heap) (f : Nat) : Nat := (h.chain f).getLastD f

/-- The variables that a frame itself binds. -/
def vars (h : Heap) (f : Nat) : List (String × Value) := (h.frames[f]?.map Frame.vars).getD []

def binds (h : Heap) (f : Nat) (name : String) : Bool := h.frames[f]?.any (·.binds name)

/-- The value of a name in that very frame. -/
def get? (h : Heap) (f : Nat) (name : String) : Option Value := h.frames[f]?.bind (·.get? name)

/-- The nearest frame that binds a name. -/
def owner? (h : Heap) (f : Nat) (name : String) : Option Nat :=
  (h.chain f).find? (h.binds · name)

/-- The value of a name as seen from a frame. -/
def resolve? (h : Heap) (f : Nat) (name : String) : Option Value :=
  (h.owner? f name).bind (h.get? · name)

/-- Whether reading an unbound name is an error in a frame. -/
def strict (h : Heap) (f : Nat) : Bool := h.frames[f]?.any Frame.strict

def setStrict (h : Heap) (f : Nat) (strict : Bool) : Heap :=
  { h with frames := h.frames.modify f fun frame => { frame with strict } }

/-- A new frame without variables. Unless told otherwise it is as strict as its parent is at
this moment, and lax if it has none. -/
def pushFrame (h : Heap) (parent : Option Nat) (strict : Option Bool) : Heap :=
  let inherited := parent.any h.strict
  { h with frames := h.frames.push ⟨parent, strict.getD inherited, []⟩ }

def pushClosure (h : Heap) (c : Closure) : Heap :=
  { h with closures := h.closures.push c }

def put (h : Heap) (f : Nat) (name : String) (value : Value) : Heap :=
  { h with frames := h.frames.modify f (·.put name value) }

/-- The closure that a value is. -/
def closure? (h : Heap) : Value → Option Closure
  | .closure id => h.closures[id]?
  | _ => none

/-- Whether a frame outside of `f` binds a name. -/
def shadows (h : Heap) (f : Nat) (name : String) : Bool :=
  (h.chain f).tail.any (h.binds · name)

/-- Gives the nearest binding of a name a new value. A name that is bound nowhere becomes a
variable of the global frame. -/
def assign (h : Heap) (f : Nat) (name : String) (value : Value) : Heap :=
  h.put ((h.owner? f name).getD (h.global f)) name value

/-- The text of a value. -/
def text (h : Heap) : Value → String
  | .number n => Number.text n
  | .bool b => if b then "true" else "false"
  | .null => "null"
  | .closure id => (h.closures[id]?.map Closure.text).getD ""

/-- How a value is named in a message. -/
def describe (h : Heap) (v : Value) : String := v.typeName ++ " " ++ h.text v

/-- The text of a frame: its depth and the names it binds. -/
def frameText (h : Heap) (f : Nat) : String :=
  "<Environment depth=" ++ (h.depth f).repr ++ " vars=[" ++
    ", ".intercalate ((h.vars f).map Prod.fst) ++ "]>"

end Heap

end Scriptlet
