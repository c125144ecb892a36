import Scriptlet.Position
import Scriptlet.Operator
import Scriptlet.Value

/-! Expressions. Every construct of the language is one and has a value; statements in a
row are nested to the right. A position never counts when two expressions are compared. -/

namespace Scriptlet

/-- An expression, each node with the position where its text starts, if it has one. A
`foreign` node is no expression at all and is known by the name of its type only. -/
inductive Expr where
  | const (pos : Option Position) (value : Value)
  | var (pos : Option Position) (name : String)
  | print (pos : Option Position) (arg : Expr)
  | binary (pos : Option Position) (op : Operator) (left right : Expr)
  | cond (pos : Option Position) (test yes no : Expr)
  | loop (pos : Option Position) (test body : Expr)
  | seq (pos : Option Position) (first second : Expr)
  | declare (pos : Option Position) (name : String) (init : Expr)
  | assign (pos : Option Position) (name : String) (rhs : Expr)
  | func (pos : Option Position) (params : List String) (body : Expr)
  | call (pos : Option Position) (callee : Expr) (args : List Expr)
  | foreign (type : String)
deriving Repr, Inhabited

namespace Expr

/-- What holds of an expression whenever it holds of its parts holds of all. -/
@[induction_eliminator]
theorem inductionOn {motive : Expr → Prop}
    (const : ∀ pos value, motive (.const pos value))
    (var : ∀ pos name, motive (.var pos name))
    (print : ∀ pos arg, motive arg → motive (.print pos arg))
    (binary : ∀ pos op left right, motive left → motive right →
      motive (.binary pos op left right))
    (cond : ∀ pos test yes no, motive test → motive yes → motive no →
      motive (.cond pos test yes no))
    (loop : ∀ pos test body, motive test → motive body → motive (.loop pos test body))
    (seq : ∀ pos first second, motive first → motive second → motive (.seq pos first second))
    (declare : ∀ pos name init, motive init → motive (.declare pos name init))
    (assign : ∀ pos name rhs, motive rhs → motive (.assign pos name rhs))
    (func : ∀ pos params body, motive body → motive (.func pos params body))
    (call : ∀ pos callee args, motive callee → (∀ arg ∈ args, motive arg) →
      motive (.call pos callee args))
    (foreign : ∀ type, motive (.foreign type)) (e : Expr) : motive e := by
  refine @Expr.rec motive (fun args => ∀ arg ∈ args, motive arg) const var print binary cond
    loop seq declare assign func call foreign ?_ ?_ e
  · intro arg h
    cases h
  · intro head tail hhead htail arg h
    rcases List.mem_cons.mp h with rfl | h
    · exact hhead
    · exact htail arg h

def pos : Expr → Option Position
  | .const p _ | .var p _ | .print p _ | .binary p .. | .cond p .. | .loop p .. | .seq p ..
  | .declare p .. | .assign p .. | .func p .. | .call p .. => p
  | .foreign _ => none

/-- Statements in a row, nested to the right. One statement stands for itself. -/
def sequence (first : Expr) : List Expr → Expr
  | [] => first
  | second :: rest => .seq none first (sequence second rest)

/-- The value of a list of statements, or nothing for none. -/
def sequence? : List Expr → Option Expr
  | [] => none
  | first :: rest => some (sequence first rest)

mutual

/-- Equality up to positions. -/
def alike : Expr → Expr → Bool
  | .const _ v, .const _ w => v == w
  | .var _ x, .var _ y => x == y
  | .print _ a, .print _ b => a.alike b
  | .binary _ o a b, .binary _ o' a' b' => o == o' && a.alike a' && b.alike b'
  | .cond _ a b c, .cond _ a' b' c' => a.alike a' && b.alike b' && c.alike c'
  | .loop _ a b, .loop _ a' b' => a.alike a' && b.alike b'
  | .seq _ a b, .seq _ a' b' => a.alike a' && b.alike b'
  | .declare _ x a, .declare _ y b => x == y && a.alike b
  | .assign _ x a, .assign _ y b => x == y && a.alike b
  | .func _ xs a, .func _ ys b => xs == ys && a.alike b
  | .call _ a as, .call _ b bs => a.alike b && alikeAll as bs
  | .foreign s, .foreign t => s == t
  | _, _ => false

def alikeAll : List Expr → List Expr → Bool
  | [], [] => true
  | a :: as, b :: bs => a.alike b && alikeAll as bs
  | _, _ => false

end

end Expr

end Scriptlet
