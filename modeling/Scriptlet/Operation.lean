import Scriptlet.Heap

/-! What the operators compute. Equality holds between any two values and never fails; every
other operator wants two numbers and looks at the left one first. -/

namespace Scriptlet

def quotient (a b : Int) : Except Cause Int :=
  match Number.quotient? a b with
  | some q => .ok q
  | none => .error .divisionByZero

def remainder (a b : Int) : Except Cause Int :=
  match Number.remainder? a b with
  | some r => .ok r
  | none => .error .moduloByZero

namespace Operator

/-- The result of an operator on two numbers. -/
def onNumbers (op : Operator) (a b : Int) : Except Cause Value :=
  match op with
  | .add => .ok (.number (a + b))
  | .sub => .ok (.number (a - b))
  | .mul => .ok (.number (a * b))
  | .div => (quotient a b).map .number
  | .mod => (remainder a b).map .number
  | .eq => .ok (.bool (a = b))
  | .ge => .ok (.bool (a ≥ b))
  | .gt => .ok (.bool (a > b))
  | .le => .ok (.bool (a ≤ b))
  | .lt => .ok (.bool (a < b))

/-- The number that an operator takes from an operand. -/
def number (h : Heap) (op : Operator) : Value → Except Cause Int
  | .number n => .ok n
  | v => .error (.typeMismatch op (h.describe v))

/-- The result of an operator on two values. -/
def apply (h : Heap) (op : Operator) (left right : Value) : Except Cause Value :=
  if op = .eq then .ok (.bool (left = right))
  else do
    let a ← op.number h left
    let b ← op.number h right
    op.onNumbers a b

end Operator

end Scriptlet
