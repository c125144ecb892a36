/-! The ten binary operators: their symbols, and how tightly they bind. -/

namespace Scriptlet

inductive Operator where
  | add
  | sub
  | mul
  | div
  | mod
  | eq
  | ge
  | gt
  | le
  | lt
deriving DecidableEq, Repr

namespace Operator

def all : List Operator := [.add, .sub, .mul, .div, .mod, .eq, .ge, .gt, .le, .lt]

def symbol : Operator → String
  | .add => "+"
  | .sub => "-"
  | .mul => "*"
  | .div => "/"
  | .mod => "%"
  | .eq => "=="
  | .ge => ">="
  | .gt => ">"
  | .le => "<="
  | .lt => "<"

def ofSymbol? (s : String) : Option Operator := all.find? (·.symbol == s)

/-- Products bind tighter than sums, and sums tighter than comparisons. -/
inductive Level where
  | comparison
  | sum
  | product
deriving DecidableEq, Repr

def level : Operator → Level
  | .mul | .div | .mod => .product
  | .add | .sub => .sum
  | .eq | .ge | .gt | .le | .lt => .comparison

theorem ofSymbol?_symbol (op : Operator) : ofSymbol? op.symbol = some op := by
  cases op <;> decide +kernel

end Operator

end Scriptlet
