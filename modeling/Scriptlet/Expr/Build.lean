import Scriptlet.Expr
import Scriptlet.Text.Quoted

/-! Building expressions by hand, from numerals, operator symbols and lists of statements. -/

namespace Scriptlet

/-- Why an expression cannot be built. -/
inductive BuildError where
  | numeralTooLong (digits : Nat)
  | unknownOperator (symbol : String)
  | noStatements
deriving DecidableEq, Repr

def BuildError.message : BuildError → String
  | .numeralTooLong digits => Number.tooManyText digits
  | .unknownOperator symbol => Text.quoted symbol ++ " is not a valid Op"
  | .noStatements => "seq() needs at least one node"

/-- The number that decimal digits stand for, unless they are too many. -/
def Number.ofNumeral (digits : List Char) : Except BuildError Nat :=
  if Number.digitLimit < digits.length then .error (.numeralTooLong digits.length)
  else .ok (Number.ofDigits digits)

/-- The number that decimal digits stand for, behind a minus sign if there is one. -/
def Number.ofSigned : List Char → Except BuildError Int
  | '-' :: digits => (Number.ofNumeral digits).map (- Int.ofNat ·)
  | digits => (Number.ofNumeral digits).map Int.ofNat

/-- The operator that a symbol stands for. -/
def Operator.ofSymbol (symbol : String) : Except BuildError Operator :=
  match Operator.ofSymbol? symbol with
  | some op => .ok op
  | none => .error (.unknownOperator symbol)

/-- The statements of a list, one after another. -/
def Expr.ofStatements (statements : List Expr) : Except BuildError Expr :=
  match Expr.sequence? statements with
  | some e => .ok e
  | none => .error .noStatements

end Scriptlet
