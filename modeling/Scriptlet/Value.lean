import Scriptlet.Number

/-! Values. A closure is known by its place in the heap, so two closures are equal only
when one evaluation made both. -/

namespace Scriptlet

inductive Value where
  | number (n : Int)
  | bool (b : Bool)
  | null
  | closure (id : Nat)
deriving DecidableEq, Repr

namespace Value

/-- The name of a value's type in messages. -/
def typeName : Value → String
  | .number _ => "FwNumber"
  | .bool _ => "FwBool"
  | .null => "FwNull"
  | .closure _ => "FwClosure"

/-- Whether the value has a text: only numbers with too many digits have none. -/
def writable : Value → Bool
  | .number n => Number.writable n
  | _ => true

end Value

end Scriptlet
