import Scriptlet.Error
import Scriptlet.Number

/-! Ways in which a program ends without a value. Beside the errors of the language there are
the limits on the digits of numbers, and evaluation that was given up. -/

namespace Scriptlet

/-- An error of the language; a literal with too many digits, and how many they are; a number
with too many digits to be written; or a loop that went round more often than allowed. -/
inductive Fault where
  | error (e : Error)
  | literalTooLong (digits : Nat)
  | numberTooLong
  | unfinished
deriving DecidableEq, Repr

namespace Fault

def message : Fault → String
  | .error e => e.text
  | .literalTooLong digits =>
    "Error trying to process rule \"number\":\n\n" ++ Number.tooManyText digits
  | .numberTooLong => Number.limitText ""
  | .unfinished => "Loop went round too often"

/-- Settles the place of an error that has none. -/
def stamp (pos : Option Position) : Fault → Fault
  | .error e => .error (e.stamp pos)
  | f => f

end Fault

end Scriptlet
