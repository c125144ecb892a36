/-! Line ends of stored text. A carriage return, alone or before a line feed, reads as one
line feed. -/

namespace Scriptlet.Text

/-- A text with every line end written as a line feed. -/
def unifyNewlines : List Char → List Char
  | '\r' :: '\n' :: rest => '\n' :: unifyNewlines rest
  | '\r' :: rest => '\n' :: unifyNewlines rest
  | c :: rest => c :: unifyNewlines rest
  | [] => []

end Scriptlet.Text
