/-! Upper and lower case, as far as plain letters come out. Both maps serve to compare a text
with a word of plain letters, and a character whose image is no plain letter stays as it is:
no such word has it. -/

namespace Scriptlet.Text

/-- The upper-case form of a character, wherever that is one or more plain letters. -/
def upper (c : Char) : List Char :=
  if c.isLower then [c.toUpper]
  else match c.toNat with
    | 0xdf => ['S', 'S']
    | 0x131 => ['I']
    | 0x17f => ['S']
    | 0xfb00 => ['F', 'F']
    | 0xfb01 => ['F', 'I']
    | 0xfb02 => ['F', 'L']
    | 0xfb03 => ['F', 'F', 'I']
    | 0xfb04 => ['F', 'F', 'L']
    | 0xfb05 | 0xfb06 => ['S', 'T']
    | _ => [c]

/-- The lower-case form of a character, wherever that is a plain letter. -/
def lower (c : Char) : Char :=
  if c.isUpper then c.toLower else if c.toNat = 0x212a then 'k' else c

def upperAll (text : List Char) : List Char := text.flatMap upper

def lowerAll (text : List Char) : List Char := text.map lower

end Scriptlet.Text
