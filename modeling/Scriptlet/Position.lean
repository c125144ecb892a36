/-! Lines and columns. A line ends at a line feed only, and a column counts code points,
so that every other control character is one column wide. -/

namespace Scriptlet

/-- A line and a column, both counted from one. -/
structure Position where
  line : Nat
  column : Nat
deriving DecidableEq, Repr

namespace Position

/-- Where a text starts. -/
def start : Position := ⟨1, 1⟩

/-- The position behind one character. -/
def next (p : Position) (c : Char) : Position :=
  if c = '\n' then ⟨p.line + 1, 1⟩ else ⟨p.line, p.column + 1⟩

/-- The position behind a stretch of text. -/
def after (p : Position) (text : List Char) : Position :=
  text.foldl next p

@[simp] theorem after_nil (p : Position) : p.after [] = p := rfl

@[simp] theorem after_cons (p : Position) (c : Char) (text : List Char) :
    p.after (c :: text) = (p.next c).after text := rfl

theorem after_append (p : Position) (s t : List Char) :
    p.after (s ++ t) = (p.after s).after t := by
  simp [after, List.foldl_append]

end Position

/-- Where an error is reported. The line, the column or both may be unknown. -/
structure Place where
  line : Option Nat
  column : Option Nat
deriving DecidableEq, Repr

namespace Place

/-- The place of a known position. -/
def ofPosition (p : Position) : Place := ⟨some p.line, some p.column⟩

/-- The text behind a message. A column without its line says nothing. -/
def suffix : Place → String
  | ⟨some line, some column⟩ => s!" (line {line}, col {column})"
  | ⟨some line, none⟩ => s!" (line {line})"
  | ⟨none, _⟩ => ""

end Place

end Scriptlet
