import Scriptlet.Token

/-! Scanning. A text is cut into lexemes, always the longest that fits: tokens, runs of blanks,
and comments that reach to the end of their line. Nothing is lost, so the lexemes written one
after another are the text up to the first character that starts none. -/

namespace Scriptlet

/-- A stretch of text and where it starts. Blanks and comments have no symbol. -/
structure Lexeme where
  symbol : Option Symbol
  text : List Char
  position : Position
deriving DecidableEq, Repr

namespace Lexeme

def isBlank (c : Char) : Bool :=
  c == ' ' || c == '\t' || c == '\x0c' || c == '\r' || c == '\n'

def isNameStart (c : Char) : Bool := c.isAlpha || c == '_' || c == '$'

def isNameRest (c : Char) : Bool := isNameStart c || c.isDigit

/-- What a piece cut off the front of a text is, the piece, and the text behind it. -/
structure Cut where
  symbol : Option Symbol
  text : List Char
  rest : List Char

/-- The longest piece that a character and those that fit behind it make. -/
def run (fits : Char → Bool) (symbol : List Char → Option Symbol) (c : Char) (cs : List Char) :
    Cut :=
  let text := c :: cs.takeWhile fits
  ⟨symbol text, text, cs.dropWhile fits⟩

/-- The piece that starts with a sign. Two signs that belong together are one piece. -/
def sign? : Char → List Char → Option Cut
  | '/', '/' :: cs =>
    some ⟨none, '/' :: '/' :: cs.takeWhile (· ≠ '\n'), cs.dropWhile (· ≠ '\n')⟩
  | '=', '=' :: cs => some ⟨some (.operator .eq), ['=', '='], cs⟩
  | '>', '=' :: cs => some ⟨some (.operator .ge), ['>', '='], cs⟩
  | '<', '=' :: cs => some ⟨some (.operator .le), ['<', '='], cs⟩
  | '=', cs => some ⟨some .assign, ['='], cs⟩
  | '>', cs => some ⟨some (.operator .gt), ['>'], cs⟩
  | '<', cs => some ⟨some (.operator .lt), ['<'], cs⟩
  | '+', cs => some ⟨some (.operator .add), ['+'], cs⟩
  | '-', cs => some ⟨some (.operator .sub), ['-'], cs⟩
  | '*', cs => some ⟨some (.operator .mul), ['*'], cs⟩
  | '/', cs => some ⟨some (.operator .div), ['/'], cs⟩
  | '%', cs => some ⟨some (.operator .mod), ['%'], cs⟩
  | ';', cs => some ⟨some .separator, [';'], cs⟩
  | ',', cs => some ⟨some .comma, [','], cs⟩
  | '(', cs => some ⟨some .openParen, ['('], cs⟩
  | ')', cs => some ⟨some .closeParen, [')'], cs⟩
  | '\x7b', cs => some ⟨some .openBrace, ['\x7b'], cs⟩
  | '\x7d', cs => some ⟨some .closeBrace, ['\x7d'], cs⟩
  | _, _ => none

/-- Cuts the first lexeme off a text, if its first character starts one. -/
def cut? : List Char → Option Cut
  | [] => none
  | c :: cs =>
    if isBlank c then some (run isBlank (fun _ => none) c cs)
    else if isNameStart c then
      some (run isNameRest (fun text => some (.ofWord (String.ofList text))) c cs)
    else if c.isDigit then
      some (run Char.isDigit (fun text => some (.number (String.ofList text))) c cs)
    else sign? c cs

theorem sign?_eq {c : Char} {cs : List Char} {piece : Cut} (h : sign? c cs = some piece) :
    piece.text ++ piece.rest = c :: cs := by
  unfold sign? at h
  split at h <;> cases h <;> simp

/-- Cutting loses nothing. -/
theorem cut?_eq {cs : List Char} {piece : Cut} (h : cut? cs = some piece) :
    piece.text ++ piece.rest = cs := by
  match cs, h with
  | c :: cs, h =>
    simp only [cut?] at h
    split at h
    · cases h; simp [run]
    · split at h
      · cases h; simp [run]
      · split at h
        · cases h; simp [run]
        · exact sign?_eq h

theorem sign?_text_ne_nil {c : Char} {cs : List Char} {piece : Cut}
    (h : sign? c cs = some piece) : piece.text ≠ [] := by
  unfold sign? at h
  split at h <;> cases h <;> simp

/-- No lexeme is empty. -/
theorem cut?_text_ne_nil {cs : List Char} {piece : Cut} (h : cut? cs = some piece) :
    piece.text ≠ [] := by
  match cs, h with
  | c :: cs, h =>
    simp only [cut?] at h
    split at h
    · cases h; simp [run]
    · split at h
      · cases h; simp [run]
      · split at h
        · cases h; simp [run]
        · exact sign?_text_ne_nil h

theorem cut?_rest_length_lt {cs : List Char} {piece : Cut} (h : cut? cs = some piece) :
    piece.rest.length < cs.length := by
  have hpos := List.length_pos_iff.mpr (cut?_text_ne_nil h)
  rw [← cut?_eq h, List.length_append]
  omega

end Lexeme

/-- The lexemes of a text, and the text from the first character that starts none. -/
structure Scan where
  lexemes : List Lexeme
  rest : List Char
deriving Repr

namespace Scan

/-- Scans a text that starts at a position. -/
def run (p : Position) (cs : List Char) : Scan :=
  match _h : Lexeme.cut? cs with
  | none => ⟨[], cs⟩
  | some piece =>
    let scan := Scan.run (p.after piece.text) piece.rest
    ⟨⟨piece.symbol, piece.text, p⟩ :: scan.lexemes, scan.rest⟩
termination_by cs.length
decreasing_by exact Lexeme.cut?_rest_length_lt _h

def ofText (text : List Char) : Scan := Scan.run .start text

/-- The tokens among the lexemes. -/
def tokens (scan : Scan) : List Token :=
  scan.lexemes.filterMap fun l => l.symbol.map (⟨·, l.position⟩)

/-- Where the lexemes end. -/
def stop (scan : Scan) : Position :=
  Position.start.after (scan.lexemes.flatMap Lexeme.text)

end Scan

end Scriptlet
