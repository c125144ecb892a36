import Scriptlet.Operator
import Scriptlet.Position

/-! Tokens: the symbols that programs are written in, each with its position. -/

namespace Scriptlet

inductive Keyword where
  | var
  | ifWord
  | elseWord
  | whileWord
  | function
  | print
  | trueWord
  | falseWord
  | null
deriving DecidableEq, Repr

namespace Keyword

def all : List Keyword :=
  [.var, .ifWord, .elseWord, .whileWord, .function, .print, .trueWord, .falseWord, .null]

def text : Keyword → String
  | .var => "var"
  | .ifWord => "if"
  | .elseWord => "else"
  | .whileWord => "while"
  | .function => "function"
  | .print => "print"
  | .trueWord => "true"
  | .falseWord => "false"
  | .null => "null"

def ofText? (s : String) : Option Keyword := all.find? (·.text == s)

theorem ofText?_text (k : Keyword) : ofText? k.text = some k := by
  cases k <;> decide +kernel

end Keyword

inductive Symbol where
  | number (digits : String)
  | name (text : String)
  | keyword (k : Keyword)
  | operator (op : Operator)
  | assign
  | separator
  | comma
  | openParen
  | closeParen
  | openBrace
  | closeBrace
deriving DecidableEq, Repr

namespace Symbol

def text : Symbol → String
  | .number digits => digits
  | .name text => text
  | .keyword k => k.text
  | .operator op => op.symbol
  | .assign => "="
  | .separator => ";"
  | .comma => ","
  | .openParen => "("
  | .closeParen => ")"
  | .openBrace => "\x7b"
  | .closeBrace => "\x7d"

/-- A word is a keyword only as a whole. -/
def ofWord (word : String) : Symbol :=
  match Keyword.ofText? word with
  | some k => .keyword k
  | none => .name word

end Symbol

structure Token where
  symbol : Symbol
  position : Position
deriving DecidableEq, Repr

end Scriptlet
