import Scriptlet.Expr
import Scriptlet.Token

/-! Reading a program token by token. What has been read is kept as a point in the unfinished
program: the operators that wait for an operand, and the constructs that are open around them,
each with all that it still needs to know. A token that has no place at the point is the first
one with which the text cannot be continued. -/

namespace Scriptlet

/-- An expression and where its text starts. Brackets around an expression belong to its text
and not to the expression. -/
structure Operand where
  expr : Expr
  start : Position

/-- A left operand and its operator, before the right operand. -/
structure HalfRead where
  left : Operand
  op : Operator

namespace Operand

/-- Joins what waits on the left with the right operand. -/
def join (right : Operand) : Option HalfRead → Operand
  | none => right
  | some ⟨left, op⟩ =>
    ⟨.binary (some left.start) op left.expr right.expr, left.start⟩

/-- A minus sign before an operand subtracts it from zero. -/
def negate (operand : Operand) (minus : Position) : Operand :=
  ⟨.binary (some minus) .sub (.const (some minus) (.number 0)) operand.expr, minus⟩

end Operand

/-- The operators that wait for an operand, from the loosest to the tightest. The minus signs
directly before the operand stand with the last one first. -/
structure Pending where
  comparison : Option HalfRead
  sum : Option HalfRead
  product : Option HalfRead
  minuses : List Position

namespace Pending

def none : Pending := ⟨.none, .none, .none, []⟩

def minus (p : Pending) (pos : Position) : Pending := { p with minuses := pos :: p.minuses }

/-- The operand with its minus signs. -/
def unary (p : Pending) (operand : Operand) : Operand := p.minuses.foldl Operand.negate operand

/-- The product that ends with the operand. -/
def wholeProduct (p : Pending) (operand : Operand) : Operand := (p.unary operand).join p.product

/-- The sum that ends with the operand. -/
def wholeSum (p : Pending) (operand : Operand) : Operand := (p.wholeProduct operand).join p.sum

/-- The expression that ends with the operand. -/
def whole (p : Pending) (operand : Operand) : Operand := (p.wholeSum operand).join p.comparison

/-- Puts an operator behind an operand. Products and sums group to the left, and a comparison
takes no second one. -/
def operator? (p : Pending) (operand : Operand) (op : Operator) : Option Pending :=
  match op.level with
  | .product => some ⟨p.comparison, p.sum, some ⟨p.wholeProduct operand, op⟩, []⟩
  | .sum => some ⟨p.comparison, some ⟨p.wholeSum operand, op⟩, .none, []⟩
  | .comparison =>
    if p.comparison.isSome then .none
    else some ⟨some ⟨p.wholeSum operand, op⟩, .none, .none, []⟩

end Pending

/-- What a statement does with its expression. -/
inductive Head where
  | bare
  | declare (name : String) (start : Position)
  | assign (name : String) (start : Position)

def Head.statement (head : Head) (e : Expr) : Expr :=
  match head with
  | .bare => e
  | .declare name start => .declare (some start) name e
  | .assign name start => .assign (some start) name e

/-- A conditional read up to its `else`. -/
structure Branch where
  start : Position
  test : Expr
  yes : Expr

/-- Ends a conditional with what follows its `else`. -/
def Branch.close (no : Operand) (b : Branch) : Operand :=
  ⟨.cond (some b.start) b.test b.yes no.expr, b.start⟩

/-- A word that wants an expression in brackets. A conditional that follows an `else` knows the
conditionals it ends, the nearest first. -/
inductive Opening where
  | print (start : Position)
  | branch (start : Position) (outer : List Branch)
  | loop (start : Position)

/-- What a block belongs to. -/
inductive Owner where
  | yes (start : Position) (test : Expr) (outer : List Branch)
  | no (branches : List Branch)
  | loop (start : Position) (test : Expr)
  | function (start : Position) (name : Option String) (params : List String)

mutual

/-- What is open around an expression. Finished arguments and statements stand with the last
one first. -/
inductive Around where
  | statement (block : Block) (done : List Expr) (head : Head)
  | bracket (pending : Pending) (around : Around) (start : Position)
  | opening (pending : Pending) (around : Around) (what : Opening)
  | argument (pending : Pending) (around : Around) (callee : Operand) (done : List Expr)

/-- What is open around a statement: the program alone, or a block in an expression. -/
inductive Block where
  | program
  | braces (pending : Pending) (around : Around) (owner : Owner) (start : Position)

end

/-- A point in an unfinished program. -/
inductive Reading where
  /-- A statement may start. -/
  | statement (block : Block) (done : List Expr)
  /-- A statement starts with a name, which may be assigned to. -/
  | leadingName (block : Block) (done : List Expr) (name : String) (start : Position)
  /-- `var` wants a name. -/
  | declaration (block : Block) (done : List Expr) (start : Position)
  /-- A declared name wants its `=`. -/
  | declaredName (block : Block) (done : List Expr) (start : Position) (name : String)
  /-- An operand has to start. -/
  | operand (pending : Pending) (around : Around)
  /-- An operand has been read. -/
  | operator (pending : Pending) (around : Around) (operand : Operand)
  /-- A word wants its opening bracket. -/
  | opening (pending : Pending) (around : Around) (what : Opening)
  /-- A call may have arguments. -/
  | firstArgument (pending : Pending) (around : Around) (callee : Operand)
  /-- `function` wants a name or a bracket. -/
  | function (pending : Pending) (around : Around) (start : Position)
  /-- A function with a name wants its bracket. -/
  | functionName (pending : Pending) (around : Around) (start : Position) (name : String)
  /-- A function may have parameters. -/
  | firstParameter (pending : Pending) (around : Around) (start : Position)
      (name : Option String)
  /-- A comma wants another parameter. -/
  | parameter (pending : Pending) (around : Around) (start : Position) (name : Option String)
      (done : List String)
  /-- A parameter has been read. -/
  | parameterEnd (pending : Pending) (around : Around) (start : Position)
      (name : Option String) (done : List String)
  /-- A block has to start. -/
  | body (pending : Pending) (around : Around) (owner : Owner)
  /-- A conditional may have an `else`. -/
  | afterYes (pending : Pending) (around : Around) (last : Branch) (outer : List Branch)
  /-- `else` wants a block or another conditional. -/
  | afterElse (pending : Pending) (around : Around) (branches : List Branch)

namespace Reading

/-- The statements of a block as one expression, null if there are none. -/
def block (start : Option Position) (done : List Expr) : Expr :=
  (Expr.sequence? done.reverse).getD (.const start .null)

/-- A function as an expression. One with a name declares it. -/
def functionExpr (start : Position) (name : Option String) (params : List String) (body : Expr) :
    Expr :=
  let f := Expr.func (some start) params body
  match name with
  | some name => .declare (some start) name f
  | none => f

/-- The point behind a closing brace. -/
def closeBlock (pending : Pending) (around : Around) (owner : Owner) (start : Position)
    (done : List Expr) : Reading :=
  let body := block (some start) done
  match owner with
  | .yes p test outer => .afterYes pending around ⟨p, test, body⟩ outer
  | .no branches => .operator pending around (branches.foldl Branch.close ⟨body, start⟩)
  | .loop p test => .operator pending around ⟨.loop (some p) test body, p⟩
  | .function p name params =>
    .operator pending around ⟨functionExpr p name params body, p⟩

/-- A conditional without a last `else`, which is null. -/
def withoutElse (last : Branch) (outer : List Branch) : Operand :=
  (last :: outer).foldl Branch.close ⟨.const (some last.start) .null, last.start⟩

/-- Reads a token where an operand has to start. -/
def startOperand? (pending : Pending) (around : Around) (t : Token) : Option Reading :=
  let p := t.position
  let constant (v : Value) : Option Reading :=
    some (.operator pending around ⟨.const (some p) v, p⟩)
  match t.symbol with
  | .number digits => constant (.number (Number.ofDigits digits.toList))
  | .name name => some (.operator pending around ⟨.var (some p) name, p⟩)
  | .keyword .trueWord => constant (.bool true)
  | .keyword .falseWord => constant (.bool false)
  | .keyword .null => constant .null
  | .keyword .print => some (.opening pending around (.print p))
  | .keyword .ifWord => some (.opening pending around (.branch p []))
  | .keyword .whileWord => some (.opening pending around (.loop p))
  | .keyword .function => some (.function pending around p)
  | .operator .sub => some (.operand (pending.minus p) around)
  | .openParen => some (.operand .none (.bracket pending around p))
  | _ => none

/-- Reads a token that ends an expression. -/
def endExpr? (e : Operand) (around : Around) (symbol : Symbol) : Option Reading :=
  match around, symbol with
  | .bracket pending around start, .closeParen =>
    some (.operator pending around ⟨e.expr, start⟩)
  | .opening pending around (.print start), .closeParen =>
    some (.operator pending around ⟨.print (some start) e.expr, start⟩)
  | .opening pending around (.branch start outer), .closeParen =>
    some (.body pending around (.yes start e.expr outer))
  | .opening pending around (.loop start), .closeParen =>
    some (.body pending around (.loop start e.expr))
  | .argument pending around callee done, .comma =>
    some (.operand .none (.argument pending around callee (e.expr :: done)))
  | .argument pending around callee done, .closeParen =>
    let args := (e.expr :: done).reverse
    some (.operator pending around ⟨.call (some callee.start) callee.expr args, callee.start⟩)
  | .statement block done head, .separator =>
    some (.statement block (head.statement e.expr :: done))
  | .statement (.braces pending around owner start) done head, .closeBrace =>
    some (closeBlock pending around owner start (head.statement e.expr :: done))
  | _, _ => none

/-- Reads a token behind an operand. -/
def afterOperand? (pending : Pending) (around : Around) (operand : Operand) (t : Token) :
    Option Reading :=
  match t.symbol with
  | .openParen => some (.firstArgument pending around operand)
  | .operator op => (pending.operator? operand op).map (.operand · around)
  | symbol => endExpr? (pending.whole operand) around symbol

/-- Reads a token where a statement may start. -/
def startStatement? (block : Block) (done : List Expr) (t : Token) : Option Reading :=
  match t.symbol, block with
  | .separator, _ => some (.statement block done)
  | .keyword .var, _ => some (.declaration block done t.position)
  | .name name, _ => some (.leadingName block done name t.position)
  | .closeBrace, .braces pending around owner start =>
    some (closeBlock pending around owner start done)
  | _, _ => startOperand? .none (.statement block done .bare) t

/-- A name that starts a statement, read as an operand. -/
def nameOperand (name : String) (start : Position) : Operand := ⟨.var (some start) name, start⟩

/-- Reads one token, if the text can be continued with it. -/
def step? (r : Reading) (t : Token) : Option Reading :=
  let p := t.position
  match r, t.symbol with
  | .statement block done, _ => startStatement? block done t
  | .leadingName block done name start, .assign =>
    some (.operand .none (.statement block done (.assign name start)))
  | .leadingName block done name start, _ =>
    afterOperand? .none (.statement block done .bare) (nameOperand name start) t
  | .declaration block done start, .name name => some (.declaredName block done start name)
  | .declaredName block done start name, .assign =>
    some (.operand .none (.statement block done (.declare name start)))
  | .operand pending around, _ => startOperand? pending around t
  | .operator pending around v, _ => afterOperand? pending around v t
  | .opening pending around what, .openParen =>
    some (.operand .none (.opening pending around what))
  | .firstArgument pending around callee, .closeParen =>
    some (.operator pending around ⟨.call (some callee.start) callee.expr [], callee.start⟩)
  | .firstArgument pending around callee, _ =>
    startOperand? .none (.argument pending around callee []) t
  | .function pending around start, .name name =>
    some (.functionName pending around start name)
  | .function pending around start, .openParen =>
    some (.firstParameter pending around start none)
  | .functionName pending around start name, .openParen =>
    some (.firstParameter pending around start (some name))
  | .firstParameter pending around start name, .closeParen =>
    some (.body pending around (.function start name []))
  | .firstParameter pending around start name, .name param =>
    some (.parameterEnd pending around start name [param])
  | .parameter pending around start name done, .name param =>
    some (.parameterEnd pending around start name (param :: done))
  | .parameterEnd pending around start name done, .comma =>
    some (.parameter pending around start name done)
  | .parameterEnd pending around start name done, .closeParen =>
    some (.body pending around (.function start name done.reverse))
  | .body pending around owner, .openBrace =>
    some (.statement (.braces pending around owner p) [])
  | .afterYes pending around last outer, .keyword .elseWord =>
    some (.afterElse pending around (last :: outer))
  | .afterYes pending around last outer, _ =>
    afterOperand? pending around (withoutElse last outer) t
  | .afterElse pending around branches, .openBrace =>
    some (.statement (.braces pending around (.no branches) p) [])
  | .afterElse pending around branches, .keyword .ifWord =>
    some (.opening pending around (.branch p branches))
  | _, _ => none

/-- The statements of the program, the last one first, if an expression can be its end. -/
def endProgram? (e : Operand) : Around → Option (List Expr)
  | .statement .program done head => some (head.statement e.expr :: done)
  | _ => none

/-- The statements of the program, the last one first, if the text can end here. -/
def finish? : Reading → Option (List Expr)
  | .statement .program done => some done
  | .leadingName block done name start =>
    endProgram? (nameOperand name start) (.statement block done .bare)
  | .operator pending around v => endProgram? (pending.whole v) around
  | .afterYes pending around last outer =>
    endProgram? (pending.whole (withoutElse last outer)) around
  | _ => none

/-- Before the first token. -/
def start : Reading := .statement .program []

/-- Reads tokens up to the first one with which the text cannot be continued. -/
def readAll (r : Reading) : List Token → Except Token Reading
  | [] => .ok r
  | t :: rest =>
    match r.step? t with
    | some r' => r'.readAll rest
    | none => .error t

end Reading

end Scriptlet
