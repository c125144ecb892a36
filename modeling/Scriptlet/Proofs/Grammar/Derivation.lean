import Scriptlet.Reading

/-! The grammar of programs. A derivation is a tree of productions, one for every alternative of
the grammar; the tokens it derives and the expression it stands for are read off it. -/

namespace Scriptlet

/-- What the grammar has rules for. Each stands for the rule of its name, `rows` for statements
with the separators behind them, and `alternative` for what a conditional may have behind its
block. -/
inductive Nonterminal where
  | statements
  | rows
  | block
  | statement
  | expr
  | sum
  | product
  | unary
  | call
  | arguments
  | atom
  | conditional
  | alternative
deriving DecidableEq

/-- A list of one or more parameters, with the positions of the names and of the commas before all
names but the first. -/
structure Parameters where
  first : String × Position
  others : List (Position × String × Position)

/-- Derivations. Tokens are held by their positions, and by what they say where that may vary. -/
inductive Derivation : Nonterminal → Type where
  | statements (separators : List Position) (rows : Derivation .rows) : Derivation .statements
  | statementsAnd (separators : List Position) (rows : Derivation .rows)
      (last : Derivation .statement) : Derivation .statements
  | noRow : Derivation .rows
  | row (before : Derivation .rows) (statement : Derivation .statement) (separator : Position)
      (separators : List Position) : Derivation .rows
  | block (opening : Position) (body : Derivation .statements) (closing : Position) :
      Derivation .block
  | declaration (word : Position) (name : String) (namePos sign : Position)
      (init : Derivation .expr) : Derivation .statement
  | assignment (name : String) (namePos sign : Position) (rhs : Derivation .expr) :
      Derivation .statement
  | bare (e : Derivation .expr) : Derivation .statement
  | comparison (left : Derivation .sum) (op : Operator) (level : op.level = .comparison)
      (sign : Position) (right : Derivation .sum) : Derivation .expr
  | ofSum (e : Derivation .sum) : Derivation .expr
  | addition (left : Derivation .sum) (op : Operator) (level : op.level = .sum)
      (sign : Position) (right : Derivation .product) : Derivation .sum
  | ofProduct (e : Derivation .product) : Derivation .sum
  | multiplication (left : Derivation .product) (op : Operator) (level : op.level = .product)
      (sign : Position) (right : Derivation .unary) : Derivation .product
  | ofUnary (e : Derivation .unary) : Derivation .product
  | negation (sign : Position) (e : Derivation .unary) : Derivation .unary
  | ofCall (e : Derivation .call) : Derivation .unary
  | application (callee : Derivation .call) (opening closing : Position) : Derivation .call
  | applicationTo (callee : Derivation .call) (opening : Position)
      (args : Derivation .arguments) (closing : Position) : Derivation .call
  | ofAtom (e : Derivation .atom) : Derivation .call
  | argument (e : Derivation .expr) : Derivation .arguments
  | argumentAnd (e : Derivation .expr) (comma : Position) (rest : Derivation .arguments) :
      Derivation .arguments
  | number (digits : String) (pos : Position) : Derivation .atom
  | trueWord (pos : Position) : Derivation .atom
  | falseWord (pos : Position) : Derivation .atom
  | null (pos : Position) : Derivation .atom
  | var (name : String) (pos : Position) : Derivation .atom
  | print (word opening : Position) (e : Derivation .expr) (closing : Position) :
      Derivation .atom
  | bracket (opening : Position) (e : Derivation .expr) (closing : Position) : Derivation .atom
  | ofConditional (e : Derivation .conditional) : Derivation .atom
  | loop (word opening : Position) (test : Derivation .expr) (closing : Position)
      (body : Derivation .block) : Derivation .atom
  | function (word : Position) (name : Option (String × Position)) (opening : Position)
      (params : Option Parameters) (closing : Position) (body : Derivation .block) :
      Derivation .atom
  | conditional (word opening : Position) (test : Derivation .expr) (closing : Position)
      (yes : Derivation .block) (no : Derivation .alternative) : Derivation .conditional
  | noElse : Derivation .alternative
  | elseBlock (word : Position) (body : Derivation .block) : Derivation .alternative
  | elseIf (word : Position) (no : Derivation .conditional) : Derivation .alternative

namespace Parameters

/-- The names with their positions. -/
def named (ps : Parameters) : List (String × Position) := ps.first :: ps.others.map Prod.snd

def names (ps : Parameters) : List String := ps.named.map Prod.fst

def nameToken (param : String × Position) : Token := ⟨.name param.1, param.2⟩

def tokens (ps : Parameters) : List Token :=
  nameToken ps.first :: ps.others.flatMap fun param => [⟨.comma, param.1⟩, nameToken param.2]

/-- One more parameter, behind a comma. -/
def add (ps : Parameters) (comma : Position) (param : String × Position) : Parameters :=
  ⟨ps.first, ps.others ++ [(comma, param)]⟩

theorem names_add (ps : Parameters) (comma : Position) (param : String × Position) :
    (ps.add comma param).names = ps.names ++ [param.1] := by
  simp [add, names, named]

theorem tokens_add (ps : Parameters) (comma : Position) (param : String × Position) :
    (ps.add comma param).tokens = ps.tokens ++ [⟨.comma, comma⟩, nameToken param] := by
  simp [add, tokens]

end Parameters

/-- What a derivation stands for. An expression comes with the position where its text starts. -/
abbrev Nonterminal.Meaning : Nonterminal → Type
  | .statements | .rows | .arguments => List Expr
  | .statement | .block => Expr
  | .alternative => Option Expr
  | .expr | .sum | .product | .unary | .call | .atom | .conditional => Operand

namespace Derivation

def separatorTokens (separators : List Position) : List Token :=
  separators.map (⟨.separator, ·⟩)

/-- The tokens that are derived. -/
@[simp] def tokens : {c : Nonterminal} → Derivation c → List Token
  | _, .statements seps rows => separatorTokens seps ++ rows.tokens
  | _, .statementsAnd seps rows last => separatorTokens seps ++ rows.tokens ++ last.tokens
  | _, .noRow => []
  | _, .row before statement sep seps =>
    before.tokens ++ statement.tokens ++ separatorTokens (sep :: seps)
  | _, .block opening body closing =>
    ⟨.openBrace, opening⟩ :: body.tokens ++ [⟨.closeBrace, closing⟩]
  | _, .declaration word name namePos sign init =>
    ⟨.keyword .var, word⟩ :: ⟨.name name, namePos⟩ :: ⟨.assign, sign⟩ :: init.tokens
  | _, .assignment name namePos sign rhs => ⟨.name name, namePos⟩ :: ⟨.assign, sign⟩ :: rhs.tokens
  | _, .bare e => e.tokens
  | _, .comparison left op _ sign right => left.tokens ++ ⟨.operator op, sign⟩ :: right.tokens
  | _, .ofSum e => e.tokens
  | _, .addition left op _ sign right => left.tokens ++ ⟨.operator op, sign⟩ :: right.tokens
  | _, .ofProduct e => e.tokens
  | _, .multiplication left op _ sign right => left.tokens ++ ⟨.operator op, sign⟩ :: right.tokens
  | _, .ofUnary e => e.tokens
  | _, .negation sign e => ⟨.operator .sub, sign⟩ :: e.tokens
  | _, .ofCall e => e.tokens
  | _, .application callee opening closing =>
    callee.tokens ++ [⟨.openParen, opening⟩, ⟨.closeParen, closing⟩]
  | _, .applicationTo callee opening args closing =>
    callee.tokens ++ ⟨.openParen, opening⟩ :: args.tokens ++ [⟨.closeParen, closing⟩]
  | _, .ofAtom e => e.tokens
  | _, .argument e => e.tokens
  | _, .argumentAnd e comma rest => e.tokens ++ ⟨.comma, comma⟩ :: rest.tokens
  | _, .number digits pos => [⟨.number digits, pos⟩]
  | _, .trueWord pos => [⟨.keyword .trueWord, pos⟩]
  | _, .falseWord pos => [⟨.keyword .falseWord, pos⟩]
  | _, .null pos => [⟨.keyword .null, pos⟩]
  | _, .var name pos => [⟨.name name, pos⟩]
  | _, .print word opening e closing =>
    ⟨.keyword .print, word⟩ :: ⟨.openParen, opening⟩ :: e.tokens ++ [⟨.closeParen, closing⟩]
  | _, .bracket opening e closing =>
    ⟨.openParen, opening⟩ :: e.tokens ++ [⟨.closeParen, closing⟩]
  | _, .ofConditional e => e.tokens
  | _, .loop word opening test closing body =>
    ⟨.keyword .whileWord, word⟩ :: ⟨.openParen, opening⟩ :: test.tokens ++
      ⟨.closeParen, closing⟩ :: body.tokens
  | _, .function word name opening params closing body =>
    ⟨.keyword .function, word⟩ :: (name.map Parameters.nameToken).toList ++
      ⟨.openParen, opening⟩ :: (params.map Parameters.tokens).getD [] ++
      ⟨.closeParen, closing⟩ :: body.tokens
  | _, .conditional word opening test closing yes no =>
    ⟨.keyword .ifWord, word⟩ :: ⟨.openParen, opening⟩ :: test.tokens ++
      ⟨.closeParen, closing⟩ :: yes.tokens ++ no.tokens
  | _, .noElse => []
  | _, .elseBlock word body => ⟨.keyword .elseWord, word⟩ :: body.tokens
  | _, .elseIf word no => ⟨.keyword .elseWord, word⟩ :: no.tokens

/-- Two operands and the operator between them. The text starts where that of the left one does. -/
def binary (left : Operand) (op : Operator) (right : Operand) : Operand :=
  ⟨.binary (some left.start) op left.expr right.expr, left.start⟩

def apply (callee : Operand) (args : List Expr) : Operand :=
  ⟨.call (some callee.start) callee.expr args, callee.start⟩

/-- What the derivation stands for. Brackets belong to the text of an expression and leave no
trace in it. A minus sign subtracts from zero, a named function declares its name, and null stands
for a missing `else` and for an empty block. -/
@[simp] def meaning : {c : Nonterminal} → Derivation c → c.Meaning
  | _, .statements _ rows => rows.meaning
  | _, .statementsAnd _ rows last => rows.meaning ++ [last.meaning]
  | _, .noRow => []
  | _, .row before statement _ _ => before.meaning ++ [statement.meaning]
  | _, .block opening body _ =>
    (Expr.sequence? body.meaning).getD (.const (some opening) .null)
  | _, .declaration word name _ _ init => .declare (some word) name init.meaning.expr
  | _, .assignment name namePos _ rhs => .assign (some namePos) name rhs.meaning.expr
  | _, .bare e => e.meaning.expr
  | _, .comparison left op _ _ right => binary left.meaning op right.meaning
  | _, .ofSum e => e.meaning
  | _, .addition left op _ _ right => binary left.meaning op right.meaning
  | _, .ofProduct e => e.meaning
  | _, .multiplication left op _ _ right => binary left.meaning op right.meaning
  | _, .ofUnary e => e.meaning
  | _, .negation sign e =>
    ⟨.binary (some sign) .sub (.const (some sign) (.number 0)) e.meaning.expr, sign⟩
  | _, .ofCall e => e.meaning
  | _, .application callee _ _ => apply callee.meaning []
  | _, .applicationTo callee _ args _ => apply callee.meaning args.meaning
  | _, .ofAtom e => e.meaning
  | _, .argument e => [e.meaning.expr]
  | _, .argumentAnd e _ rest => e.meaning.expr :: rest.meaning
  | _, .number digits pos => ⟨.const (some pos) (.number (Number.ofDigits digits.toList)), pos⟩
  | _, .trueWord pos => ⟨.const (some pos) (.bool true), pos⟩
  | _, .falseWord pos => ⟨.const (some pos) (.bool false), pos⟩
  | _, .null pos => ⟨.const (some pos) .null, pos⟩
  | _, .var name pos => ⟨.var (some pos) name, pos⟩
  | _, .print word _ e _ => ⟨.print (some word) e.meaning.expr, word⟩
  | _, .bracket opening e _ => ⟨e.meaning.expr, opening⟩
  | _, .ofConditional e => e.meaning
  | _, .loop word _ test _ body => ⟨.loop (some word) test.meaning.expr body.meaning, word⟩
  | _, .function word name _ params _ body =>
    let f := Expr.func (some word) ((params.map Parameters.names).getD []) body.meaning
    match name with
    | some (name, _) => ⟨.declare (some word) name f, word⟩
    | none => ⟨f, word⟩
  | _, .conditional word _ test _ yes no =>
    ⟨.cond (some word) test.meaning.expr yes.meaning (no.meaning.getD (.const (some word) .null)),
      word⟩
  | _, .noElse => none
  | _, .elseBlock _ body => some body.meaning
  | _, .elseIf _ no => some no.meaning.expr

/-- The expression that a whole program stands for. -/
def program (d : Derivation .statements) : Expr :=
  (Expr.sequence? d.meaning).getD (.const (d.tokens.head?.map Token.position) .null)

end Derivation

end Scriptlet
