import Scriptlet.Proofs.Grammar.Derivation

/-! Whatever the grammar derives is read, and stands for what its derivation says. Reading the
tokens of a derivation leads to the point where what they stand for has been read, if what comes
next cannot be taken for a part of it. -/

namespace Scriptlet

namespace Reading

/-- Reads tokens to their end: the statements of the program, the last one first. -/
def run? : Reading → List Token → Option (List Expr)
  | r, [] => r.finish?
  | r, t :: rest => (r.step? t).bind (·.run? rest)

theorem run?_of_step? {r r' : Reading} {t : Token} (h : r.step? t = some r') (rest : List Token) :
    r.run? (t :: rest) = r'.run? rest := by
  rw [run?, h, Option.bind_some]

theorem run?_eq_some_iff {r : Reading} {ts : List Token} {done : List Expr} :
    r.run? ts = some done ↔ ∃ r', r.readAll ts = .ok r' ∧ r'.finish? = some done := by
  induction ts generalizing r with
  | nil => simp [run?, readAll]
  | cons t rest ih =>
    rw [run?, readAll]
    cases r.step? t with
    | none => simp
    | some r' => simpa using ih

/-- What comes next, if anything does, has a symbol of a kind. -/
def Next (kind : Symbol → Prop) (rest : List Token) : Prop := ∀ t ∈ rest.head?, kind t.symbol

@[simp] theorem next_nil (kind : Symbol → Prop) : Next kind [] := by simp [Next]

@[simp] theorem next_cons {kind : Symbol → Prop} {t : Token} {rest : List Token} :
    Next kind (t :: rest) ↔ kind t.symbol := by simp [Next]

theorem Next.append {kind : Symbol → Prop} {ts rest : List Token} (hts : Next kind ts)
    (hrest : Next kind rest) : Next kind (ts ++ rest) := by
  cases ts with
  | nil => exact hrest
  | cons t ts => simpa using hts

theorem Next.mono {kind kind' : Symbol → Prop} {rest : List Token} (h : Next kind rest)
    (hk : ∀ s, kind s → kind' s) : Next kind' rest :=
  fun t ht => hk _ (h t ht)

/-- Two points are alike before a text if they take its first token alike, and its end. -/
theorem run?_congr {r r' : Reading} {kind : Symbol → Prop} {rest : List Token}
    (hrest : Next kind rest) (hstep : ∀ t, kind t.symbol → r.step? t = r'.step? t)
    (hfinish : r.finish? = r'.finish?) : r.run? rest = r'.run? rest := by
  cases rest with
  | nil => exact hfinish
  | cons t rest => rw [run?, run?, hstep t (next_cons.mp hrest)]

end Reading

namespace Symbol

/-- What may come behind a call: all but what completes a conditional or an assignment. -/
def AfterCall (s : Symbol) : Prop := s ≠ .keyword .elseWord ∧ s ≠ .assign

/-- What may come behind an operand with its signs. -/
def AfterUnary (s : Symbol) : Prop := s.AfterCall ∧ s ≠ .openParen

/-- What may come behind a sum. -/
def AfterSum (s : Symbol) : Prop := s.AfterUnary ∧ ∀ op, s = .operator op → op.level ≠ .product

/-- What may come behind a whole expression. -/
def AfterExpr (s : Symbol) : Prop := s.AfterUnary ∧ ∀ op, s ≠ .operator op

/-- What may come behind a statement. -/
def AfterStatement (s : Symbol) : Prop := s = .separator ∨ s = .closeBrace

theorem afterUnary_operator (op : Operator) : AfterUnary (.operator op) := by
  simp [AfterUnary, AfterCall]

theorem afterSum_operator {op : Operator} (hop : op.level ≠ .product) :
    AfterSum (.operator op) := by
  refine ⟨afterUnary_operator op, ?_⟩
  rintro _ ⟨⟩
  exact hop

theorem afterExpr_closeParen : AfterExpr .closeParen := by
  simp [AfterExpr, AfterUnary, AfterCall]

theorem afterExpr_comma : AfterExpr .comma := by
  simp [AfterExpr, AfterUnary, AfterCall]

theorem AfterExpr.afterSum {s : Symbol} (h : s.AfterExpr) : s.AfterSum :=
  ⟨h.1, fun op hop => absurd hop (h.2 op)⟩

theorem AfterStatement.afterExpr {s : Symbol} (h : s.AfterStatement) : s.AfterExpr := by
  rcases h with rfl | rfl <;> simp [AfterExpr, AfterUnary, AfterCall]

end Symbol

namespace Reading

variable {rest : List Token} {around : Around} {v : Operand}

/-! ### Points that are alike -/

theorem run?_minus {p : Pending} {sign : Position} (hrest : Next Symbol.AfterUnary rest) :
    run? (.operator (p.minus sign) around v) rest =
      run? (.operator p around (v.negate sign)) rest := by
  refine run?_congr hrest (fun t ht => ?_) rfl
  obtain ⟨symbol, pos⟩ := t
  cases symbol with
  | openParen => exact absurd rfl ht.2
  | _ => rfl

theorem run?_product {c s : Option HalfRead} {left : HalfRead}
    (hrest : Next Symbol.AfterUnary rest) :
    run? (.operator ⟨c, s, some left, []⟩ around v) rest =
      run? (.operator ⟨c, s, none, []⟩ around (v.join (some left))) rest := by
  refine run?_congr hrest (fun t ht => ?_) rfl
  obtain ⟨symbol, pos⟩ := t
  cases symbol with
  | openParen => exact absurd rfl ht.2
  | _ => rfl

theorem run?_sum {c : Option HalfRead} {left : HalfRead} (hrest : Next Symbol.AfterSum rest) :
    run? (.operator ⟨c, some left, none, []⟩ around v) rest =
      run? (.operator ⟨c, none, none, []⟩ around (v.join (some left))) rest := by
  refine run?_congr hrest (fun t ht => ?_) rfl
  obtain ⟨symbol, pos⟩ := t
  cases symbol with
  | openParen => exact absurd rfl ht.1.2
  | operator op =>
    have hop := ht.2 op rfl
    cases op with
    | mul | div | mod => exact absurd rfl hop
    | _ => rfl
  | _ => rfl

theorem run?_comparison {left : HalfRead} (hrest : Next Symbol.AfterExpr rest) :
    run? (.operator ⟨some left, none, none, []⟩ around v) rest =
      run? (.operator .none around (v.join (some left))) rest := by
  refine run?_congr hrest (fun t ht => ?_) rfl
  obtain ⟨symbol, pos⟩ := t
  cases symbol with
  | openParen => exact absurd rfl ht.1.2
  | operator op => exact absurd rfl (ht.2 op)
  | _ => rfl

theorem run?_afterYes {p : Pending} {last : Branch} {outer : List Branch}
    (hrest : Next Symbol.AfterCall rest) :
    run? (.afterYes p around last outer) rest =
      run? (.operator p around (withoutElse last outer)) rest := by
  refine run?_congr hrest (fun t ht => ?_) rfl
  obtain ⟨symbol, pos⟩ := t
  cases symbol with
  | keyword k =>
    cases k with
    | elseWord => exact absurd rfl ht.1
    | _ => rfl
  | _ => rfl

theorem run?_leadingName {block : Block} {done : List Expr} {name : String} {start : Position}
    (hrest : Next (· ≠ .assign) rest) :
    run? (.leadingName block done name start) rest =
      run? (.operator .none (.statement block done .bare) (nameOperand name start)) rest := by
  refine run?_congr hrest (fun t ht => ?_) rfl
  obtain ⟨symbol, pos⟩ := t
  cases symbol with
  | assign => exact absurd rfl ht
  | _ => rfl

theorem run?_operator {p p' : Pending} {op : Operator} (hp : p.operator? v op = some p')
    (sign : Position) :
    run? (.operator p around v) (⟨.operator op, sign⟩ :: rest) =
      run? (.operand p' around) rest := by
  refine run?_of_step? ?_ rest
  simp only [step?, afterOperand?, hp, Option.map_some]

/-- An expression that nothing can continue ends its statement. -/
theorem run?_statementEnd {block : Block} {done : List Expr} {head : Head}
    (hrest : Next Symbol.AfterStatement rest) :
    run? (.operator .none (.statement block done head) v) rest =
      run? (.statement block (head.statement v.expr :: done)) rest := by
  refine run?_congr hrest (fun t ht => ?_) ?_
  · obtain ⟨symbol, pos⟩ := t
    rcases ht with rfl | rfl
    · rfl
    · cases block <;> rfl
  · cases block <;> rfl

/-! ### How operands start -/

/-- A text that starts like an operand: not like another kind of statement, nor with the end of a
block or of arguments. -/
def StartsOperand (ts : List Token) : Prop :=
  ∃ t rest, ts = t :: rest ∧ t.symbol ≠ .separator ∧ t.symbol ≠ .keyword .var ∧
    t.symbol ≠ .closeBrace ∧ t.symbol ≠ .closeParen ∧
    ∀ name, t.symbol = .name name → Next (· ≠ .assign) rest

theorem StartsOperand.append {ts : List Token} (h : StartsOperand ts)
    (hrest : Next (· ≠ .assign) rest) : StartsOperand (ts ++ rest) := by
  obtain ⟨t, ts, rfl, hsep, hvar, hbrace, hparen, hname⟩ := h
  exact ⟨t, ts ++ rest, rfl, hsep, hvar, hbrace, hparen, fun name h => (hname name h).append hrest⟩

theorem run?_bare {ts : List Token} (hts : StartsOperand ts) (block : Block) (done : List Expr) :
    run? (.statement block done) ts = run? (.operand .none (.statement block done .bare)) ts := by
  obtain ⟨⟨symbol, pos⟩, ts, rfl, hsep, hvar, hbrace, -, hname⟩ := hts
  cases symbol with
  | name name => exact run?_leadingName (hname name rfl)
  | separator => exact absurd rfl hsep
  | closeBrace => exact absurd rfl hbrace
  | keyword k =>
    cases k with
    | var => exact absurd rfl hvar
    | _ => rfl
  | _ => rfl

theorem run?_firstArgument {ts : List Token} (hts : StartsOperand ts) (p : Pending)
    (callee : Operand) :
    run? (.firstArgument p around callee) ts =
      run? (.operand .none (.argument p around callee [])) ts := by
  obtain ⟨⟨symbol, pos⟩, ts, rfl, -, -, -, hparen, -⟩ := hts
  cases symbol with
  | closeParen => exact absurd rfl hparen
  | _ => rfl

end Reading

namespace Derivation

open Reading

/-- Expressions of every kind start like operands, and so do lists of arguments. -/
theorem startsOperand {c : Nonterminal} (d : Derivation c) :
    match c with
    | .expr | .sum | .product | .unary | .call | .atom | .conditional | .arguments =>
      StartsOperand d.tokens
    | .statements | .rows | .block | .statement | .alternative => True := by
  induction d with
  | statements | statementsAnd | noRow | row | block | declaration | assignment | bare | noElse
  | elseBlock | elseIf => trivial
  | comparison left op _ sign right ih _ => exact ih.append (by simp)
  | addition left op _ sign right ih _ => exact ih.append (by simp)
  | multiplication left op _ sign right ih _ => exact ih.append (by simp)
  | application callee opening closing ih => exact ih.append (by simp)
  | applicationTo callee opening args closing ih _ =>
    exact (ih.append (by simp)).append (by simp)
  | argumentAnd e comma rest ih _ => exact ih.append (by simp)
  | ofSum _ ih | ofProduct _ ih | ofUnary _ ih | ofCall _ ih | ofAtom _ ih | ofConditional _ ih
  | argument _ ih => exact ih
  | negation | number | trueWord | falseWord | null | var | print | bracket | loop | function
  | conditional => exact ⟨_, _, rfl, by simp, by simp, by simp, by simp, by simp⟩

/-! ### Reading a derivation -/

/-- How the tokens of a derivation are read, whatever is open around them. -/
def Read : (c : Nonterminal) → Derivation c → Prop
  | .statements, d => ∀ block done rest, Next Symbol.AfterStatement rest →
      run? (.statement block done) (d.tokens ++ rest) =
        run? (.statement block (d.meaning.reverse ++ done)) rest
  | .rows, d => ∀ block done rest, run? (.statement block done) (d.tokens ++ rest) =
      run? (.statement block (d.meaning.reverse ++ done)) rest
  | .block, d => ∃ start done, Reading.block (some start) done = d.meaning ∧
      ∀ r p around owner rest,
        (∀ pos, r.step? ⟨.openBrace, pos⟩ = some (.statement (.braces p around owner pos) [])) →
        run? r (d.tokens ++ rest) = run? (closeBlock p around owner start done) rest
  | .statement, d => ∀ block done rest, Next Symbol.AfterStatement rest →
      run? (.statement block done) (d.tokens ++ rest) =
        run? (.statement block (d.meaning :: done)) rest
  | .expr, d => ∀ around rest, Next Symbol.AfterExpr rest →
      run? (.operand .none around) (d.tokens ++ rest) =
        run? (.operator .none around d.meaning) rest
  | .sum, d => ∀ comparison around rest, Next Symbol.AfterSum rest →
      run? (.operand ⟨comparison, none, none, []⟩ around) (d.tokens ++ rest) =
        run? (.operator ⟨comparison, none, none, []⟩ around d.meaning) rest
  | .product, d => ∀ comparison sum around rest, Next Symbol.AfterUnary rest →
      run? (.operand ⟨comparison, sum, none, []⟩ around) (d.tokens ++ rest) =
        run? (.operator ⟨comparison, sum, none, []⟩ around d.meaning) rest
  | .unary, d => ∀ p around rest, Next Symbol.AfterUnary rest →
      run? (.operand p around) (d.tokens ++ rest) = run? (.operator p around d.meaning) rest
  | .call, d | .atom, d => ∀ p around rest, Next Symbol.AfterCall rest →
      run? (.operand p around) (d.tokens ++ rest) = run? (.operator p around d.meaning) rest
  | .arguments, d => ∀ p around callee done closing rest,
      run? (.operand .none (.argument p around callee done))
          (d.tokens ++ ⟨.closeParen, closing⟩ :: rest) =
        run? (.operator p around (apply callee (done.reverse ++ d.meaning))) rest
  | .conditional, d => ∀ r p around outer rest, Next Symbol.AfterCall rest →
      (∀ pos, r.step? ⟨.keyword .ifWord, pos⟩ = some (.opening p around (.branch pos outer))) →
      run? r (d.tokens ++ rest) =
        run? (.operator p around (outer.foldl Branch.close d.meaning)) rest
  | .alternative, d => ∀ p around start test yes outer rest, Next Symbol.AfterCall rest →
      run? (.afterYes p around ⟨start, test, yes⟩ outer) (d.tokens ++ rest) =
        run? (.operator p around (outer.foldl Branch.close
          ⟨.cond (some start) test yes (d.meaning.getD (.const (some start) .null)), start⟩)) rest

theorem run?_separators (block : Block) (done : List Expr) (seps : List Position)
    (rest : List Token) :
    run? (.statement block done) (separatorTokens seps ++ rest) =
      run? (.statement block done) rest := by
  induction seps with
  | nil => rfl
  | cons sep seps ih => exact ih

theorem run?_parameterEnd (p : Pending) (around : Around) (start : Position)
    (name : Option String) (done : List String) (others : List (Position × String × Position))
    (closing : Position) (rest : List Token) :
    run? (.parameterEnd p around start name done)
        ((others.flatMap fun param => [⟨.comma, param.1⟩, Parameters.nameToken param.2]) ++
          ⟨.closeParen, closing⟩ :: rest) =
      run? (.body p around (.function start name
        (done.reverse ++ others.map (·.2.1)))) rest := by
  induction others generalizing done with
  | nil => simp only [List.flatMap_nil, List.map_nil, List.append_nil]; rfl
  | cons param others ih => exact (ih (param.2.1 :: done)).trans (by simp)

theorem run?_parameters (p : Pending) (around : Around) (start : Position) (name : Option String)
    (params : Option Parameters) (closing : Position) (rest : List Token) :
    run? (.firstParameter p around start name)
        ((params.map Parameters.tokens).getD [] ++ ⟨.closeParen, closing⟩ :: rest) =
      run? (.body p around (.function start name
        ((params.map Parameters.names).getD []))) rest := by
  cases params with
  | none => rfl
  | some ps =>
    refine (run?_parameterEnd p around start name [ps.first.1] ps.others closing rest).trans ?_
    simp [Parameters.names, Parameters.named, Function.comp_def]

theorem read_row {before : Derivation .rows} {statement : Derivation .statement}
    (hbefore : Read _ before) (hstatement : Read _ statement) (sep : Position)
    (seps : List Position) : Read _ (row before statement sep seps) := by
  intro block done rest
  have hsep : Next Symbol.AfterStatement (separatorTokens (sep :: seps) ++ rest) :=
    next_cons.mpr (.inl rfl)
  rw [tokens, List.append_assoc, List.append_assoc, hbefore, hstatement _ _ _ hsep,
    run?_separators]
  simp

theorem read_statementsAnd {rows : Derivation .rows} {last : Derivation .statement}
    (hrows : Read _ rows) (hlast : Read _ last) (seps : List Position) :
    Read _ (statementsAnd seps rows last) := by
  intro block done rest hrest
  rw [tokens, List.append_assoc, List.append_assoc, run?_separators, hrows, hlast _ _ _ hrest]
  simp

theorem read_block {body : Derivation .statements} (hbody : Read _ body)
    (opening closing : Position) : Read _ (block opening body closing) := by
  refine ⟨opening, body.meaning.reverse, by simp [Reading.block], ?_⟩
  intro r p around owner rest hr
  have hclose : Next Symbol.AfterStatement (⟨.closeBrace, closing⟩ :: rest) :=
    next_cons.mpr (.inr rfl)
  rw [tokens, List.cons_append, List.cons_append, List.append_assoc, run?_of_step? (hr opening)]
  refine (hbody _ _ _ hclose).trans ?_
  rw [List.append_nil]
  rfl

theorem read_headed {e : Derivation .expr} (he : Read _ e) (block : Block) (done : List Expr)
    (head : Head) {rest : List Token} (hrest : Next Symbol.AfterStatement rest) :
    run? (.operand .none (.statement block done head)) (e.tokens ++ rest) =
      run? (.statement block (head.statement e.meaning.expr :: done)) rest :=
  (he _ _ (hrest.mono fun _ => Symbol.AfterStatement.afterExpr)).trans (run?_statementEnd hrest)

theorem read_bare {e : Derivation .expr} (he : Read _ e) : Read _ (bare e) := by
  intro block done rest hrest
  -- a name that starts the expression is not assigned to, since no `=` follows either
  have hstart := (startsOperand e).append (hrest.mono fun s hs => hs.afterExpr.1.1.2)
  exact (run?_bare hstart block done).trans (read_headed he block done .bare hrest)

theorem read_comparison {left right : Derivation .sum} (hleft : Read _ left)
    (hright : Read _ right) {op : Operator} (hop : op.level = .comparison) (sign : Position) :
    Read _ (comparison left op hop sign right) := by
  intro around rest hrest
  have hsign : Next Symbol.AfterSum (⟨.operator op, sign⟩ :: (right.tokens ++ rest)) :=
    next_cons.mpr (Symbol.afterSum_operator (by simp [hop]))
  let p : Pending := ⟨some ⟨left.meaning, op⟩, none, none, []⟩
  have hp : Pending.none.operator? left.meaning op = some p := by
    simp only [Pending.operator?, hop]
    rfl
  rw [tokens, List.append_assoc, List.cons_append]
  calc
    _ = run? (.operator .none around left.meaning)
          (⟨.operator op, sign⟩ :: (right.tokens ++ rest)) := hleft none around _ hsign
    _ = run? (.operand p around) (right.tokens ++ rest) := run?_operator hp sign
    _ = run? (.operator p around right.meaning) rest :=
      hright _ _ _ (hrest.mono fun _ => Symbol.AfterExpr.afterSum)
    _ = _ := run?_comparison hrest

theorem read_addition {left : Derivation .sum} {right : Derivation .product} (hleft : Read _ left)
    (hright : Read _ right) {op : Operator} (hop : op.level = .sum) (sign : Position) :
    Read _ (addition left op hop sign right) := by
  intro c around rest hrest
  have hsign : Next Symbol.AfterSum (⟨.operator op, sign⟩ :: (right.tokens ++ rest)) :=
    next_cons.mpr (Symbol.afterSum_operator (by simp [hop]))
  let p : Pending := ⟨c, some ⟨left.meaning, op⟩, none, []⟩
  have hp : (⟨c, none, none, []⟩ : Pending).operator? left.meaning op = some p := by
    simp only [Pending.operator?, hop]
    rfl
  rw [tokens, List.append_assoc, List.cons_append]
  calc
    _ = run? (.operator ⟨c, none, none, []⟩ around left.meaning)
          (⟨.operator op, sign⟩ :: (right.tokens ++ rest)) := hleft c around _ hsign
    _ = run? (.operand p around) (right.tokens ++ rest) := run?_operator hp sign
    _ = run? (.operator p around right.meaning) rest :=
      hright _ _ _ _ (hrest.mono fun _ h => h.1)
    _ = _ := run?_sum hrest

theorem read_multiplication {left : Derivation .product} {right : Derivation .unary}
    (hleft : Read _ left) (hright : Read _ right) {op : Operator} (hop : op.level = .product)
    (sign : Position) : Read _ (multiplication left op hop sign right) := by
  intro c s around rest hrest
  have hsign : Next Symbol.AfterUnary (⟨.operator op, sign⟩ :: (right.tokens ++ rest)) :=
    next_cons.mpr (Symbol.afterUnary_operator op)
  let p : Pending := ⟨c, s, some ⟨left.meaning, op⟩, []⟩
  have hp : (⟨c, s, none, []⟩ : Pending).operator? left.meaning op = some p := by
    simp only [Pending.operator?, hop]
    rfl
  rw [tokens, List.append_assoc, List.cons_append]
  calc
    _ = run? (.operator ⟨c, s, none, []⟩ around left.meaning)
          (⟨.operator op, sign⟩ :: (right.tokens ++ rest)) := hleft c s around _ hsign
    _ = run? (.operand p around) (right.tokens ++ rest) := run?_operator hp sign
    _ = run? (.operator p around right.meaning) rest := hright _ _ _ hrest
    _ = _ := run?_product hrest

theorem read_negation {e : Derivation .unary} (he : Read _ e) (sign : Position) :
    Read _ (negation sign e) := by
  intro p around rest hrest
  refine (he (p.minus sign) around rest hrest).trans ?_
  exact run?_minus hrest

theorem read_application {callee : Derivation .call} (hcallee : Read _ callee)
    (opening closing : Position) : Read _ (application callee opening closing) := by
  intro p around rest _
  rw [tokens, List.append_assoc]
  exact hcallee p around _ (by simp [Symbol.AfterCall])

theorem read_applicationTo {callee : Derivation .call} {args : Derivation .arguments}
    (hcallee : Read _ callee) (hargs : Read _ args) (opening closing : Position) :
    Read _ (applicationTo callee opening args closing) := by
  intro p around rest _
  rw [tokens, List.append_assoc, List.append_assoc, List.cons_append, List.singleton_append]
  have hstart : StartsOperand (args.tokens ++ ⟨.closeParen, closing⟩ :: rest) :=
    (startsOperand args).append (by simp)
  refine (hcallee p around _ (by simp [Symbol.AfterCall])).trans ?_
  exact (run?_firstArgument hstart p callee.meaning).trans (hargs p around _ [] closing rest)

theorem read_argument {e : Derivation .expr} (he : Read _ e) : Read _ (argument e) := by
  intro p around callee done closing rest
  refine (he _ _ (next_cons.mpr Symbol.afterExpr_closeParen)).trans ?_
  rw [meaning, ← List.reverse_cons]
  rfl

theorem read_argumentAnd {e : Derivation .expr} {others : Derivation .arguments} (he : Read _ e)
    (hothers : Read _ others) (comma : Position) : Read _ (argumentAnd e comma others) := by
  intro p around callee done closing rest
  rw [tokens, List.append_assoc, List.cons_append]
  refine (he _ _ (next_cons.mpr Symbol.afterExpr_comma)).trans ?_
  refine (hothers p around callee (e.meaning.expr :: done) closing rest).trans ?_
  rw [meaning, List.reverse_cons, List.append_assoc, List.singleton_append]

/-- An expression in brackets, from behind the opening one. -/
theorem read_bracketed {e : Derivation .expr} (he : Read _ e) (around : Around)
    (closing : Position) (rest : List Token) :
    run? (.operand .none around) (e.tokens ++ ⟨.closeParen, closing⟩ :: rest) =
      run? (.operator .none around e.meaning) (⟨.closeParen, closing⟩ :: rest) :=
  he around _ (next_cons.mpr Symbol.afterExpr_closeParen)

theorem read_print {e : Derivation .expr} (he : Read _ e) (word opening closing : Position) :
    Read _ (print word opening e closing) := by
  intro p around rest _
  rw [tokens, List.cons_append, List.cons_append, List.cons_append, List.cons_append,
    List.append_assoc]
  exact read_bracketed he (.opening p around (.print word)) closing rest

theorem read_bracket {e : Derivation .expr} (he : Read _ e) (opening closing : Position) :
    Read _ (bracket opening e closing) := by
  intro p around rest _
  rw [tokens, List.cons_append, List.cons_append, List.append_assoc]
  exact read_bracketed he (.bracket p around opening) closing rest

theorem read_loop {test : Derivation .expr} {body : Derivation .block} (htest : Read _ test)
    (hbody : Read _ body) (word opening closing : Position) :
    Read _ (loop word opening test closing body) := by
  intro p around rest _
  obtain ⟨start, done, hmeaning, hbody⟩ := hbody
  simp only [tokens, List.cons_append, List.append_assoc]
  calc
    _ = run? (.operator .none (.opening p around (.loop word)) test.meaning)
          (⟨.closeParen, closing⟩ :: (body.tokens ++ rest)) :=
      read_bracketed htest (.opening p around (.loop word)) closing _
    _ = run? (closeBlock p around (.loop word test.meaning.expr) start done) rest :=
      hbody (.body p around (.loop word test.meaning.expr)) p around _ rest fun _ => rfl
    _ = _ := by rw [closeBlock, hmeaning, meaning]

theorem read_function {body : Derivation .block} (hbody : Read _ body)
    (word : Position) (name : Option (String × Position)) (opening : Position)
    (params : Option Parameters) (closing : Position) :
    Read _ (function word name opening params closing body) := by
  intro p around rest _
  obtain ⟨start, done, hmeaning, hbody⟩ := hbody
  have hname : ∀ ts, run? (.function p around word)
      ((name.map Parameters.nameToken).toList ++ ⟨.openParen, opening⟩ :: ts) =
      run? (.firstParameter p around word (name.map Prod.fst)) ts := by
    intro ts
    cases name <;> rfl
  let owner : Owner := .function word (name.map Prod.fst) ((params.map Parameters.names).getD [])
  simp only [tokens, List.cons_append, List.append_assoc]
  calc
    _ = run? (.firstParameter p around word (name.map Prod.fst))
          ((params.map Parameters.tokens).getD [] ++
            ⟨.closeParen, closing⟩ :: (body.tokens ++ rest)) := hname _
    _ = run? (.body p around owner) (body.tokens ++ rest) := run?_parameters ..
    _ = run? (closeBlock p around owner start done) rest :=
      hbody (.body p around owner) p around _ rest fun _ => rfl
    _ = _ := by
      rw [closeBlock, hmeaning]
      cases name <;> rfl

theorem read_conditional {test : Derivation .expr} {yes : Derivation .block}
    {no : Derivation .alternative} (htest : Read _ test) (hyes : Read _ yes) (hno : Read _ no)
    (word opening closing : Position) :
    Read _ (conditional word opening test closing yes no) := by
  intro r p around outer rest hrest hr
  obtain ⟨start, done, hmeaning, hyes⟩ := hyes
  let owner : Owner := .yes word test.meaning.expr outer
  simp only [tokens, List.cons_append, List.append_assoc]
  rw [run?_of_step? (hr word)]
  calc
    _ = run? (.operator .none (.opening p around (.branch word outer)) test.meaning)
          (⟨.closeParen, closing⟩ :: (yes.tokens ++ (no.tokens ++ rest))) :=
      read_bracketed htest (.opening p around (.branch word outer)) closing _
    _ = run? (closeBlock p around owner start done) (no.tokens ++ rest) :=
      hyes (.body p around owner) p around _ _ fun _ => rfl
    _ = run? (.afterYes p around ⟨word, test.meaning.expr, yes.meaning⟩ outer)
          (no.tokens ++ rest) := by rw [closeBlock, hmeaning]
    _ = _ := hno p around word _ _ outer rest hrest

theorem read_elseBlock {body : Derivation .block} (hbody : Read _ body) (word : Position) :
    Read _ (elseBlock word body) := by
  intro p around start test yes outer rest _
  obtain ⟨opening, done, hmeaning, hbody⟩ := hbody
  refine (hbody (.afterElse p around (⟨start, test, yes⟩ :: outer)) p around _ rest
    fun _ => rfl).trans ?_
  rw [closeBlock, hmeaning]
  rfl

theorem read_elseIf {no : Derivation .conditional} (hno : Read _ no) (word : Position) :
    Read _ (elseIf word no) := by
  intro p around start test yes outer rest hrest
  exact hno (.afterElse p around (⟨start, test, yes⟩ :: outer)) p around _ rest hrest fun _ => rfl

/-- Every production reads its parts in turn. -/
theorem read {c : Nonterminal} (d : Derivation c) : Read c d := by
  induction d with
  | statements seps rows ih =>
    intro block done rest _
    rw [tokens, List.append_assoc, run?_separators, ih]
    rfl
  | statementsAnd seps rows last hrows hlast => exact read_statementsAnd hrows hlast seps
  | noRow => exact fun _ _ _ => rfl
  | row before statement sep seps hbefore hstatement => exact read_row hbefore hstatement sep seps
  | block opening body closing ih => exact read_block ih opening closing
  | declaration word name namePos sign init ih =>
    exact fun block done rest => read_headed ih block done (.declare name word)
  | assignment name namePos sign rhs ih =>
    exact fun block done rest => read_headed ih block done (.assign name namePos)
  | bare e ih => exact read_bare ih
  | comparison left op hop sign right hleft hright => exact read_comparison hleft hright hop sign
  | ofSum e ih =>
    exact fun around rest hrest => ih none around rest (hrest.mono fun _ h => h.afterSum)
  | addition left op hop sign right hleft hright => exact read_addition hleft hright hop sign
  | ofProduct e ih =>
    exact fun c around rest hrest => ih c none around rest (hrest.mono fun _ h => h.1)
  | multiplication left op hop sign right hleft hright =>
    exact read_multiplication hleft hright hop sign
  | ofUnary e ih => exact fun c s around rest => ih ⟨c, s, none, []⟩ around rest
  | negation sign e ih => exact read_negation ih sign
  | ofCall e ih => exact fun p around rest hrest => ih p around rest (hrest.mono fun _ h => h.1)
  | application callee opening closing ih => exact read_application ih opening closing
  | applicationTo callee opening args closing hcallee hargs =>
    exact read_applicationTo hcallee hargs opening closing
  | ofAtom e ih => exact ih
  | argument e ih => exact read_argument ih
  | argumentAnd e comma rest he hrest => exact read_argumentAnd he hrest comma
  | number | trueWord | falseWord | null | var => exact fun _ _ _ _ => rfl
  | print word opening e closing ih => exact read_print ih word opening closing
  | bracket opening e closing ih => exact read_bracket ih opening closing
  | ofConditional e ih =>
    exact fun p around rest hrest => ih (.operand p around) p around [] rest hrest fun _ => rfl
  | loop word opening test closing body htest hbody =>
    exact read_loop htest hbody word opening closing
  | function word name opening params closing body ih =>
    exact read_function ih word name opening params closing
  | conditional word opening test closing yes no htest hyes hno =>
    exact read_conditional htest hyes hno word opening closing
  | noElse => exact fun p around start test yes outer rest hrest => run?_afterYes hrest
  | elseBlock word body ih => exact read_elseBlock ih word
  | elseIf word no ih => exact read_elseIf ih word

/-- The tokens of a program are read, as what its derivation stands for. -/
theorem run?_start (d : Derivation .statements) :
    run? start d.tokens = some d.meaning.reverse := by
  have h := read d .program [] [] (next_nil _)
  rw [List.append_nil, List.append_nil] at h
  exact h

/-- The grammar is unambiguous: one text stands for one program. -/
theorem program_eq_of_tokens_eq {d₁ d₂ : Derivation .statements} (h : d₁.tokens = d₂.tokens) :
    d₁.program = d₂.program := by
  have hmeaning : d₁.meaning = d₂.meaning := by
    rw [← List.reverse_inj, ← Option.some.injEq, ← run?_start, ← run?_start, h]
  rw [program, program, hmeaning, h]

end Derivation

end Scriptlet
