import Scriptlet.Proofs.Grammar.Derivation

/-! The texts behind which the points of an unfinished program stand. What waits or is open keeps
only what it still needs to know; here each is tied to the tokens it was read from. -/

namespace Scriptlet

/-- Whether the grammar derives a text, as something that stands for a value. -/
def Derives (c : Nonterminal) (text : List Token) (v : c.Meaning) : Prop :=
  ∃ d : Derivation c, d.tokens = text ∧ d.meaning = v

/-- The text of a left operand and its operator, or none. -/
inductive HalfRead.Text (level : Operator.Level) (left : List Token → Operand → Prop) :
    Option HalfRead → List Token → Prop where
  | none : HalfRead.Text level left none []
  | some {v : Operand} {op : Operator} {text : List Token} (hop : op.level = level)
      (hv : left text v) (sign : Position) :
      HalfRead.Text level left (some ⟨v, op⟩) (text ++ [⟨.operator op, sign⟩])

namespace Pending

/-- The text of minus signs that stand with the last one first. -/
def minusTokens (minuses : List Position) : List Token :=
  minuses.reverse.map (⟨.operator .sub, ·⟩)

/-- The text of the operators that wait. -/
inductive Text (p : Pending) (text : List Token) : Prop where
  | mk {textC textS textP : List Token}
      (hcomparison : HalfRead.Text .comparison (Derives .sum) p.comparison textC)
      (hsum : HalfRead.Text .sum (Derives .sum) p.sum textS)
      (hproduct : HalfRead.Text .product (Derives .product) p.product textP)
      (htext : text = textC ++ textS ++ textP ++ minusTokens p.minuses)

theorem text_none : Pending.none.Text [] := .mk .none .none .none rfl

theorem Text.minus {p : Pending} {text : List Token} (h : p.Text text) (sign : Position) :
    (p.minus sign).Text (text ++ [⟨.operator .sub, sign⟩]) := by
  obtain ⟨hc, hs, hp, rfl⟩ := h
  exact ⟨hc, hs, hp, by simp [minusTokens, Pending.minus]⟩

theorem derives_negations {text : List Token} {v : Operand} (h : Derives .unary text v)
    (minuses : List Position) :
    Derives .unary (minusTokens minuses ++ text) (minuses.foldl Operand.negate v) := by
  induction minuses generalizing text v with
  | nil => exact h
  | cons sign minuses ih =>
    obtain ⟨d, rfl, rfl⟩ := h
    have h : Derives .unary (⟨.operator .sub, sign⟩ :: d.tokens) (d.meaning.negate sign) :=
      ⟨.negation sign d, rfl, rfl⟩
    simpa [minusTokens] using ih h

theorem derives_product {half : Option HalfRead} {text text' : List Token} {v : Operand}
    (hhalf : HalfRead.Text .product (Derives .product) half text) (h : Derives .unary text' v) :
    Derives .product (text ++ text') (v.join half) := by
  obtain ⟨d, rfl, rfl⟩ := h
  cases hhalf with
  | none => exact ⟨.ofUnary d, rfl, rfl⟩
  | some hop hleft sign =>
    obtain ⟨left, rfl, rfl⟩ := hleft
    exact ⟨.multiplication left _ hop sign d, by simp, rfl⟩

theorem derives_sum {half : Option HalfRead} {text text' : List Token} {v : Operand}
    (hhalf : HalfRead.Text .sum (Derives .sum) half text) (h : Derives .product text' v) :
    Derives .sum (text ++ text') (v.join half) := by
  obtain ⟨d, rfl, rfl⟩ := h
  cases hhalf with
  | none => exact ⟨.ofProduct d, rfl, rfl⟩
  | some hop hleft sign =>
    obtain ⟨left, rfl, rfl⟩ := hleft
    exact ⟨.addition left _ hop sign d, by simp, rfl⟩

theorem derives_comparison {half : Option HalfRead} {text text' : List Token} {v : Operand}
    (hhalf : HalfRead.Text .comparison (Derives .sum) half text) (h : Derives .sum text' v) :
    Derives .expr (text ++ text') (v.join half) := by
  obtain ⟨d, rfl, rfl⟩ := h
  cases hhalf with
  | none => exact ⟨.ofSum d, rfl, rfl⟩
  | some hop hleft sign =>
    obtain ⟨left, rfl, rfl⟩ := hleft
    exact ⟨.comparison left _ hop sign d, by simp, rfl⟩

variable {p p' : Pending} {text textS textP : List Token}

theorem derives_wholeProduct (hp : HalfRead.Text .product (Derives .product) p.product textP)
    (d : Derivation .call) :
    Derives .product (textP ++ (minusTokens p.minuses ++ d.tokens)) (p.wholeProduct d.meaning) :=
  derives_product hp (derives_negations ⟨.ofCall d, rfl, rfl⟩ p.minuses)

theorem derives_wholeSum (hs : HalfRead.Text .sum (Derives .sum) p.sum textS)
    (hp : HalfRead.Text .product (Derives .product) p.product textP) (d : Derivation .call) :
    Derives .sum (textS ++ (textP ++ (minusTokens p.minuses ++ d.tokens)))
      (p.wholeSum d.meaning) :=
  derives_sum hs (derives_wholeProduct hp d)

/-- All operators that wait get their operands. -/
theorem Text.whole (h : p.Text text) (d : Derivation .call) :
    Derives .expr (text ++ d.tokens) (p.whole d.meaning) := by
  obtain ⟨hc, hs, hp, rfl⟩ := h
  have h := derives_comparison hc (derives_wholeSum hs hp d)
  simpa [Pending.whole] using h

/-- An operator behind an operand ends what binds at least as tightly. -/
theorem Text.operator (h : p.Text text) (d : Derivation .call) {op : Operator}
    (hp' : p.operator? d.meaning op = some p') (sign : Position) :
    p'.Text (text ++ d.tokens ++ [⟨.operator op, sign⟩]) := by
  obtain ⟨hc, hs, hp, rfl⟩ := h
  unfold operator? at hp'
  split at hp'
  next hop =>
    obtain rfl := Option.some.inj hp'
    exact ⟨hc, hs, .some hop (derives_wholeProduct hp d) sign, by simp [minusTokens]⟩
  next hop =>
    obtain rfl := Option.some.inj hp'
    exact ⟨hc, .some hop (derives_wholeSum hs hp d) sign, .none, by simp [minusTokens]⟩
  next hop =>
    split at hp'
    next => cases hp'
    next hnone =>
      obtain rfl := Option.some.inj hp'
      rw [Option.not_isSome_iff_eq_none.mp hnone] at hc
      cases hc
      exact ⟨.some hop (derives_wholeSum hs hp d) sign, .none, .none, by simp [minusTokens]⟩

end Pending

/-- The text of a statement before its expression. -/
inductive Head.Text : Head → List Token → Prop where
  | bare : Head.Text .bare []
  | declare (word : Position) (name : String) (namePos sign : Position) :
      Head.Text (.declare name word)
        [⟨.keyword .var, word⟩, ⟨.name name, namePos⟩, ⟨.assign, sign⟩]
  | assign (name : String) (namePos sign : Position) :
      Head.Text (.assign name namePos) [⟨.name name, namePos⟩, ⟨.assign, sign⟩]

theorem Head.Text.statement {head : Head} {text : List Token} (h : head.Text text)
    (d : Derivation .expr) :
    Derives .statement (text ++ d.tokens) (head.statement d.meaning.expr) := by
  cases h with
  | bare => exact ⟨.bare d, rfl, rfl⟩
  | declare word name namePos sign => exact ⟨.declaration word name namePos sign d, rfl, rfl⟩
  | assign name namePos sign => exact ⟨.assignment name namePos sign d, rfl, rfl⟩

/-- The text of finished statements, with a separator behind each. The last one stands first. -/
def StatementsText (done : List Expr) (text : List Token) : Prop :=
  ∃ seps, ∃ rows : Derivation .rows,
    text = Derivation.separatorTokens seps ++ rows.tokens ∧ done = rows.meaning.reverse

namespace StatementsText

variable {done : List Expr} {text : List Token}

theorem nil : StatementsText [] [] := ⟨[], .noRow, rfl, rfl⟩

theorem separator (h : StatementsText done text) (sep : Position) :
    StatementsText done (text ++ [⟨.separator, sep⟩]) := by
  obtain ⟨seps, rows, rfl, rfl⟩ := h
  cases rows with
  | noRow =>
    exact ⟨seps ++ [sep], .noRow, by simp [Derivation.separatorTokens], rfl⟩
  | row before statement sep' seps' =>
    exact ⟨seps, .row before statement sep' (seps' ++ [sep]),
      by simp [Derivation.separatorTokens], rfl⟩

theorem statement (h : StatementsText done text) (d : Derivation .statement) (sep : Position) :
    StatementsText (d.meaning :: done) (text ++ d.tokens ++ [⟨.separator, sep⟩]) := by
  obtain ⟨seps, rows, rfl, rfl⟩ := h
  exact ⟨seps, .row rows d sep [], by simp [Derivation.separatorTokens],
    by simp⟩

theorem derives (h : StatementsText done text) : Derives .statements text done.reverse := by
  obtain ⟨seps, rows, rfl, rfl⟩ := h
  exact ⟨.statements seps rows, rfl, by simp⟩

theorem derives_and (h : StatementsText done text) (last : Derivation .statement) :
    Derives .statements (text ++ last.tokens) (last.meaning :: done).reverse := by
  obtain ⟨seps, rows, rfl, rfl⟩ := h
  exact ⟨.statementsAnd seps rows last, rfl, by simp⟩

end StatementsText

/-- The text of finished arguments, with a comma behind each. The last one stands first. -/
inductive ArgumentsText : List Expr → List Token → Prop where
  | nil : ArgumentsText [] []
  | cons {done : List Expr} {text : List Token} (h : ArgumentsText done text)
      (d : Derivation .expr) (comma : Position) :
      ArgumentsText (d.meaning.expr :: done) (text ++ d.tokens ++ [⟨.comma, comma⟩])

theorem ArgumentsText.derives {done : List Expr} {text : List Token} (h : ArgumentsText done text)
    (d : Derivation .arguments) :
    Derives .arguments (text ++ d.tokens) (done.reverse ++ d.meaning) := by
  induction h generalizing d with
  | nil => exact ⟨d, rfl, rfl⟩
  | cons _ e comma ih =>
    have h := ih (.argumentAnd e comma d)
    simpa using h

namespace Branch

/-- The text of a conditional up to the end of its block. -/
def Text (b : Branch) (text : List Token) : Prop :=
  ∃ opening, ∃ test : Derivation .expr, ∃ closing, ∃ yes : Derivation .block,
    text = ⟨.keyword .ifWord, b.start⟩ :: ⟨.openParen, opening⟩ :: test.tokens ++
      ⟨.closeParen, closing⟩ :: yes.tokens ∧
    test.meaning.expr = b.test ∧ yes.meaning = b.yes

theorem Text.derives {b : Branch} {text : List Token} (h : b.Text text)
    (no : Derivation .alternative) :
    Derives .conditional (text ++ no.tokens)
      (close ⟨no.meaning.getD (.const (some b.start) .null), b.start⟩ b) := by
  obtain ⟨opening, test, closing, yes, rfl, htest, hyes⟩ := h
  refine ⟨.conditional b.start opening test closing yes no, by simp, ?_⟩
  rw [Derivation.meaning, htest, hyes]
  rfl

/-- The text of conditionals up to their `else`, one in the other. The nearest stands first. -/
inductive ChainText : List Branch → List Token → Prop where
  | nil : ChainText [] []
  | cons {b : Branch} {outer : List Branch} {text textB : List Token}
      (houter : ChainText outer text) (hb : b.Text textB) (word : Position) :
      ChainText (b :: outer) (text ++ textB ++ [⟨.keyword .elseWord, word⟩])

theorem ChainText.derives {outer : List Branch} {text : List Token} (h : ChainText outer text)
    {text' : List Token} {v : Operand} (hv : Derives .conditional text' v) :
    Derives .conditional (text ++ text') (outer.foldl close v) := by
  induction h generalizing text' v with
  | nil => exact hv
  | cons _ hb word ih =>
    obtain ⟨d, rfl, rfl⟩ := hv
    have h := ih (hb.derives (.elseIf word d))
    simpa [close] using h

end Branch

/-- The text of a word that wants an expression in brackets. -/
inductive Opening.Text : Opening → List Token → Prop where
  | print (word : Position) : Opening.Text (.print word) [⟨.keyword .print, word⟩]
  | branch {outer : List Branch} {text : List Token} (houter : Branch.ChainText outer text)
      (word : Position) : Opening.Text (.branch word outer) (text ++ [⟨.keyword .ifWord, word⟩])
  | loop (word : Position) : Opening.Text (.loop word) [⟨.keyword .whileWord, word⟩]

/-- The text of a function up to its opening bracket. -/
def functionTokens (word : Position) (name : Option (String × Position)) (opening : Position) :
    List Token :=
  ⟨.keyword .function, word⟩ :: (name.map Parameters.nameToken).toList ++
    [⟨.openParen, opening⟩]

/-- The text of what a block belongs to, up to the block. -/
inductive Owner.Text : Owner → List Token → Prop where
  | yes {outer : List Branch} {text : List Token} (houter : Branch.ChainText outer text)
      (word opening : Position) (test : Derivation .expr) (closing : Position) :
      Owner.Text (.yes word test.meaning.expr outer)
        (text ++ ⟨.keyword .ifWord, word⟩ :: ⟨.openParen, opening⟩ :: test.tokens ++
          [⟨.closeParen, closing⟩])
  | no {b : Branch} {outer : List Branch} {text : List Token}
      (h : Branch.ChainText (b :: outer) text) : Owner.Text (.no (b :: outer)) text
  | loop (word opening : Position) (test : Derivation .expr) (closing : Position) :
      Owner.Text (.loop word test.meaning.expr)
        (⟨.keyword .whileWord, word⟩ :: ⟨.openParen, opening⟩ :: test.tokens ++
          [⟨.closeParen, closing⟩])
  | function (word : Position) (name : Option (String × Position)) (opening : Position)
      (params : Option Parameters) (closing : Position) :
      Owner.Text (.function word (name.map Prod.fst) ((params.map Parameters.names).getD []))
        (functionTokens word name opening ++ (params.map Parameters.tokens).getD [] ++
          [⟨.closeParen, closing⟩])

mutual

/-- Whether a text leads up to an expression in what is open around it. -/
inductive Around.Behind : Around → List Token → Prop where
  | statement {block : Block} {done : List Expr} {head : Head} {before rows text : List Token}
      (hblock : block.Behind before) (hdone : StatementsText done rows) (hhead : head.Text text) :
      Around.Behind (.statement block done head) (before ++ rows ++ text)
  | bracket {p : Pending} {around : Around} {before : List Token} (h : p.Behind around before)
      (start : Position) :
      Around.Behind (.bracket p around start) (before ++ [⟨.openParen, start⟩])
  | opening {p : Pending} {around : Around} {what : Opening} {before text : List Token}
      (h : p.Behind around before) (hwhat : what.Text text) (opening : Position) :
      Around.Behind (.opening p around what) (before ++ text ++ [⟨.openParen, opening⟩])
  | argument {p : Pending} {around : Around} {done : List Expr} {before text : List Token}
      (h : p.Behind around before) (callee : Derivation .call) (opening : Position)
      (hdone : ArgumentsText done text) :
      Around.Behind (.argument p around callee.meaning done)
        (before ++ callee.tokens ++ ⟨.openParen, opening⟩ :: text)

/-- Whether a text leads up to the statements of a block. -/
inductive Block.Behind : Block → List Token → Prop where
  | program : Block.Behind .program []
  | braces {p : Pending} {around : Around} {owner : Owner} {before text : List Token}
      (h : p.Behind around before) (howner : owner.Text text) (start : Position) :
      Block.Behind (.braces p around owner start) (before ++ text ++ [⟨.openBrace, start⟩])

/-- Whether a text leads up to an operand for which operators wait. -/
inductive Pending.Behind : Pending → Around → List Token → Prop where
  | mk {p : Pending} {around : Around} {before text : List Token}
      (haround : around.Behind before) (hp : p.Text text) :
      Pending.Behind p around (before ++ text)

end

theorem Around.Behind.none {around : Around} {before : List Token} (h : around.Behind before) :
    Pending.none.Behind around before := by
  simpa using Pending.Behind.mk h Pending.text_none

theorem Pending.Behind.minus {p : Pending} {around : Around} {before : List Token}
    (h : p.Behind around before) (sign : Position) :
    (p.minus sign).Behind around (before ++ [⟨.operator .sub, sign⟩]) := by
  obtain ⟨haround, hp⟩ := h
  rw [List.append_assoc]
  exact .mk haround (hp.minus sign)

end Scriptlet
