import Scriptlet.Proofs.Grammar.Complete
import Scriptlet.Proofs.Grammar.Texts

/-! Whatever is read is derived by the grammar. Every point that is reached stands behind the text
that has been read, and where a program may end that text is derived as a whole. -/

namespace Scriptlet

namespace Reading

/-- Whether a point stands behind a text. -/
inductive Behind : Reading → List Token → Prop where
  | statement {block : Block} {done : List Expr} {before rows : List Token}
      (hblock : block.Behind before) (hdone : StatementsText done rows) :
      Behind (.statement block done) (before ++ rows)
  | leadingName {block : Block} {done : List Expr} {before rows : List Token}
      (hblock : block.Behind before) (hdone : StatementsText done rows) (name : String)
      (start : Position) :
      Behind (.leadingName block done name start) (before ++ rows ++ [⟨.name name, start⟩])
  | declaration {block : Block} {done : List Expr} {before rows : List Token}
      (hblock : block.Behind before) (hdone : StatementsText done rows) (word : Position) :
      Behind (.declaration block done word) (before ++ rows ++ [⟨.keyword .var, word⟩])
  | declaredName {block : Block} {done : List Expr} {before rows : List Token}
      (hblock : block.Behind before) (hdone : StatementsText done rows) (word : Position)
      (name : String) (namePos : Position) :
      Behind (.declaredName block done word name)
        (before ++ rows ++ [⟨.keyword .var, word⟩, ⟨.name name, namePos⟩])
  | operand {p : Pending} {around : Around} {before : List Token} (h : p.Behind around before) :
      Behind (.operand p around) before
  | operator {p : Pending} {around : Around} {before : List Token} (h : p.Behind around before)
      (d : Derivation .call) : Behind (.operator p around d.meaning) (before ++ d.tokens)
  | opening {p : Pending} {around : Around} {what : Opening} {before text : List Token}
      (h : p.Behind around before) (hwhat : what.Text text) :
      Behind (.opening p around what) (before ++ text)
  | firstArgument {p : Pending} {around : Around} {before : List Token}
      (h : p.Behind around before) (callee : Derivation .call) (opening : Position) :
      Behind (.firstArgument p around callee.meaning)
        (before ++ callee.tokens ++ [⟨.openParen, opening⟩])
  | function {p : Pending} {around : Around} {before : List Token} (h : p.Behind around before)
      (word : Position) :
      Behind (.function p around word) (before ++ [⟨.keyword .function, word⟩])
  | functionName {p : Pending} {around : Around} {before : List Token}
      (h : p.Behind around before) (word : Position) (name : String) (namePos : Position) :
      Behind (.functionName p around word name)
        (before ++ [⟨.keyword .function, word⟩, ⟨.name name, namePos⟩])
  | firstParameter {p : Pending} {around : Around} {before : List Token}
      (h : p.Behind around before) (word : Position) (name : Option (String × Position))
      (opening : Position) :
      Behind (.firstParameter p around word (name.map Prod.fst))
        (before ++ functionTokens word name opening)
  | parameter {p : Pending} {around : Around} {before : List Token} (h : p.Behind around before)
      (word : Position) (name : Option (String × Position)) (opening : Position)
      (params : Parameters) (comma : Position) :
      Behind (.parameter p around word (name.map Prod.fst) params.names.reverse)
        (before ++ functionTokens word name opening ++ params.tokens ++ [⟨.comma, comma⟩])
  | parameterEnd {p : Pending} {around : Around} {before : List Token}
      (h : p.Behind around before) (word : Position) (name : Option (String × Position))
      (opening : Position) (params : Parameters) :
      Behind (.parameterEnd p around word (name.map Prod.fst) params.names.reverse)
        (before ++ functionTokens word name opening ++ params.tokens)
  | body {p : Pending} {around : Around} {owner : Owner} {before text : List Token}
      (h : p.Behind around before) (howner : owner.Text text) :
      Behind (.body p around owner) (before ++ text)
  | afterYes {p : Pending} {around : Around} {last : Branch} {outer : List Branch}
      {before text textL : List Token} (h : p.Behind around before)
      (houter : Branch.ChainText outer text) (hlast : last.Text textL) :
      Behind (.afterYes p around last outer) (before ++ text ++ textL)
  | afterElse {p : Pending} {around : Around} {b : Branch} {outer : List Branch}
      {before text : List Token} (h : p.Behind around before)
      (hbranches : Branch.ChainText (b :: outer) text) :
      Behind (.afterElse p around (b :: outer)) (before ++ text)

namespace Behind

variable {r r' : Reading} {before text : List Token} {p : Pending} {around : Around}
  {block : Block} {done : List Expr} {t : Token}

theorem of_eq (h : r.Behind before) (htext : before = text) : r.Behind text := htext ▸ h

theorem start : Reading.start.Behind [] := .statement .program .nil

theorem startOperand (h : p.Behind around before) (hstep : startOperand? p around t = some r') :
    r'.Behind (before ++ [t]) := by
  obtain ⟨symbol, pos⟩ := t
  cases symbol with
  | number digits =>
    cases hstep
    exact .operator h (.ofAtom (.number digits pos))
  | name name =>
    cases hstep
    exact .operator h (.ofAtom (.var name pos))
  | openParen =>
    cases hstep
    exact .operand (Around.Behind.bracket h pos).none
  | operator op =>
    cases op with
    | sub =>
      cases hstep
      exact .operand (h.minus pos)
    | _ => cases hstep
  | keyword k =>
    cases k with
    | trueWord =>
      cases hstep
      exact .operator h (.ofAtom (.trueWord pos))
    | falseWord =>
      cases hstep
      exact .operator h (.ofAtom (.falseWord pos))
    | null =>
      cases hstep
      exact .operator h (.ofAtom (.null pos))
    | print =>
      cases hstep
      exact .opening h (.print pos)
    | ifWord =>
      cases hstep
      exact .opening h (.branch .nil pos)
    | whileWord =>
      cases hstep
      exact .opening h (.loop pos)
    | function =>
      cases hstep
      exact .function h pos
    | _ => cases hstep
  | _ => cases hstep

theorem operand_read (h : p.Behind around before) (d : Derivation .call) {v : Operand}
    (hv : d.meaning = v) (htext : before ++ d.tokens = text) :
    Behind (.operator p around v) text := by
  subst hv htext
  exact .operator h d

theorem closeBlock (h : p.Behind around before) {owner : Owner} (howner : owner.Text text)
    (start : Position) {statements : List Token}
    (hdone : Derives .statements statements done.reverse) (closing : Position) :
    (closeBlock p around owner start done).Behind
      (before ++ text ++ [⟨.openBrace, start⟩] ++ statements ++ [⟨.closeBrace, closing⟩]) := by
  obtain ⟨d, rfl, hdone⟩ := hdone
  have hbody : Reading.block (some start) done = (Derivation.block start d closing).meaning := by
    rw [Reading.block, ← hdone]
    rfl
  unfold Reading.closeBlock
  rw [hbody]
  cases howner with
  | yes houter word opening test closing' =>
    have hlast : Branch.Text ⟨word, test.meaning.expr, _⟩ _ :=
      ⟨opening, test, closing', .block start d closing, rfl, rfl, rfl⟩
    exact (afterYes h houter hlast).of_eq (by simp)
  | no hbranches =>
    cases hbranches with
    | cons houter hb word =>
      obtain ⟨c, hc, hv⟩ := houter.derives (hb.derives (.elseBlock word (.block start d closing)))
      exact operand_read h (.ofAtom (.ofConditional c)) hv (by simp [hc])
  | loop word opening test closing' =>
    exact operand_read h (.ofAtom (.loop word opening test closing' (.block start d closing))) rfl
      (by simp)
  | function word name opening params closing' =>
    refine operand_read h (.ofAtom (.function word name opening params closing'
      (.block start d closing))) ?_ (by simp [functionTokens])
    cases name <;> rfl

/-- The end of an expression is the end of a production of whatever is open around it. -/
theorem endExpr (h : around.Behind before) (d : Derivation .expr)
    (hstep : endExpr? d.meaning around t.symbol = some r') :
    r'.Behind (before ++ d.tokens ++ [t]) := by
  obtain ⟨symbol, pos⟩ := t
  cases h with
  | statement hblock hdone hhead =>
    obtain ⟨s, hs, hv⟩ := hhead.statement d
    cases symbol with
    | separator =>
      cases hstep
      rw [← hv]
      exact (statement hblock (hdone.statement s pos)).of_eq (by simp [hs])
    | closeBrace =>
      cases hblock with
      | program => cases hstep
      | braces h howner start =>
        cases hstep
        rw [← hv]
        exact (closeBlock h howner start (hdone.derives_and s) pos).of_eq (by simp [hs])
    | _ => cases hstep
  | bracket h start =>
    cases symbol with
    | closeParen =>
      cases hstep
      exact operand_read h (.ofAtom (.bracket start d pos)) rfl (by simp)
    | _ => cases hstep
  | opening h hwhat opening =>
    cases symbol with
    | closeParen =>
      cases hwhat with
      | print word =>
        cases hstep
        exact operand_read h (.ofAtom (.print word opening d pos)) rfl
          (by simp)
      | branch houter word =>
        cases hstep
        exact (body h (.yes houter word opening d pos)).of_eq (by simp)
      | loop word =>
        cases hstep
        exact (body h (.loop word opening d pos)).of_eq (by simp)
    | _ => cases hwhat <;> cases hstep
  | argument h callee opening hdone =>
    cases symbol with
    | comma =>
      cases hstep
      exact (operand (Around.Behind.argument h callee opening (hdone.cons d pos)).none).of_eq
        (by simp)
    | closeParen =>
      cases hstep
      obtain ⟨args, hargs, hv⟩ := hdone.derives (.argument d)
      refine operand_read h (.applicationTo callee opening args pos) ?_
        (by simp [hargs])
      rw [Derivation.meaning, hv, Derivation.meaning, List.reverse_cons]
      rfl
    | _ => cases hstep

theorem endWhole (h : p.Behind around before) (d : Derivation .call)
    (hstep : endExpr? (p.whole d.meaning) around t.symbol = some r') :
    r'.Behind (before ++ d.tokens ++ [t]) := by
  obtain ⟨haround, hp⟩ := h
  obtain ⟨e, he, hv⟩ := hp.whole d
  rw [← hv] at hstep
  exact (endExpr haround e hstep).of_eq (by simp [he])

theorem afterOperand (h : p.Behind around before) (d : Derivation .call)
    (hstep : afterOperand? p around d.meaning t = some r') :
    r'.Behind (before ++ d.tokens ++ [t]) := by
  obtain ⟨symbol, pos⟩ := t
  cases symbol with
  | openParen =>
    cases hstep
    exact .firstArgument h d pos
  | operator op =>
    obtain ⟨p', hp', rfl⟩ := Option.map_eq_some_iff.mp hstep
    obtain ⟨haround, hp⟩ := h
    exact (operand (.mk haround (hp.operator d hp' pos))).of_eq (by simp)
  | _ => exact endWhole h d hstep

theorem bareStatement {rows : List Token} (hblock : block.Behind before)
    (hdone : StatementsText done rows) :
    Pending.none.Behind (.statement block done .bare) (before ++ rows) := by
  simpa using (Around.Behind.statement hblock hdone .bare).none

theorem startStatement {rows : List Token} (hblock : block.Behind before)
    (hdone : StatementsText done rows) (hstep : startStatement? block done t = some r') :
    r'.Behind (before ++ rows ++ [t]) := by
  obtain ⟨symbol, pos⟩ := t
  cases symbol with
  | separator =>
    cases hstep
    exact (statement hblock (hdone.separator pos)).of_eq (by simp)
  | name name =>
    cases hstep
    exact .leadingName hblock hdone name pos
  | closeBrace =>
    cases hblock with
    | program => cases hstep
    | braces h howner start =>
      cases hstep
      exact closeBlock h howner start hdone.derives pos
  | keyword k =>
    cases k with
    | var =>
      cases hstep
      exact .declaration hblock hdone pos
    | _ => exact startOperand (bareStatement hblock hdone) hstep
  | _ => exact startOperand (bareStatement hblock hdone) hstep

/-- A conditional needs no `else` to be an operand. -/
theorem derives_withoutElse {last : Branch} {outer : List Branch} {textL : List Token}
    (houter : Branch.ChainText outer text) (hlast : last.Text textL) :
    Derives .call (text ++ textL) (withoutElse last outer) := by
  obtain ⟨c, hc, hv⟩ := houter.derives (hlast.derives .noElse)
  exact ⟨.ofAtom (.ofConditional c), by simpa using hc, hv⟩

theorem afterConditional (h : p.Behind around before) {last : Branch} {outer : List Branch}
    {textL : List Token} (houter : Branch.ChainText outer text) (hlast : last.Text textL)
    (hstep : afterOperand? p around (withoutElse last outer) t = some r') :
    r'.Behind (before ++ text ++ textL ++ [t]) := by
  obtain ⟨d, hd, hv⟩ := derives_withoutElse houter hlast
  rw [← hv] at hstep
  exact (afterOperand h d hstep).of_eq (by simp [hd])

/-- Reading keeps a point behind what has been read. -/
theorem step (h : r.Behind before) (hstep : r.step? t = some r') : r'.Behind (before ++ [t]) := by
  obtain ⟨symbol, pos⟩ := t
  cases h with
  | statement hblock hdone => exact startStatement hblock hdone hstep
  | leadingName hblock hdone name start =>
    cases symbol with
    | assign =>
      cases hstep
      have h := Around.Behind.statement hblock hdone (.assign name start pos)
      exact (operand h.none).of_eq (by simp)
    -- a name with anything else behind it is an operand
    | _ => exact afterOperand (bareStatement hblock hdone) (.ofAtom (.var name start)) hstep
  | declaration hblock hdone word =>
    cases symbol with
    | name name =>
      cases hstep
      exact (declaredName hblock hdone word name pos).of_eq (by simp)
    | _ => cases hstep
  | declaredName hblock hdone word name namePos =>
    cases symbol with
    | assign =>
      cases hstep
      have h := Around.Behind.statement hblock hdone (.declare word name namePos pos)
      exact (operand h.none).of_eq (by simp)
    | _ => cases hstep
  | operand h => exact startOperand h hstep
  | operator h d => exact afterOperand h d hstep
  | opening h hwhat =>
    cases symbol with
    | openParen =>
      cases hstep
      exact .operand (Around.Behind.opening h hwhat pos).none
    | _ => cases hstep
  | firstArgument h callee opening =>
    cases symbol with
    | closeParen =>
      cases hstep
      exact operand_read h (.application callee opening pos) rfl (by simp)
    | _ => exact startOperand (Around.Behind.argument h callee opening .nil).none hstep
  | function h word =>
    cases symbol with
    | name name =>
      cases hstep
      exact (functionName h word name pos).of_eq (by simp)
    | openParen =>
      cases hstep
      exact (firstParameter h word none pos).of_eq (by simp [functionTokens])
    | _ => cases hstep
  | functionName h word name namePos =>
    cases symbol with
    | openParen =>
      cases hstep
      exact (firstParameter h word (some (name, namePos)) pos).of_eq
        (by simp [functionTokens, Parameters.nameToken])
    | _ => cases hstep
  | firstParameter h word name opening =>
    cases symbol with
    | closeParen =>
      cases hstep
      exact (body h (.function word name opening none pos)).of_eq (by simp)
    | name param =>
      cases hstep
      exact parameterEnd h word name opening ⟨(param, pos), []⟩
    | _ => cases hstep
  | parameter h word name opening params comma =>
    cases symbol with
    | name param =>
      cases hstep
      have hdone : param :: params.names.reverse =
          (params.add comma (param, pos)).names.reverse := by simp [Parameters.names_add]
      rw [hdone]
      exact (parameterEnd h word name opening (params.add comma (param, pos))).of_eq
        (by simp [Parameters.tokens_add, Parameters.nameToken])
    | _ => cases hstep
  | parameterEnd h word name opening params =>
    cases symbol with
    | comma =>
      cases hstep
      exact .parameter h word name opening params pos
    | closeParen =>
      cases hstep
      rw [List.reverse_reverse]
      exact (body h (.function word name opening (some params) pos)).of_eq (by simp)
    | _ => cases hstep
  | body h howner =>
    cases symbol with
    | openBrace =>
      cases hstep
      exact (statement (.braces h howner pos) .nil).of_eq (by simp)
    | _ => cases hstep
  | afterYes h houter hlast =>
    cases symbol with
    | keyword k =>
      cases k with
      | elseWord =>
        cases hstep
        exact (afterElse h (.cons houter hlast pos)).of_eq (by simp)
      | _ => exact afterConditional h houter hlast hstep
    | _ => exact afterConditional h houter hlast hstep
  | afterElse h hbranches =>
    cases symbol with
    | openBrace =>
      cases hstep
      exact (statement (.braces h (.no hbranches) pos) .nil).of_eq (by simp)
    | keyword k =>
      cases k with
      | ifWord =>
        cases hstep
        exact (Reading.Behind.opening h (.branch hbranches pos)).of_eq (by simp)
      | _ => cases hstep
    | _ => cases hstep

theorem endProgram (h : p.Behind around before) (d : Derivation .call)
    (hend : endProgram? (p.whole d.meaning) around = some done) :
    Derives .statements (before ++ d.tokens) done.reverse := by
  obtain ⟨haround, hp⟩ := h
  obtain ⟨e, he, hv⟩ := hp.whole d
  rw [← hv] at hend
  cases haround with
  | bracket | opening | argument => cases hend
  | statement hblock hdone hhead =>
    cases hblock with
    | braces => cases hend
    | program =>
      cases hend
      obtain ⟨s, hs, hv⟩ := hhead.statement e
      rw [← hv, List.append_assoc, ← he, List.nil_append, List.append_assoc, ← hs]
      exact hdone.derives_and s

theorem finish (h : r.Behind before) (hfinish : r.finish? = some done) :
    Derives .statements before done.reverse := by
  cases h with
  | statement hblock hdone =>
    cases hblock with
    | braces => cases hfinish
    | program =>
      cases hfinish
      exact hdone.derives
  | leadingName hblock hdone name start =>
    exact endProgram (bareStatement hblock hdone) (.ofAtom (.var name start)) hfinish
  | operator h d => exact endProgram h d hfinish
  | afterYes h houter hlast =>
    obtain ⟨d, hd, hv⟩ := derives_withoutElse houter hlast
    rw [finish?, ← hv] at hfinish
    rw [List.append_assoc, ← hd]
    exact endProgram h d hfinish
  | _ => cases hfinish

theorem run (h : r.Behind before) {rest : List Token} (hrun : r.run? rest = some done) :
    Derives .statements (before ++ rest) done.reverse := by
  induction rest generalizing r before with
  | nil => simpa using h.finish hrun
  | cons t rest ih =>
    obtain ⟨r', hstep, hrun⟩ := Option.bind_eq_some_iff.mp hrun
    simpa using ih (h.step hstep) hrun

end Behind

/-- The grammar and the reader agree on the texts of programs and on what they stand for. -/
theorem run?_start_iff {text : List Token} {done : List Expr} :
    run? start text = some done ↔ Derives .statements text done.reverse := by
  constructor
  · intro hrun
    simpa using Behind.start.run hrun
  · rintro ⟨d, rfl, hd⟩
    rw [d.run?_start, hd, List.reverse_reverse]

end Reading

end Scriptlet
