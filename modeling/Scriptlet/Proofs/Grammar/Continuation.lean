import Scriptlet.Proofs.Grammar.Parse
import Scriptlet.Proofs.Scanning.Lexemes

/-! Which texts can be continued. Every point that reading comes to can be led to the end of a
program: all that is open can be closed. So reading stops at the first token with which the text
cannot be continued. -/

namespace Scriptlet

/-! ### What ends an unfinished program -/

/-- A condition or a parameter list is followed by a block, which may be empty. -/
def Opening.closing : Opening → List Symbol
  | .print _ => []
  | .branch .. | .loop _ => [.openBrace, .closeBrace]

mutual

/-- What ends an expression and all that is open around it. -/
def Around.closing : Around → List Symbol
  | .statement block _ _ => block.closing
  | .bracket _ around _ | .argument _ around _ _ => .closeParen :: around.closing
  | .opening _ around what => .closeParen :: what.closing ++ around.closing

/-- What ends the statements of a block and all that is open around it. -/
def Block.closing : Block → List Symbol
  | .program => []
  | .braces _ around _ _ => .closeBrace :: around.closing

end

namespace Reading

/-- Symbols that end the program at a point. -/
def closing : Reading → List Symbol
  | .statement block _ | .leadingName block .. => block.closing
  | .declaration block .. => [.name "x", .assign, .keyword .null] ++ block.closing
  | .declaredName block .. => [.assign, .keyword .null] ++ block.closing
  | .operand _ around => [.keyword .null] ++ around.closing
  | .operator _ around _ | .afterYes _ around _ _ => around.closing
  | .opening p around what => [.openParen, .keyword .null] ++ (Around.opening p around what).closing
  | .firstArgument _ around _ => [.closeParen] ++ around.closing
  | .function _ around _ | .functionName _ around _ _ =>
    [.openParen, .closeParen, .openBrace, .closeBrace] ++ around.closing
  | .firstParameter _ around _ _ | .parameterEnd _ around _ _ _ =>
    [.closeParen, .openBrace, .closeBrace] ++ around.closing
  | .parameter _ around _ _ _ =>
    [.name "x", .closeParen, .openBrace, .closeBrace] ++ around.closing
  | .body _ around _ | .afterElse _ around _ => [.openBrace, .closeBrace] ++ around.closing

/-- Whether symbols lead from a point to the end of a program. -/
def Completes (r : Reading) (ss : List Symbol) : Prop :=
  ∃ done, r.run? (ss.map (⟨·, .start⟩)) = some done

variable {r r' : Reading} {s : Symbol} {ss : List Symbol} {p : Pending} {around : Around}

theorem completes_cons (hstep : r.step? ⟨s, .start⟩ = some r') (h : r'.Completes ss) :
    r.Completes (s :: ss) := by
  obtain ⟨done, hdone⟩ := h
  exact ⟨done, (run?_of_step? hstep _).trans hdone⟩

theorem closing_next (around : Around) :
    Next Symbol.AfterCall (around.closing.map (⟨·, .start⟩)) := by
  cases around with
  | statement block done head =>
    cases block <;> simp [Around.closing, Block.closing, Symbol.AfterCall]
  | _ => simp [Around.closing, Symbol.AfterCall]

/-- A closed block is an operand, or a conditional that needs nothing more to be one. -/
theorem completes_closeBlock
    (h : ∀ v, (Reading.operator p around v).Completes around.closing) (owner : Owner)
    (start : Position) (done : List Expr) :
    (closeBlock p around owner start done).Completes around.closing := by
  cases owner with
  | yes word test outer =>
    obtain ⟨done', hdone⟩ := h (withoutElse ⟨word, test, block (some start) done⟩ outer)
    exact ⟨done', (run?_afterYes (closing_next around)).trans hdone⟩
  | no | loop | function => exact h _

/-- An empty block where one has to start. -/
theorem completes_braces
    (h : ∀ v, (Reading.operator p around v).Completes around.closing) {owner : Owner}
    (hstep : r.step? ⟨.openBrace, .start⟩ = some (.statement (.braces p around owner .start) [])) :
    r.Completes ([.openBrace, .closeBrace] ++ around.closing) :=
  completes_cons hstep (completes_cons rfl (completes_closeBlock h owner .start []))

/-- Whatever is open can be closed. -/
theorem completes_operator (around : Around) (p : Pending) (v : Operand) :
    (Reading.operator p around v).Completes around.closing := by
  match around with
  | .statement .program done head => exact ⟨_, rfl⟩
  | .statement (.braces p' around' owner start) done head =>
    exact completes_cons rfl (completes_closeBlock (completes_operator around' p') owner start _)
  | .bracket p' around' start | .argument p' around' callee done =>
    exact completes_cons rfl (completes_operator around' p' _)
  | .opening p' around' (.print start) =>
    exact completes_cons rfl (completes_operator around' p' _)
  | .opening p' around' (.branch start outer) | .opening p' around' (.loop start) =>
    exact completes_cons rfl (completes_braces (completes_operator around' p') rfl)

theorem completes_statement (block : Block) (done : List Expr) :
    (Reading.statement block done).Completes block.closing := by
  cases block with
  | program => exact ⟨_, rfl⟩
  | braces p around owner start =>
    exact completes_cons rfl (completes_closeBlock (completes_operator around p) owner start done)

/-- Every point can be led to the end of a program. -/
theorem completes_closing (r : Reading) : r.Completes r.closing := by
  cases r with
  | statement block done => exact completes_statement block done
  | leadingName block done name start =>
    obtain ⟨done', hdone⟩ :=
      completes_operator (.statement block done .bare) .none (nameOperand name start)
    have hnext := closing_next (.statement block done .bare)
    exact ⟨done', (run?_leadingName (hnext.mono fun _ h => h.2)).trans hdone⟩
  | declaration block done start =>
    exact completes_cons rfl (completes_cons rfl (completes_cons rfl
      (completes_operator (.statement block done (.declare _ _)) _ _)))
  | declaredName block done start name =>
    exact completes_cons rfl (completes_cons rfl
      (completes_operator (.statement block done (.declare _ _)) _ _))
  | operand p around => exact completes_cons rfl (completes_operator around p _)
  | operator p around v => exact completes_operator around p v
  | opening p around what =>
    exact completes_cons rfl (completes_cons rfl (completes_operator (.opening p around what) _ _))
  | firstArgument p around callee => exact completes_cons rfl (completes_operator around p _)
  | function p around start | functionName p around start name =>
    exact completes_cons rfl (completes_cons rfl
      (completes_braces (completes_operator around p) rfl))
  | firstParameter p around start name | parameterEnd p around start name done =>
    exact completes_cons rfl (completes_braces (completes_operator around p) rfl)
  | parameter p around start name done =>
    exact completes_cons rfl (completes_cons rfl
      (completes_braces (completes_operator around p) rfl))
  | body p around owner | afterElse p around branches =>
    exact completes_braces (completes_operator around p) rfl
  | afterYes p around last outer =>
    obtain ⟨done, hdone⟩ := completes_operator around p (withoutElse last outer)
    exact ⟨done, (run?_afterYes (closing_next around)).trans hdone⟩

theorem isProper_around_closing (around : Around) : ∀ s ∈ around.closing, s.isProper = true := by
  match around with
  | .statement .program _ _ => simp [Around.closing, Block.closing]
  | .statement (.braces _ around' _ _) _ _ =>
    exact List.forall_mem_cons.mpr ⟨rfl, isProper_around_closing around'⟩
  | .bracket _ around' _ | .argument _ around' _ _ =>
    exact List.forall_mem_cons.mpr ⟨rfl, isProper_around_closing around'⟩
  | .opening _ around' what =>
    have hwhat : ∀ s ∈ what.closing, s.isProper = true := by
      cases what <;> simp [Opening.closing, Symbol.isProper]
    exact List.forall_mem_cons.mpr ⟨rfl, List.forall_mem_append.mpr
      ⟨hwhat, isProper_around_closing around'⟩⟩

theorem isProper_block_closing (block : Block) : ∀ s ∈ block.closing, s.isProper = true :=
  isProper_around_closing (.statement block [] .bare)

/-- All that is used to end a program can be written. -/
theorem isProper_closing (r : Reading) : ∀ s ∈ r.closing, s.isProper = true := by
  cases r with
  | statement block | leadingName block => exact isProper_block_closing block
  | declaration block | declaredName block =>
    exact List.forall_mem_append.mpr ⟨by decide, isProper_block_closing block⟩
  | operator p around v | afterYes p around => exact isProper_around_closing around
  | opening p around what =>
    exact List.forall_mem_append.mpr ⟨by decide, isProper_around_closing (.opening p around what)⟩
  | operand p around | firstArgument p around | function p around | functionName p around
  | firstParameter p around | parameterEnd p around | parameter p around | body p around
  | afterElse p around =>
    exact List.forall_mem_append.mpr ⟨by decide, isProper_around_closing around⟩

/-! ### Reading to the end -/

theorem readAll_append (r : Reading) (ts us : List Token) :
    r.readAll (ts ++ us) = (r.readAll ts).bind (·.readAll us) := by
  induction ts generalizing r with
  | nil => rfl
  | cons t ts ih =>
    rw [List.cons_append, readAll, readAll]
    cases r.step? t with
    | none => rfl
    | some r' => exact ih r'

theorem run?_append_iff {r : Reading} {ts more : List Token} {done : List Expr} :
    r.run? (ts ++ more) = some done ↔
      ∃ r', r.readAll ts = .ok r' ∧ r'.run? more = some done := by
  simp only [run?_eq_some_iff, readAll_append]
  cases r.readAll ts <;> simp [Except.bind]

/-- Reading stops at a token for which the point before it has no place. -/
theorem exists_of_readAll_eq_error {r : Reading} {ts : List Token} {t : Token}
    (h : r.readAll ts = .error t) :
    ∃ before after r', ts = before ++ t :: after ∧ r.readAll before = .ok r' ∧
      r'.step? t = none := by
  induction ts generalizing r with
  | nil => cases h
  | cons u ts ih =>
    rw [readAll] at h
    cases hstep : r.step? u with
    | none =>
      simp only [hstep, Except.error.injEq] at h
      subst h
      exact ⟨[], ts, r, rfl, rfl, hstep⟩
    | some r₁ =>
      rw [hstep] at h
      obtain ⟨before, after, r', rfl, hbefore, hnone⟩ := ih h
      refine ⟨u :: before, after, r', rfl, ?_, hnone⟩
      rw [readAll, hstep]
      exact hbefore

end Reading

/-! ### Texts that can be continued -/

/-- Whether tokens can be continued to a text of the grammar, by tokens that can be written. -/
def Continues (ts : List Token) : Prop :=
  ∃ more : List Token, (∀ t ∈ more, t.symbol.isProper = true) ∧
    ∃ d : Derivation .statements, d.tokens = ts ++ more

open Reading in
/-- Reading gets through a text if and only if the text can be continued. -/
theorem continues_iff {ts : List Token} : Continues ts ↔ ∃ r, start.readAll ts = .ok r := by
  constructor
  · rintro ⟨more, -, d, hd⟩
    have hrun := d.run?_start
    rw [hd, run?_append_iff] at hrun
    obtain ⟨r, hr, -⟩ := hrun
    exact ⟨r, hr⟩
  · rintro ⟨r, hr⟩
    obtain ⟨done, hdone⟩ := r.completes_closing
    obtain ⟨d, hd, -⟩ := run?_start_iff.mp (run?_append_iff.mpr ⟨r, hr, hdone⟩)
    refine ⟨_, ?_, d, hd⟩
    intro t ht
    obtain ⟨s, hs, rfl⟩ := List.mem_map.mp ht
    exact r.isProper_closing s hs

open Reading in
/-- Reading stops at the first token with which the text cannot be continued. -/
theorem readAll_eq_error_iff {ts : List Token} {t : Token} :
    start.readAll ts = .error t ↔
      ∃ before after, ts = before ++ t :: after ∧ Continues before ∧
        ¬ Continues (before ++ [t]) := by
  have hlast {before : List Token} {r : Reading} (hr : start.readAll before = .ok r) :
      Continues (before ++ [t]) ↔ r.step? t ≠ none := by
    rw [continues_iff, readAll_append, hr]
    cases hstep : r.step? t <;> simp [Except.bind, readAll, hstep]
  constructor
  · intro h
    obtain ⟨before, after, r, rfl, hr, hnone⟩ := exists_of_readAll_eq_error h
    exact ⟨before, after, rfl, continues_iff.mpr ⟨r, hr⟩, fun hc => (hlast hr).mp hc hnone⟩
  · rintro ⟨before, after, rfl, hbefore, hnot⟩
    obtain ⟨r, hr⟩ := continues_iff.mp hbefore
    have hnone : r.step? t = none := not_not.mp fun hstep => hnot ((hlast hr).mpr hstep)
    rw [readAll_append, hr, Except.bind, readAll, hnone]

end Scriptlet
