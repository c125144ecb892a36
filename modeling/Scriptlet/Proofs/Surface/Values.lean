import Scriptlet.CommandLine
import Scriptlet.Proofs.Identity.Closures
import Scriptlet.Proofs.Surface.Printing

/-! The texts of values. A number is written with its digits, behind a minus sign if it is negative,
and what is written so is read as a literal or as the negation of one. Main statement: the text of a
value is a program that gives this value. -/

namespace Scriptlet

/-! ### Digits -/

namespace Number

/-- How many digits the text of a number has. -/
def digits (n : Int) : Nat := (text n).toList.countP Char.isDigit

theorem text_of_neg {n : Int} (hn : n < 0) : text n = "-" ++ n.natAbs.repr := if_pos hn

theorem text_of_nonneg {n : Int} (hn : ¬ n < 0) : text n = n.natAbs.repr := if_neg hn

theorem ofDigits_repr (n : Nat) : ofDigits n.repr.toList = n := by
  rw [Nat.toList_repr, ofDigits_toDigits]

theorem countP_isDigit_repr (n : Nat) :
    n.repr.toList.countP Char.isDigit = (Nat.toDigits 10 n).length := by
  rw [Nat.toList_repr, List.countP_eq_length]
  exact fun c hc => Nat.isDigit_of_mem_toDigits (by decide) (by decide) hc

/-- The sign is no digit. -/
theorem digits_eq (n : Int) : digits n = (Nat.toDigits 10 n.natAbs).length := by
  unfold digits
  by_cases hn : n < 0
  · rw [text_of_neg hn, String.toList_append, List.countP_append, countP_isDigit_repr]
    exact Nat.zero_add _
  · rw [text_of_nonneg hn, countP_isDigit_repr]

theorem digits_le_iff {n : Int} : digits n ≤ digitLimit ↔ n.natAbs < bound := by
  rw [digits_eq, length_toDigits_le_iff]

end Number

/-- The values that can be written down: all but closures and numbers with too many digits. -/
inductive Value.Literal : Value → Prop where
  | number {n : Int} (hn : Number.digits n ≤ Number.digitLimit) : Literal (.number n)
  | bool (b : Bool) : Literal (.bool b)
  | null : Literal .null

theorem Value.Literal.writable {v : Value} (hv : v.Literal) : v.writable = true := by
  cases hv with
  | number hn => simpa [Value.writable, Number.writable] using Number.digits_le_iff.mp hn
  | bool | null => rfl

/-! ### What is read -/

/-- The expression gives the value wherever it is evaluated, and does nothing else. -/
def Expr.Gives (e : Expr) (v : Value) : Prop :=
  ∀ rounds depth f s, evalWithin rounds (depth + 2) e f s = .ok v s

theorem Expr.gives_const (pos : Option Position) (v : Value) : (Expr.const pos v).Gives v :=
  fun _ _ _ _ => rfl

/-- A number behind a minus sign. -/
theorem Expr.gives_negation (pos pos' : Option Position) (n : Int) :
    (Expr.binary pos .sub (.const pos (.number 0)) (.const pos' (.number n))).Gives
      (.number (0 - n)) :=
  fun _ _ _ _ => rfl

namespace Program

/-- The text is one operand, which gives the value. -/
def Denotes (source : String) (v : Value) : Prop :=
  ∃ d : Derivation .unary, Scan.Reads .start source.toList d.tokens ∧
    (∀ check ∈ d.checks, check.Ok) ∧ d.meaning.expr.Gives v

theorem Denotes.parse {source : String} {v : Value} (h : Denotes source v) :
    ∃ e, Program.parse source = .ok e ∧ e.Gives v := by
  obtain ⟨d, hreads, hchecks, hgives⟩ := h
  let row : Derivation .statements :=
    .statementsAnd [] .noRow (.bare (.ofSum (.ofProduct (.ofUnary d))))
  have htokens : row.tokens = d.tokens := by simp [row, Derivation.separatorTokens]
  have hstatements : Statements source [d.meaning.expr] :=
    ⟨row, htokens.symm ▸ hreads, by simpa [row] using hchecks, rfl⟩
  exact ⟨_, parse_iff_statements.mpr ⟨_, hstatements, rfl⟩, hgives⟩

theorem reads_symbol {s : Symbol} (hs : s.isProper = true) (p : Position) :
    Scan.Reads p s.text.toList [⟨s, p⟩] := by
  have hreads := Scan.Reads.token (p := p) hs s.ends_nil .nil
  rwa [List.append_nil] at hreads

theorem denotes_atom {s : Symbol} (hs : s.isProper = true) {v : Value} (d : Derivation .atom)
    (htokens : d.tokens = [⟨s, .start⟩]) (hchecks : ∀ check ∈ d.checks, check.Ok)
    (hgives : d.meaning.expr.Gives v) : Denotes s.text v := by
  refine ⟨.ofCall (.ofAtom d), ?_, hchecks, hgives⟩
  have hreads := reads_symbol hs .start
  rwa [← htokens] at hreads

theorem denotes_bool (b : Bool) : Denotes (if b then "true" else "false") (.bool b) := by
  cases b with
  | true =>
    exact denotes_atom (s := .keyword .trueWord) rfl (.trueWord .start) rfl (by simp)
      (Expr.gives_const _ _)
  | false =>
    exact denotes_atom (s := .keyword .falseWord) rfl (.falseWord .start) rfl (by simp)
      (Expr.gives_const _ _)

theorem denotes_null : Denotes "null" .null :=
  denotes_atom (s := .keyword .null) rfl (.null .start) rfl (by simp) (Expr.gives_const _ _)

section Numerals

variable {n : Nat} (hn : n < Number.bound)
include hn

theorem denotes_numeral : Denotes n.repr (.number n) := by
  refine denotes_atom (s := .number n.repr) (Number.isNumeral_repr n) (.number n.repr .start) rfl
    ?_ ?_
  · simpa [Check.Ok] using Number.length_repr_le hn
  · change (Expr.const _ (.number (Number.ofDigits n.repr.toList))).Gives _
    rw [Number.ofDigits_repr]
    exact Expr.gives_const _ _

theorem denotes_negative : Denotes ("-" ++ n.repr) (.number (-n)) := by
  let p : Position := .after .start ['-']
  refine ⟨.negation .start (.ofCall (.ofAtom (.number n.repr p))), ?_, ?_, ?_⟩
  · have hreads := reads_symbol (s := .number n.repr) (Number.isNumeral_repr n) p
    rw [String.toList_append]
    exact Scan.Reads.token (s := .operator .sub) rfl (fun _ _ => rfl) hreads
  · simpa [Check.Ok] using Number.length_repr_le hn
  · change (Expr.binary _ .sub _ (.const _ (.number (Number.ofDigits n.repr.toList)))).Gives _
    rw [Number.ofDigits_repr, ← Int.zero_sub]
    exact Expr.gives_negation _ _ _

end Numerals

theorem denotes_number {n : Int} (hn : Number.digits n ≤ Number.digitLimit) :
    Denotes (Number.text n) (.number n) := by
  rw [Number.digits_le_iff] at hn
  by_cases hneg : n < 0
  · have hdenotes := denotes_negative hn
    have hsame : -(n.natAbs : Int) = n := by omega
    rwa [hsame, ← Number.text_of_neg hneg] at hdenotes
  · have hdenotes := denotes_numeral hn
    have hsame : (n.natAbs : Int) = n := by omega
    rwa [hsame, ← Number.text_of_nonneg hneg] at hdenotes

end Program

/-- A value that can be written down is what its text denotes. -/
theorem Value.Literal.denotes {v : Value} (hv : v.Literal) (h : Heap) :
    Program.Denotes (h.text v) v := by
  cases hv with
  | number hn => exact Program.denotes_number hn
  | bool b => exact Program.denotes_bool b
  | null => exact Program.denotes_null

/-- A number within the limit of digits, a boolean or null has a text, which is the line that
printing the value makes and what the command line shows of a program that gives it. The text is
itself a program: in a new environment, strict or lax and in whatever state, if evaluation may go
two levels deep, it gives a value that is equal to the first one and prints nothing. -/
theorem text_runs_as_value {v : Value} (hv : v.Literal) (s : State) :
    EvalM.textOf v s = .ok (s.heap.text v) s ∧
    EvalM.print v s = .ok () { s with printed := s.printed.push (s.heap.text v) } ∧
    (∀ vars trace limit, (CommandLine.ofRun vars trace limit (.ok v s)).output =
      s.output ++ s.heap.text v ++ "\n") ∧
    ∀ (limits : Limits) (strict : Bool) (t : State), 2 ≤ limits.depth →
      ∃ w t', Program.runFresh limits strict (s.heap.text v) t = .ok w t' ∧
        t'.printed = t.printed ∧ t'.heap.Same w v := by
  refine ⟨?_, ?_, ?_, ?_⟩
  · rw [EvalM.textOf_eq, if_pos hv.writable]
  · rw [EvalM.print_eq, if_pos hv.writable]
  · intro vars trace limit
    rw [CommandLine.ofRun, if_pos hv.writable]
  · intro limits strict t hdepth
    obtain ⟨e, hparse, hgives⟩ := (hv.denotes s.heap).parse
    obtain ⟨depth, hd⟩ := Nat.exists_eq_add_of_le' hdepth
    refine ⟨v, { t with heap := t.heap.pushFrame none (some strict) }, ?_, rfl,
      Heap.same_iff.mpr rfl⟩
    rw [Program.runFresh_of_ok hparse, limits.evalFresh_apply, Limits.eval, hd]
    exact hgives _ _ _ _

/-- A negative number is written with a minus sign, which is read as a subtraction from zero. -/
theorem negative_number_runs :
    (Value.number (-120)).Literal ∧ State.empty.heap.text (.number (-120)) = "-120" ∧
      2 ≤ Limits.standard.depth ∧
      ∃ w t, Program.runFresh .standard true "-120" .empty = .ok w t ∧ t.printed = #[] ∧
        t.heap.Same w (.number (-120)) := by
  have hv : (Value.number (-120)).Literal := .number (by decide +kernel)
  have htext : State.empty.heap.text (.number (-120)) = "-120" := by decide +kernel
  have hdepth : 2 ≤ Limits.standard.depth := by decide
  obtain ⟨-, -, -, hruns⟩ := text_runs_as_value hv .empty
  rw [htext] at hruns
  exact ⟨hv, htext, hdepth, hruns .standard true .empty hdepth⟩

end Scriptlet
