import Scriptlet.Proofs.Grammar.Continuation
import Scriptlet.Proofs.Grammar.Occurrence
import Scriptlet.Proofs.Positions.Erasure

/-! What may be put in the place of something else. Where a part of a derivation gives way to one
that stands for the same, so does the whole. Brackets around an expression and separators around
statements are such changes. -/

namespace Scriptlet

open Scriptlet.Expr

theorem Expr.erase_getD {a b : Option Expr} (h : a.toList.map erase = b.toList.map erase)
    (e : Expr) : (a.getD e).erase = (b.getD e).erase := by
  cases a <;> cases b <;> simp_all

theorem Expr.erase_sequence?_congr {es es' : List Expr} (h : es.map erase = es'.map erase)
    (pos : Option Position) : ((sequence? es).getD (.const pos .null)).erase =
      ((sequence? es').getD (.const pos .null)).erase := by
  rw [erase_sequence?, erase_sequence?, h]

namespace Derivation

variable {c k : Nonterminal} {d : Derivation c} {part : Part c}

/-- A part that stands for the same leaves what the whole stands for. -/
theorem Same.fill (hp : part ∈ d.parts) {e e' : Derivation part.kind} (h : Same e e') :
    Same (part.fill e) (part.fill e') := by
  obtain ⟨hexprs, hchecks⟩ := h
  cases d <;> simp only [parts, List.mem_cons, List.not_mem_nil, or_false] at hp
  all_goals rcases hp with rfl | rfl | rfl
  all_goals refine ⟨?_, by simp [or_imp, forall_and, hchecks]⟩
  case function word name opening params closing body =>
    cases name <;> simp_all [erase]
  all_goals simp_all [erase, binary, apply]
  case block opening body closing => exact erase_sequence?_congr hexprs _
  case applicationTo.inr callee opening args closing =>
    rw [relocateAll_eq_map, relocateAll_eq_map]
    exact hexprs
  case conditional.inr.inr word opening test closing yes no => exact erase_getD hexprs _

/-- What occurs may be replaced by what stands for the same. -/
theorem Occurs.replace {o o' : Derivation k} {before after : List Token}
    (h : Occurs d before o after) (hsame : Same o' o) :
    ∃ d' : Derivation c, d'.tokens = before ++ o'.tokens ++ after ∧ Same d' d := by
  induction h with
  | self d => exact ⟨o', by simp, hsame⟩
  | inner hp h ih =>
    obtain ⟨d', htokens, hd'⟩ := ih hsame
    refine ⟨_, ?_, fill_self hp ▸ hd'.fill hp⟩
    rw [tokens_fill hp, htokens]
    simp

/-! ### Brackets -/

/-- An expression of any kind in brackets is one of the same kind. -/
theorem exists_bracketed (hk : k ∈ [Nonterminal.expr, .sum, .product, .unary, .call, .atom])
    (o : Derivation k) (opening closing : Position) :
    ∃ o' : Derivation k, o'.tokens = ⟨.openParen, opening⟩ :: o.tokens ++ [⟨.closeParen, closing⟩] ∧
      Same o' o := by
  simp only [List.mem_cons, List.not_mem_nil, or_false] at hk
  rcases hk with rfl | rfl | rfl | rfl | rfl | rfl
  · exact ⟨.ofSum (.ofProduct (.ofUnary (.ofCall (.ofAtom (.bracket opening o closing))))),
      rfl, rfl, Iff.rfl⟩
  · exact ⟨.ofProduct (.ofUnary (.ofCall (.ofAtom (.bracket opening (.ofSum o) closing)))),
      rfl, rfl, Iff.rfl⟩
  · exact ⟨.ofUnary (.ofCall (.ofAtom (.bracket opening (.ofSum (.ofProduct o)) closing))),
      rfl, rfl, Iff.rfl⟩
  · exact ⟨.ofCall (.ofAtom (.bracket opening (.ofSum (.ofProduct (.ofUnary o))) closing)),
      rfl, rfl, Iff.rfl⟩
  · exact ⟨.ofAtom (.bracket opening (.ofSum (.ofProduct (.ofUnary (.ofCall o)))) closing),
      rfl, rfl, Iff.rfl⟩
  · exact ⟨.bracket opening (.ofSum (.ofProduct (.ofUnary (.ofCall (.ofAtom o))))) closing,
      rfl, rfl, Iff.rfl⟩

/-! ### Separators -/

/-- Statements take separators before them. -/
theorem exists_separatorsBefore (o : Derivation .statements) (seps : List Position) :
    ∃ o' : Derivation .statements, o'.tokens = separatorTokens seps ++ o.tokens ∧ Same o' o := by
  cases o with
  | statements seps' rows =>
    exact ⟨.statements (seps ++ seps') rows, by simp [separatorTokens], rfl, Iff.rfl⟩
  | statementsAnd seps' rows last =>
    exact ⟨.statementsAnd (seps ++ seps') rows last, by simp [separatorTokens], rfl, Iff.rfl⟩

/-- Statements take separators behind them. -/
theorem exists_separatorsBehind (o : Derivation .statements) (seps : List Position) :
    ∃ o' : Derivation .statements, o'.tokens = o.tokens ++ separatorTokens seps ∧ Same o' o := by
  cases o with
  | statements seps' rows =>
    cases rows with
    | noRow => exact ⟨.statements (seps' ++ seps) .noRow, by simp [separatorTokens], rfl, Iff.rfl⟩
    | row before statement sep seps'' =>
      exact ⟨.statements seps' (.row before statement sep (seps'' ++ seps)),
        by simp [separatorTokens], rfl, Iff.rfl⟩
  | statementsAnd seps' rows last =>
    cases seps with
    | nil => exact ⟨.statementsAnd seps' rows last, by simp [separatorTokens], rfl, Iff.rfl⟩
    | cons sep seps =>
      exact ⟨.statements seps' (.row rows last sep seps), by simp [separatorTokens], rfl, Iff.rfl⟩

end Derivation

/-- Behind a separator a statement may start. -/
theorem Reading.step?_separator {r r' : Reading} {pos : Position}
    (h : r.step? ⟨.separator, pos⟩ = some r') : ∃ block done, r' = .statement block done := by
  have hend : ∀ e around, endExpr? e around .separator = some r' →
      ∃ block done, r' = .statement block done := by
    intro e around h
    cases around with
    | statement block done head => exact ⟨_, _, (Option.some.inj h).symm⟩
    | opening p around what => cases what <;> cases h
    | bracket | argument => cases h
  cases r with
  | statement block done => exact ⟨_, _, (Option.some.inj h).symm⟩
  | leadingName block done name start =>
    exact hend (Pending.none.whole (nameOperand name start)) (.statement block done .bare) h
  | operator p around v => exact hend (p.whole v) around h
  | afterYes p around last outer => exact hend (p.whole (withoutElse last outer)) around h
  | _ => cases h

namespace Program

theorem filterMap_takeWhile_insert {α β : Type} {p : α → Bool} {f : α → Option β} {a : α}
    (hp : p a = true) (hf : f a = none) (xs ys : List α) :
    ((xs ++ a :: ys).takeWhile p).filterMap f = ((xs ++ ys).takeWhile p).filterMap f := by
  rw [List.takeWhile_append, List.takeWhile_append]
  split
  · simp [hp, hf]
  · rfl

theorem parameters_separator (pos : Position) (xs ys : List Token) :
    parameters (xs ++ ⟨.separator, pos⟩ :: ys) = parameters (xs ++ ys) := by
  rw [parameters, parameters, List.dropWhile_append, List.dropWhile_append]
  split
  · rw [List.dropWhile_cons_of_pos (by simp)]
  · exact filterMap_takeWhile_insert (by simp) rfl _ ys

/-- No check goes by separators. -/
theorem firstFault?_separator (pos : Position) (xs ys : List Token) :
    firstFault? (xs ++ ⟨.separator, pos⟩ :: ys) = firstFault? (xs ++ ys) := by
  induction xs with
  | nil => rfl
  | cons t xs ih =>
    rw [List.cons_append, List.cons_append, firstFault?, firstFault?, ih, parameters_separator]

theorem firstFault?_separators (seps : List Position) (xs ys : List Token) :
    firstFault? (xs ++ (Derivation.separatorTokens seps ++ ys)) = firstFault? (xs ++ ys) := by
  induction seps with
  | nil => rfl
  | cons sep seps ih => exact (firstFault?_separator sep xs _).trans ih

end Program

namespace Derivation

open Reading in
/-- A separator may be followed by more of them. -/
theorem exists_repeated {d : Derivation .statements} {before after : List Token} {pos : Position}
    (h : d.tokens = before ++ ⟨.separator, pos⟩ :: after) (seps : List Position) :
    ∃ d' : Derivation .statements,
      d'.tokens = before ++ ⟨.separator, pos⟩ :: (separatorTokens seps ++ after) ∧ Same d' d := by
  have hrun := d.run?_start
  rw [h, run?_append_iff] at hrun
  obtain ⟨r, hr, hrun⟩ := hrun
  rw [run?] at hrun
  obtain ⟨r', hstep, hrun⟩ := Option.bind_eq_some_iff.mp hrun
  obtain ⟨block, done, rfl⟩ := step?_separator hstep
  have hrun' : start.run? (before ++ ⟨.separator, pos⟩ :: (separatorTokens seps ++ after)) =
      some d.meaning.reverse := by
    refine run?_append_iff.mpr ⟨r, hr, ?_⟩
    rw [run?_of_step? hstep, run?_separators, hrun]
  obtain ⟨d', htokens, hmeaning⟩ := run?_start_iff.mp hrun'
  refine ⟨d', htokens, ?_, ?_⟩
  · rw [hmeaning, List.reverse_reverse]
  · rw [← d'.firstFault?_eq_none_iff, ← d.firstFault?_eq_none_iff, htokens, h,
      Program.firstFault?_separator, Program.firstFault?_separator, Program.firstFault?_separators]

end Derivation

end Scriptlet
