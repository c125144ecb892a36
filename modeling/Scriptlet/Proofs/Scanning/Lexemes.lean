import Mathlib.Data.List.Induction
import Scriptlet.Proofs.Scanning.Reads
import Scriptlet.Proofs.Scanning.Symbols

/-! Where lexemes stand. The lexemes of a text are its pieces in order, so each of them stands
behind the text of those before it, and its position is the line and the column there. -/

namespace Scriptlet

/-! ### Lines and columns -/

namespace Position

/-- The line and the column behind a text: one more than its line ends, and one more than what is
left of it behind the last of them. -/
def behind (text : List Char) : Position :=
  ⟨text.count '\n' + 1, (text.reverse.takeWhile (· ≠ '\n')).length + 1⟩

theorem after_start (text : List Char) : start.after text = behind text := by
  induction text using List.reverseRecOn with
  | nil => rfl
  | append_singleton text c ih =>
    rw [after_append, ih, after_cons, after_nil]
    by_cases hc : c = '\n' <;> simp [next, behind, hc]

/-- A position is not behind another one if its line is above or, on the same line, its column is
not further to the right. -/
instance : LE Position where
  le p q := p.line < q.line ∨ p.line = q.line ∧ p.column ≤ q.column

theorem le_def {p q : Position} :
    p ≤ q ↔ p.line < q.line ∨ p.line = q.line ∧ p.column ≤ q.column := Iff.rfl

theorem le_refl (p : Position) : p ≤ p := .inr ⟨rfl, Nat.le_refl _⟩

theorem le_trans {p q r : Position} (hpq : p ≤ q) (hqr : q ≤ r) : p ≤ r := by
  rw [le_def] at *
  omega

theorem le_next (p : Position) (c : Char) : p ≤ p.next c := by
  rw [le_def, next]
  split
  · exact .inl (Nat.lt_succ_self _)
  · exact .inr ⟨rfl, Nat.le_succ _⟩

theorem le_after (p : Position) (text : List Char) : p ≤ p.after text := by
  induction text generalizing p with
  | nil => exact p.le_refl
  | cons c text ih => exact le_trans (p.le_next c) (ih (p.next c))

end Position

/-! ### Lists of lexemes -/

namespace Lexeme

def token? (l : Lexeme) : Option Token := l.symbol.map (⟨·, l.position⟩)

def tokensOf (ls : List Lexeme) : List Token := ls.filterMap token?

def textOf (ls : List Lexeme) : List Char := ls.flatMap text

@[simp] theorem tokensOf_append (xs ys : List Lexeme) :
    tokensOf (xs ++ ys) = tokensOf xs ++ tokensOf ys := List.filterMap_append

@[simp] theorem textOf_append (xs ys : List Lexeme) : textOf (xs ++ ys) = textOf xs ++ textOf ys :=
  List.flatMap_append

@[simp] theorem textOf_cons (l : Lexeme) (ls : List Lexeme) :
    textOf (l :: ls) = l.text ++ textOf ls := List.flatMap_cons

theorem tokensOf_cons (l : Lexeme) (ls : List Lexeme) :
    tokensOf (l :: ls) = l.token?.toList ++ tokensOf ls := by
  unfold tokensOf
  cases h : l.token? with
  | none => rw [List.filterMap_cons_none h]; rfl
  | some t => rw [List.filterMap_cons_some h]; rfl

theorem tokensOf_eq_nil {ls : List Lexeme} (h : ∀ l ∈ ls, l.symbol = none) : tokensOf ls = [] :=
  List.filterMap_eq_nil_iff.mpr fun l hl => by rw [token?, h l hl, Option.map_none]

/-- Every token among lexemes comes from one of them. -/
theorem exists_of_tokensOf_eq {ls : List Lexeme} {before after : List Token} {t : Token}
    (h : tokensOf ls = before ++ t :: after) :
    ∃ xs l ys, ls = xs ++ l :: ys ∧ l.symbol = some t.symbol ∧ l.position = t.position ∧
      tokensOf xs = before ∧ tokensOf ys = after := by
  obtain ⟨xs, zs, rfl, hxs, hzs⟩ := List.filterMap_eq_append_iff.mp h
  obtain ⟨blanks, l, ys, rfl, hblanks, hl, hys⟩ := List.filterMap_eq_cons_iff.mp hzs
  obtain ⟨s, hs, rfl⟩ := Option.map_eq_some_iff.mp hl
  have hnone : tokensOf blanks = [] := List.filterMap_eq_nil_iff.mpr hblanks
  refine ⟨xs ++ blanks, l, ys, by simp, hs, rfl, ?_, hys⟩
  rw [tokensOf_append, hnone, List.append_nil]
  exact hxs

theorem tokensOf_singleton_of_symbol {l : Lexeme} {s : Symbol} (h : l.symbol = some s) :
    tokensOf [l] = [⟨s, l.position⟩] := by
  simp [tokensOf, token?, h]

end Lexeme

namespace Scan

open Lexeme

variable {p : Position} {cs : List Char} {xs ys : List Lexeme} {l : Lexeme}

def symbols (scan : Scan) : List Symbol := scan.tokens.map Token.symbol

theorem tokens_eq (scan : Scan) : scan.tokens = tokensOf scan.lexemes := rfl

theorem tokens_of_lexemes {scan : Scan} (h : scan.lexemes = xs ++ ys) :
    scan.tokens = tokensOf xs ++ tokensOf ys := by
  rw [tokens_eq, h, tokensOf_append]

theorem symbols_of_lexemes {scan : Scan} (h : scan.lexemes = xs ++ ys) :
    scan.symbols = (tokensOf xs).map Token.symbol ++ (tokensOf ys).map Token.symbol := by
  rw [symbols, tokens_of_lexemes h, List.map_append]

theorem run_of_cut?_eq_none (h : cut? cs = none) (p : Position) : run p cs = ⟨[], cs⟩ := by
  rw [run]
  split <;> simp_all

theorem run_of_cut? {piece : Cut} (hc : cut? cs = some piece) (p : Position) :
    run p cs = ⟨⟨piece.symbol, piece.text, p⟩ :: (run (p.after piece.text) piece.rest).lexemes,
      (run (p.after piece.text) piece.rest).rest⟩ := by
  rw [run]
  split <;> simp_all

/-- A token is read off the front of a text if nothing behind makes it longer. -/
theorem Reads.token {s : Symbol} {ts : List Token} (hs : s.isProper = true) (hends : s.Ends cs)
    (h : Reads (p.after s.text.toList) cs ts) : Reads p (s.text.toList ++ cs) (⟨s, p⟩ :: ts) :=
  Reads.cut (cut?_eq_token_iff.mpr ⟨hs, rfl, rfl, hends⟩) h

/-- Scanning loses nothing. -/
theorem text_run (p : Position) (cs : List Char) :
    textOf (run p cs).lexemes ++ (run p cs).rest = cs := by
  fun_induction run p cs with
  | case1 p cs hc => rfl
  | case2 p cs piece hc scan ih => rw [textOf_cons, List.append_assoc, ih, cut?_eq hc]

/-- Where a lexeme ends scanning might as well begin. -/
theorem run_behind (h : (run p cs).lexemes = xs ++ ys) :
    run (p.after (textOf xs)) (textOf ys ++ (run p cs).rest) = ⟨ys, (run p cs).rest⟩ := by
  induction xs generalizing p cs with
  | nil =>
    have htext := text_run p cs
    rw [List.nil_append] at h
    rw [h] at htext
    rw [htext, ← h]
    rfl
  | cons x xs ih =>
    cases hc : cut? cs with
    | none => simp [run_of_cut?_eq_none hc] at h
    | some piece =>
      rw [run_of_cut? hc] at h ⊢
      obtain ⟨rfl, hxs⟩ := List.cons.inj h
      rw [textOf_cons, Position.after_append]
      exact ih hxs

theorem cut?_of_lexemes (h : (run p cs).lexemes = xs ++ l :: ys) :
    l.position = p.after (textOf xs) ∧
      cut? (l.text ++ (textOf ys ++ (run p cs).rest)) =
        some ⟨l.symbol, l.text, textOf ys ++ (run p cs).rest⟩ := by
  have hrun := run_behind h
  rw [textOf_cons, List.append_assoc] at hrun
  cases hc : cut? (l.text ++ (textOf ys ++ (run p cs).rest)) with
  | none => simp [run_of_cut?_eq_none hc] at hrun
  | some piece =>
    rw [run_of_cut? hc] at hrun
    obtain ⟨hlexemes, -⟩ := Scan.mk.inj hrun
    obtain ⟨rfl, -⟩ := List.cons.inj hlexemes
    have hrest := List.append_cancel_left (cut?_eq hc)
    exact ⟨rfl, congrArg some (by rw [← hrest])⟩

/-- A token is written as its symbol is, and nothing behind it would be a part of it. -/
theorem symbol_of_lexemes {s : Symbol} (h : (run p cs).lexemes = xs ++ l :: ys)
    (hl : l.symbol = some s) :
    s.isProper = true ∧ l.text = s.text.toList ∧ s.Ends (textOf ys ++ (run p cs).rest) :=
  cut?_eq_token (cut?_of_lexemes h).2 hl

theorem proper_of_mem_tokens {text : List Char} {t : Token} (ht : t ∈ (ofText text).tokens) :
    t.symbol.isProper = true := by
  obtain ⟨l, hl, htoken⟩ := List.mem_filterMap.mp ht
  obtain ⟨s, hs, rfl⟩ := Option.map_eq_some_iff.mp htoken
  obtain ⟨xs, ys, h⟩ := List.append_of_mem hl
  exact (symbol_of_lexemes h hs).1

/-- A lexeme is at the line and the column behind the text before it. -/
theorem position_of_lexemes {text : List Char} (h : (ofText text).lexemes = xs ++ l :: ys) :
    l.position = .behind (textOf xs) := by
  rw [(cut?_of_lexemes h).1, Position.after_start]

/-- A token is at the line and the column behind the text before its own. -/
theorem exists_text_of_mem_tokens {text : List Char} {t : Token} (ht : t ∈ (ofText text).tokens) :
    ∃ before after,
      text = before ++ t.symbol.text.toList ++ after ∧ t.position = .behind before := by
  obtain ⟨l, hl, htoken⟩ := List.mem_filterMap.mp ht
  obtain ⟨s, hs, rfl⟩ := Option.map_eq_some_iff.mp htoken
  obtain ⟨xs, ys, h⟩ := List.append_of_mem hl
  refine ⟨textOf xs, textOf ys ++ (ofText text).rest, ?_, position_of_lexemes h⟩
  rw [← (symbol_of_lexemes h hs).2.1, List.append_assoc, ← List.append_assoc l.text,
    ← textOf_cons, ← List.append_assoc, ← textOf_append, ← h]
  exact (text_run .start text).symm

theorem le_position (hl : l ∈ (run p cs).lexemes) : p ≤ l.position := by
  obtain ⟨xs, ys, h⟩ := List.append_of_mem hl
  rw [(cut?_of_lexemes h).1]
  exact p.le_after _

theorem pairwise_lexemes (p : Position) (cs : List Char) :
    (run p cs).lexemes.Pairwise (·.position ≤ ·.position) := by
  fun_induction run p cs with
  | case1 p cs hc => exact .nil
  | case2 p cs piece hc scan ih =>
    exact .cons (fun l hl => Position.le_trans (p.le_after piece.text) (le_position hl)) ih

theorem stop_ofText (text : List Char) :
    (ofText text).stop = .behind (textOf (ofText text).lexemes) := Position.after_start _

/-- The tokens of a text stand one behind the other. -/
theorem pairwise_tokens (text : List Char) :
    (ofText text).tokens.Pairwise (·.position ≤ ·.position) := by
  refine List.Pairwise.filterMap _ ?_ (pairwise_lexemes .start text)
  intro l l' hle t ht t' ht'
  obtain ⟨s, -, rfl⟩ := Option.map_eq_some_iff.mp ht
  obtain ⟨s', -, rfl⟩ := Option.map_eq_some_iff.mp ht'
  exact hle

end Scan

end Scriptlet
