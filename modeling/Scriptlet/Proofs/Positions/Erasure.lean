import Scriptlet.Proofs.Grammar.Written
import Scriptlet.Proofs.Positions.Relabelling
import Scriptlet.Proofs.Scanning.Lexemes

/-! What texts stand for up to positions. The symbols of a text alone decide whether it is a
program, and what it stands for when positions do not count. -/

namespace Scriptlet

/-! ### Expressions without positions -/

def Relocation.drop : Relocation where
  target _ := none
  uniform _ := rfl

namespace Relocation

@[simp] theorem target_drop (p : Position) : drop.target p = none := rfl

@[simp] theorem bind_drop (p : Option Position) : p.bind drop.target = none := by cases p <;> rfl

end Relocation

namespace Expr

/-- The expression without its positions. -/
def erase (e : Expr) : Expr := e.relocate .drop

/-- Expressions are equal up to positions if they are without them. -/
theorem alike_iff {a b : Expr} : a.alike b = true ↔ a.erase = b.erase := by
  unfold erase
  induction a generalizing b with
  | call p a as iha ihas =>
    have hargs : ∀ bs,
        alikeAll as bs = true ↔ as.map (relocate .drop) = bs.map (relocate .drop) := by
      clear iha
      induction as with
      | nil => intro bs; cases bs <;> simp [alikeAll]
      | cons a as ih =>
        intro bs
        cases bs with
        | nil => simp [alikeAll]
        | cons b bs =>
          rw [alikeAll, Bool.and_eq_true, ihas a List.mem_cons_self,
            ih fun arg h => ihas arg (List.mem_cons_of_mem a h), List.map_cons, List.map_cons,
            List.cons.injEq]
    cases b with
    | call => simp [alike, iha, hargs, relocateAll_eq_map]
    | _ => simp [alike]
  | _ => cases b <;> simp [alike, and_assoc, *]

theorem erase_relocate (m : Position → Position) (e : Expr) :
    (e.relocate (.ofMap m)).erase = e.erase := by
  have hpos (p : Option Position) :
      (p.bind (Relocation.ofMap m).target).bind Relocation.drop.target =
        p.bind Relocation.drop.target := by
    cases p <;> rfl
  unfold erase
  induction e with
  | call p a as iha ihas => simpa [hpos, iha, relocateAll_eq_map] using ihas
  | _ => simp_all

theorem erase_sequence? (es : List Expr) (pos : Option Position) :
    ((sequence? es).getD (.const pos .null)).erase =
      (sequence? (es.map erase)).getD (.const none .null) := by
  cases es with
  | nil => simp [sequence?, erase]
  | cons first rest => exact relocate_sequence .drop first rest

end Expr

/-! ### Derivations of the same symbols -/

theorem Nonterminal.exprs_move (m : Position → Position) (c : Nonterminal) (v : c.Meaning) :
    c.exprs (c.move m v) = (c.exprs v).map (Expr.relocate (.ofMap m)) := by
  cases c with
  | alternative => cases v <;> rfl
  | _ => rfl

namespace Derivation

variable {c : Nonterminal}

def symbols (d : Derivation c) : List Symbol := d.tokens.map Token.symbol

/-- Two derivations that stand for the same up to positions, and pass their checks both or none. -/
structure Same (d d' : Derivation c) : Prop where
  exprs : (c.exprs d.meaning).map Expr.erase = (c.exprs d'.meaning).map Expr.erase
  checks : (∀ check ∈ d.checks, check.Ok) ↔ ∀ check ∈ d'.checks, check.Ok

namespace Same

theorem symm {d d' : Derivation c} (h : Same d d') : Same d' d := ⟨h.exprs.symm, h.checks.symm⟩

theorem trans {d d' d'' : Derivation c} (h : Same d d') (h' : Same d' d'') : Same d d'' :=
  ⟨h.exprs.trans h'.exprs, h.checks.trans h'.checks⟩

theorem move (m : Position → Position) (d : Derivation c) : Same (d.move m) d where
  exprs := by
    rw [meaning_move, c.exprs_move, List.map_map]
    exact List.map_congr_left fun e _ => e.erase_relocate m
  checks := by
    rw [checks_move, List.forall_mem_map]
    exact forall₂_congr fun check _ => check.ok_move

theorem put (f : Nat → Position) (d : Derivation c) : Same (d.put f) d := by
  have hmove := Same.move (fun _ => .start) (d.put f)
  rw [move_put] at hmove
  exact hmove.symm.trans (.move _ d)

theorem program {d d' : Derivation .statements} (h : Same d d') :
    d.program.erase = d'.program.erase := by
  rw [Derivation.program, Derivation.program, Expr.erase_sequence?, Expr.erase_sequence?]
  exact congrArg (fun es => (Expr.sequence? es).getD _) h.exprs

end Same

/-- A derivation of some tokens is one of all tokens with their symbols. -/
theorem exists_tokens_eq (d : Derivation c) {ts : List Token}
    (h : ts.map Token.symbol = d.symbols) : ∃ d' : Derivation c, d'.tokens = ts ∧ Same d' d := by
  refine ⟨d.put fun i => ((ts.map Token.position)[i]?).getD .start, ?_, .put _ d⟩
  rw [tokens_put, List.mapIdx_eq_iff]
  intro i
  have hi : (ts.map Token.symbol)[i]? = d.symbols[i]? := by rw [h]
  simp only [symbols, List.getElem?_map] at hi ⊢
  rcases ht : ts[i]? with _ | ⟨s, p⟩ <;> cases hd : d.tokens[i]? <;> simp_all [Token.put]

end Derivation

/-! ### Programs -/

namespace Program

variable {source : String} {e : Expr}

/-- The text is accepted, and this is what it stands for without positions. -/
def Says (source : String) (e : Expr) : Prop := ∃ e', parse source = .ok e' ∧ e'.erase = e

/-- A text of the symbols of a derivation stands for what the derivation does if the checks hold,
and is no program otherwise. -/
theorem says_iff_of_symbols (d : Derivation .statements)
    (hrest : (Scan.ofText source.toList).rest = [])
    (hd : (Scan.ofText source.toList).symbols = d.symbols) :
    Says source e ↔ (∀ check ∈ d.checks, check.Ok) ∧ d.program.erase = e := by
  obtain ⟨d', htokens, hsame⟩ := d.exists_tokens_eq hd
  rw [← hsame.checks, ← hsame.program]
  have hread := read_eq_ok_iff.mpr ⟨hrest, d', htokens, rfl⟩
  rw [← d'.firstFault?_eq_none_iff, htokens]
  constructor
  · rintro ⟨e', hparse, rfl⟩
    obtain ⟨hread', hfault⟩ := parse_eq_ok_iff.mp hparse
    exact ⟨hfault, by rw [Except.ok.inj (hread.symm.trans hread')]⟩
  · rintro ⟨hfault, rfl⟩
    exact ⟨_, parse_eq_ok_iff.mpr ⟨hread, hfault⟩, rfl⟩

theorem says_iff : Says source e ↔ (Scan.ofText source.toList).rest = [] ∧
    ∃ d : Derivation .statements, d.symbols = (Scan.ofText source.toList).symbols ∧
      (∀ check ∈ d.checks, check.Ok) ∧ d.program.erase = e := by
  constructor
  · rintro ⟨e', hparse, rfl⟩
    obtain ⟨hread, hfault⟩ := parse_eq_ok_iff.mp hparse
    obtain ⟨hrest, d, htokens, rfl⟩ := read_eq_ok_iff.mp hread
    rw [← htokens, d.firstFault?_eq_none_iff] at hfault
    exact ⟨hrest, d, congrArg (List.map Token.symbol) htokens, hfault, rfl⟩
  · rintro ⟨hrest, d, hd, h⟩
    exact (says_iff_of_symbols d hrest hd.symm).mpr h

/-- Texts of the same symbols say the same. -/
theorem says_congr {source' : String}
    (hrest : (Scan.ofText source'.toList).rest = (Scan.ofText source.toList).rest)
    (hsymbols : (Scan.ofText source'.toList).symbols = (Scan.ofText source.toList).symbols) :
    Says source e ↔ Says source' e := by
  rw [says_iff, says_iff, hrest, hsymbols]

end Program

end Scriptlet
