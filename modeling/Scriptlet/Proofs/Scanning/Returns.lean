import Mathlib.Data.List.Basic
import Scriptlet.Proofs.Grammar.Parse
import Scriptlet.Proofs.Scanning.Seams
import Scriptlet.Text.Newline

/-! Carriage returns at the ends of lines. Where each stands before a line feed, unifying line ends
takes all of them away, and they are white space that no position shows: the program reads the same
without them. -/

namespace Scriptlet

open Lexeme

namespace Text

/-- Every carriage return stands right before a line feed. -/
def Paired (cs : List Char) : Prop :=
  ∀ before after, cs = before ++ '\r' :: after → after.head? = some '\n'

def withoutReturns (cs : List Char) : List Char := cs.filter (· ≠ '\r')

variable {c : Char} {cs ds : List Char}

@[simp] theorem withoutReturns_append (cs ds : List Char) :
    withoutReturns (cs ++ ds) = withoutReturns cs ++ withoutReturns ds := List.filter_append ..

theorem withoutReturns_cons (hc : c ≠ '\r') (cs : List Char) :
    withoutReturns (c :: cs) = c :: withoutReturns cs := by simp [withoutReturns, hc]

theorem withoutReturns_eq_self (h : '\r' ∉ cs) : withoutReturns cs = cs := by
  rw [withoutReturns, List.filter_eq_self]
  intro c hc
  exact decide_eq_true fun hreturn => h (hreturn ▸ hc)

theorem withoutReturns_ne_nil (hc : c ∈ cs) (hreturn : c ≠ '\r') : withoutReturns cs ≠ [] :=
  List.ne_nil_of_mem (List.mem_filter.mpr ⟨hc, decide_eq_true hreturn⟩)

/-- The first character stays if it is no carriage return. -/
theorem head?_withoutReturns (h : ∀ c ∈ cs.head?, c ≠ '\r') :
    (withoutReturns cs).head? = cs.head? := by
  cases cs with
  | nil => rfl
  | cons c cs => rw [withoutReturns_cons (h c rfl), List.head?_cons, List.head?_cons]

@[simp] theorem paired_nil : Paired [] := by simp [Paired]

@[simp] theorem paired_cons :
    Paired (c :: cs) ↔ (c = '\r' → cs.head? = some '\n') ∧ Paired cs := by
  constructor
  · intro h
    refine ⟨fun hc => h [] cs (by rw [hc, List.nil_append]), fun before after hcs => ?_⟩
    exact h (c :: before) after (by rw [hcs, List.cons_append])
  · rintro ⟨hc, h⟩ before after hcs
    cases before with
    | nil =>
      obtain ⟨rfl, rfl⟩ := List.cons.inj hcs
      exact hc rfl
    | cons d before => exact h before after (List.cons.inj hcs).2

namespace Paired

theorem behind (h : Paired (cs ++ ds)) : Paired ds := fun before after hds =>
  h (cs ++ before) after (by rw [hds, List.append_assoc])

theorem tail (h : Paired (c :: cs)) : Paired cs := (paired_cons.mp h).2

theorem head?_tail (h : Paired ('\r' :: cs)) : cs.head? = some '\n' := (paired_cons.mp h).1 rfl

/-- Without lone carriage returns, to unify line ends is to drop the returns. -/
theorem unifyNewlines_eq (h : Paired cs) : unifyNewlines cs = withoutReturns cs := by
  fun_induction unifyNewlines cs with
  | case1 rest ih => exact congrArg _ (ih h.tail.tail)
  | case2 rest hrest ih =>
    obtain ⟨rest, rfl⟩ := List.head?_eq_some_iff.mp h.head?_tail
    exact absurd rfl (hrest rest)
  | case3 c rest _ hc ih =>
    rw [withoutReturns_cons hc, ih h.tail]
  | case4 => rfl

end Paired

end Text

open Text (Paired withoutReturns withoutReturns_append withoutReturns_cons withoutReturns_eq_self
  withoutReturns_ne_nil head?_withoutReturns)

variable {c : Char} {cs t r : List Char} {p q : Position}

/-! ### Pieces -/

namespace Lexeme

/-- Where no lexeme starts there is no blank. -/
theorem isBlank_eq_false_of_cut?_eq_none (h : cut? cs = none) :
    ∀ c ∈ cs.head?, isBlank c = false := by
  intro c hc
  obtain ⟨ds, rfl⟩ := List.head?_eq_some_iff.mp hc
  rw [Bool.eq_false_iff]
  intro hblank
  rw [cut?_of_isBlank hblank] at h
  cases h

theorem ne_return_of_isBlank (h : isBlank c = false) : c ≠ '\r' := by
  rintro rfl
  cases h

theorem cut?_withoutReturns_eq_none (h : cut? cs = none) : cut? (withoutReturns cs) = none := by
  cases cs with
  | nil => rfl
  | cons c cs =>
    rw [withoutReturns_cons (ne_return_of_isBlank (isBlank_eq_false_of_cut?_eq_none h c rfl))]
    exact cut?_cons_eq_none h _

/-- Behind a token a carriage return is as good as the line feed behind it. -/
theorem ends_withoutReturns {s : Symbol} (h : Paired r) (hends : s.Ends r) :
    s.Ends (withoutReturns r) := by
  by_cases hreturn : r.head? = some '\r'
  · obtain ⟨r, rfl⟩ := List.head?_eq_some_iff.mp hreturn
    obtain ⟨r, rfl⟩ := List.head?_eq_some_iff.mp h.head?_tail
    exact Symbol.ends_cons.mpr (Symbol.extendedBy_eq_false (.inl rfl) s)
  · rw [Symbol.Ends, head?_withoutReturns fun c hc => by rintro rfl; exact hreturn hc]
    exact hends

/-- Blanks that are carriage returns only would end right before a line feed. -/
theorem blanks_withoutReturns (h : Paired (t ++ r)) (hblanks : Blanks t r) :
    Blanks (withoutReturns t) (withoutReturns r) := by
  obtain ⟨hne, ht, hr⟩ := hblanks
  refine ⟨?_, fun c hc => ht c (List.mem_of_mem_filter hc), ?_⟩
  · cases t with
    | nil => exact absurd rfl hne
    | cons c t =>
      by_cases hc : c = '\r'
      · subst hc
        cases t with
        | nil => exact absurd (hr _ h.head?_tail) (by decide)
        | cons d t =>
          obtain rfl := Option.some.inj h.head?_tail
          exact withoutReturns_ne_nil (c := '\n') (by simp) (by decide)
      · exact withoutReturns_ne_nil List.mem_cons_self hc
  · rw [head?_withoutReturns fun c hc => ne_return_of_isBlank (hr c hc)]
    exact hr

theorem comment_withoutReturns (hcomment : Comment t r) :
    Comment (withoutReturns t) (withoutReturns r) := by
  obtain ⟨body, rfl, hbody, hr⟩ := hcomment
  refine ⟨withoutReturns body, rfl, fun c hc => hbody c (List.mem_of_mem_filter hc), ?_⟩
  rw [head?_withoutReturns fun c hc => by rw [hr c hc]; decide]
  exact hr

/-- The lexemes of a text are those it has without carriage returns. -/
theorem cut?_withoutReturns {piece : Cut} (h : Paired cs) (hc : cut? cs = some piece) :
    cut? (withoutReturns cs) =
      some ⟨piece.symbol, withoutReturns piece.text, withoutReturns piece.rest⟩ := by
  obtain ⟨o, t, r⟩ := piece
  obtain rfl : t ++ r = cs := cut?_eq hc
  rw [withoutReturns_append]
  cases o with
  | some s =>
    obtain ⟨hs, rfl, -, hends⟩ := cut?_eq_token_iff.mp hc
    have htext : withoutReturns s.text.toList = s.text.toList := withoutReturns_eq_self fun hmem =>
      ne_return_of_isBlank (isBlank_eq_false_of_mem_text hs _ hmem) rfl
    exact cut?_eq_token_iff.mpr ⟨hs, htext, rfl, ends_withoutReturns h.behind hends⟩
  | none =>
    obtain ⟨-, hskip⟩ := cut?_eq_skip_iff.mp hc
    exact cut?_eq_skip_iff.mpr ⟨rfl, hskip.imp (blanks_withoutReturns h) comment_withoutReturns⟩

end Lexeme

/-! ### Positions -/

namespace Position

/-- Two positions that are one, or will be behind the line feed that comes next. -/
def Meet (cs : List Char) (p q : Position) : Prop :=
  p = q ∨ p.line = q.line ∧ cs.head? = some '\n'

theorem Meet.after (hpq : Meet (t ++ r) p q) (h : Paired (t ++ r)) :
    Meet r (p.after t) (q.after (withoutReturns t)) := by
  induction t generalizing p q with
  | nil => exact hpq
  | cons c t ih =>
    by_cases hc : c = '\r'
    · subst hc
      -- The column moves on in one of them only, and the line feed is next.
      refine ih (.inr ⟨?_, h.head?_tail⟩) h.tail
      obtain rfl | ⟨hline, -⟩ := hpq
      · rfl
      · exact hline
    · rw [withoutReturns_cons hc, after_cons, after_cons]
      refine ih (.inl ?_) h.tail
      obtain rfl | ⟨hline, hfeed⟩ := hpq
      · rfl
      · obtain rfl := Option.some.inj hfeed
        simp [next, hline]

/-- At a character that is no blank the two are one. -/
theorem Meet.eq (h : Meet cs p q) (hc : c ∈ cs.head?) (hblank : isBlank c = false) : p = q := by
  obtain rfl | ⟨-, hfeed⟩ := h
  · rfl
  · obtain rfl := Option.mem_unique hc hfeed
    cases hblank

end Position

/-! ### Scans -/

namespace Scan

theorem head?_rest_run (p : Position) (cs : List Char) :
    ∀ c ∈ (run p cs).rest.head?, isBlank c = false := by
  fun_induction run p cs with
  | case1 p cs hc => exact isBlank_eq_false_of_cut?_eq_none hc
  | case2 p cs piece hc scan ih => exact ih

/-- Without carriage returns the tokens stay, and scanning stops where it did. -/
theorem run_withoutReturns (h : Paired cs) (hpq : Position.Meet cs p q) :
    (run q (withoutReturns cs)).tokens = (run p cs).tokens ∧
      (run q (withoutReturns cs)).rest = withoutReturns (run p cs).rest ∧
      Position.Meet (run p cs).rest (p.after (textOf (run p cs).lexemes))
        (q.after (textOf (run q (withoutReturns cs)).lexemes)) := by
  revert q
  fun_induction run p cs with
  | case1 p cs hc =>
    intro q hpq
    rw [run_of_cut?_eq_none (cut?_withoutReturns_eq_none hc)]
    exact ⟨rfl, rfl, hpq⟩
  | case2 p cs piece hc scan ih =>
    intro q hpq
    rw [run_of_cut? (cut?_withoutReturns h hc)]
    have htext := cut?_eq hc
    subst htext
    obtain ⟨htokens, hrest, hmeet⟩ := ih h.behind (hpq.after h)
    refine ⟨?_, hrest, ?_⟩
    · rw [tokens_eq] at htokens ⊢
      rw [tokens_eq, tokensOf_cons, tokensOf_cons, htokens]
      refine congrArg (· ++ scan.tokens) ?_
      cases hs : piece.symbol with
      | none => rfl
      | some s =>
        have hblank := cut?_token_not_isBlank hc (by rw [hs]; rfl)
        obtain ⟨c, t, ht⟩ := List.exists_cons_of_ne_nil (cut?_text_ne_nil hc)
        rw [ht] at hblank hpq
        rw [hpq.eq rfl (hblank c rfl)]
        rfl
    · rw [textOf_cons, textOf_cons, Position.after_append, Position.after_append]
      exact hmeet

end Scan

/-! ### Programs -/

namespace Program

/-- Of a scan only the tokens matter, and the character where it stops short. -/
theorem read_congr {scan scan' : Scan} (htokens : scan'.tokens = scan.tokens)
    (hrest : scan'.rest.head? = scan.rest.head?)
    (hstop : ∀ c ∈ scan.rest.head?, scan'.stop = scan.stop) : read scan' = read scan := by
  simp only [read, htokens]
  cases h : scan.rest with
  | nil =>
    rw [h, List.head?_nil, List.head?_eq_none_iff] at hrest
    rw [hrest]
    cases Reading.start.readAll scan.tokens <;> rfl
  | cons c rest =>
    rw [h] at hrest hstop
    obtain ⟨rest', hrest'⟩ := List.head?_eq_some_iff.mp hrest
    rw [hrest', hstop c rfl]
    cases Reading.start.readAll scan.tokens <;> rfl

/-- A program is what it is without the carriage returns at its line ends. -/
theorem parse_withoutReturns {source : String} (h : Paired source.toList) :
    parse (String.ofList (withoutReturns source.toList)) = parse source := by
  obtain ⟨htokens, hrest, hmeet⟩ :=
    Scan.run_withoutReturns (p := .start) (q := .start) h (.inl rfl)
  change (Scan.ofText _).tokens = (Scan.ofText _).tokens at htokens
  have hblank := Scan.head?_rest_run .start source.toList
  have hread : read (Scan.ofText (withoutReturns source.toList)) =
      read (Scan.ofText source.toList) := by
    refine read_congr htokens ?_ fun c hc => (hmeet.eq hc (hblank c hc)).symm
    exact hrest ▸ head?_withoutReturns fun c hc => ne_return_of_isBlank (hblank c hc)
  simp only [parse, String.toList_ofList, hread, htokens]

end Program

end Scriptlet
