import Mathlib.Data.List.TakeWhile
import Scriptlet.Token.Scan

/-! The tokens of a text that is scanned to its end. A line end parts what is before it from what is
behind it, so that both are scanned by themselves. -/

namespace Scriptlet

/-! ### Lexemes before a line end -/

section

variable {α : Type} {p : α → Bool} {a : α} (ha : p a = false) (xs ys : List α)
include ha

theorem takeWhile_append_cons_of_neg : (xs ++ a :: ys).takeWhile p = xs.takeWhile p := by
  induction xs with
  | nil => simp [ha]
  | cons x xs ih => simp [List.takeWhile_cons, ih]

theorem dropWhile_append_cons_of_neg : (xs ++ a :: ys).dropWhile p = xs.dropWhile p ++ a :: ys := by
  induction xs with
  | nil => simp [ha]
  | cons x xs ih =>
    simp only [List.cons_append, List.dropWhile_cons, ih]
    split <;> rfl

end

namespace Lexeme

theorem run_append_newline {fits : Char → Bool} (hfits : fits '\n' = false)
    (symbol : List Char → Option Symbol) (c : Char) (cs rest : List Char) :
    run fits symbol c (cs ++ '\n' :: rest) =
      { run fits symbol c cs with rest := (run fits symbol c cs).rest ++ '\n' :: rest } := by
  simp [run, takeWhile_append_cons_of_neg hfits, dropWhile_append_cons_of_neg hfits]

/-- A piece that ends before the text does stays the same whatever is behind the text. -/
theorem run_append_of_all_eq_false {fits : Char → Bool} {cs : List Char}
    (hcs : cs.all fits = false) (symbol : List Char → Option Symbol) (c : Char)
    (rest : List Char) :
    run fits symbol c (cs ++ rest) =
      { run fits symbol c cs with rest := (run fits symbol c cs).rest ++ rest } := by
  obtain ⟨d, hd, hnot⟩ : ∃ d ∈ cs, fits d = false := by simpa using hcs
  have hdrop : cs.dropWhile fits ≠ [] := fun h => by
    simp [List.dropWhile_eq_nil_iff.mp h d hd] at hnot
  have htake : (cs.takeWhile fits).length ≠ cs.length := fun h => by
    have hall := List.takeWhile_eq_self_iff.mp ((List.takeWhile_prefix fits).eq_of_length h)
    simp [hall d hd] at hnot
  simp [run, List.takeWhile_append, List.dropWhile_append, htake, hdrop]

theorem sign?_append_newline {c : Char} {cs : List Char} {piece : Cut}
    (hc : sign? c cs = some piece) (rest : List Char) :
    sign? c (cs ++ '\n' :: rest) = some { piece with rest := piece.rest ++ '\n' :: rest } := by
  unfold sign? at hc
  split at hc <;> cases hc
  case h_1 => simp [sign?, takeWhile_append_cons_of_neg, dropWhile_append_cons_of_neg]
  -- the line end is no second sign
  case h_5 | h_6 | h_7 | h_11 => cases cs <;> simp_all [sign?]
  all_goals rfl

/-- What stands before a line end is cut in the same way, unless it is all blank. -/
theorem cut?_append_newline {cs : List Char} {piece : Cut} (hc : cut? cs = some piece)
    (hblank : cs.all isBlank = false) (rest : List Char) :
    cut? (cs ++ '\n' :: rest) = some { piece with rest := piece.rest ++ '\n' :: rest } := by
  cases cs with
  | nil => cases hc
  | cons c cs =>
    simp only [cut?, List.cons_append] at hc ⊢
    split at hc
    case isTrue hb =>
      have hcs : cs.all isBlank = false := by simpa [hb] using hblank
      rw [if_pos hb, run_append_of_all_eq_false hcs]
      cases hc
      rfl
    case isFalse hb =>
      rw [if_neg hb]
      split at hc
      case isTrue hn =>
        rw [if_pos hn, run_append_newline (by decide)]
        cases hc
        rfl
      case isFalse hn =>
        rw [if_neg hn]
        split at hc
        case isTrue hd =>
          rw [if_pos hd, run_append_newline (by decide)]
          cases hc
          rfl
        case isFalse hd =>
          rw [if_neg hd]
          exact sign?_append_newline hc rest

/-- Blanks at the front of a text are one piece. -/
theorem cut?_of_isBlank {c : Char} (hc : isBlank c = true) (cs : List Char) :
    cut? (c :: cs) =
      some ⟨none, (c :: cs).takeWhile isBlank, (c :: cs).dropWhile isBlank⟩ := by
  simp [cut?, run, hc]

end Lexeme

/-! ### Tokens -/

namespace Scan

open Lexeme

/-- The text, from a position on, is scanned to its end and these are its tokens. -/
inductive Reads : Position → List Char → List Token → Prop where
  | nil {p : Position} : Reads p [] []
  | cut {p : Position} {cs : List Char} {piece : Cut} {ts : List Token} (hc : cut? cs = some piece)
      (hrest : Reads (p.after piece.text) piece.rest ts) :
      Reads p cs ((piece.symbol.map (⟨·, p⟩)).toList ++ ts)

variable {p : Position} {cs rest : List Char} {ts us : List Token}

theorem reads_iff : Reads p cs ts ↔ (Scan.run p cs).tokens = ts ∧ (Scan.run p cs).rest = [] := by
  constructor
  · intro h
    induction h with
    | nil => simp [Scan.run, cut?, tokens]
    | @cut p cs piece ts hc hrest ih =>
      rw [Scan.run]
      split
      · simp_all
      · cases hsymbol : piece.symbol <;> simp_all [tokens]
  · rintro ⟨rfl, hrest⟩
    fun_induction Scan.run p cs with
    | case1 p cs hc =>
      obtain rfl : cs = [] := hrest
      exact .nil
    | case2 p cs piece hc scan ih =>
      have h := Reads.cut hc (ih hrest)
      cases hsymbol : piece.symbol <;> simp_all [tokens, scan]

/-- The first piece of a text gives its token if it has one. -/
theorem reads_iff_of_cut? {piece : Cut} (hc : cut? cs = some piece) :
    Reads p cs ts ↔ ∃ us, Reads (p.after piece.text) piece.rest us ∧
      ts = (piece.symbol.map (⟨·, p⟩ : Symbol → Token)).toList ++ us := by
  constructor
  · rintro (_ | ⟨hc', hrest⟩)
    · cases hc
    · cases hc.symm.trans hc'
      exact ⟨_, hrest, rfl⟩
  · rintro ⟨us, hrest, rfl⟩
    exact .cut hc hrest

theorem reads_nil_iff : Reads p [] ts ↔ ts = [] := by
  constructor
  · rintro (_ | ⟨hc, -⟩)
    · rfl
    · cases hc
  · rintro rfl
    exact .nil

/-- Blanks at the front of a text make no difference but to positions. -/
theorem reads_dropWhile_isBlank_iff :
    Reads (p.after (cs.takeWhile isBlank)) (cs.dropWhile isBlank) ts ↔ Reads p cs ts := by
  cases cs with
  | nil => rfl
  | cons c cs =>
    cases hc : isBlank c with
    | false => simp [hc]
    | true => simp [reads_iff_of_cut? (cut?_of_isBlank hc cs)]

theorem Reads.blank {c : Char} (hc : isBlank c = true) (h : Reads (p.next c) cs ts) :
    Reads p (c :: cs) ts := by
  rw [← reads_dropWhile_isBlank_iff] at h ⊢
  rwa [List.takeWhile_cons_of_pos hc, List.dropWhile_cons_of_pos hc]

theorem Reads.newline (h : Reads (p.next '\n') cs ts) : Reads p ('\n' :: cs) ts :=
  .blank rfl h

theorem Reads.separator (h : Reads (p.next ';') cs ts) :
    Reads p (';' :: cs) (⟨.separator, p⟩ :: ts) :=
  @Reads.cut p (';' :: cs) ⟨some .separator, [';'], cs⟩ ts rfl h

/-- What stands before a line end and what stands behind it are scanned by themselves. -/
theorem Reads.append_newline (h : Reads p cs ts) (h' : Reads (p.after cs) ('\n' :: rest) us) :
    Reads p (cs ++ '\n' :: rest) (ts ++ us) := by
  induction h with
  | nil => exact h'
  | @cut p cs piece ts hc hrest ih =>
    cases hblank : cs.all isBlank with
    | false =>
      rw [← cut?_eq hc, Position.after_append] at h'
      rw [List.append_assoc]
      exact (reads_iff_of_cut? (cut?_append_newline hc hblank rest)).mpr ⟨_, ih h', rfl⟩
    | true =>
      -- the line end belongs to the blanks, which give no token
      have hall : ∀ c ∈ cs, isBlank c = true := List.all_eq_true.mp hblank
      have hcs := reads_dropWhile_isBlank_iff.mpr (Reads.cut hc hrest)
      rw [List.dropWhile_eq_nil_iff.mpr hall] at hcs
      rw [reads_nil_iff.mp hcs, ← reads_dropWhile_isBlank_iff, List.takeWhile_append_of_pos hall,
        List.dropWhile_append_of_pos hall, Position.after_append]
      exact reads_dropWhile_isBlank_iff.mpr h'

end Scan

end Scriptlet
