import Scriptlet.Proofs.Scanning.Lexemes

/-! Seams between lexemes. The lexemes before a seam stay what they are whatever is put there, as
long as it does not make the last of them longer; so blanks, comments, brackets and separators
between lexemes are scanned by themselves. -/

namespace Scriptlet

namespace Lexeme

variable {c : Char} {cs t r : List Char} {s : Symbol}

/-- Blanks up to the first character that is none. -/
def Blanks (t r : List Char) : Prop :=
  t ≠ [] ∧ (∀ c ∈ t, isBlank c = true) ∧ ∀ c ∈ r.head?, isBlank c = false

/-- A comment up to the end of its line. -/
def Comment (t r : List Char) : Prop :=
  ∃ body, t = '/' :: '/' :: body ∧ (∀ c ∈ body, c ≠ '\n') ∧ ∀ c ∈ r.head?, c = '\n'

theorem sign?_eq_skip (h : sign? c cs = some ⟨none, t, r⟩) : Comment t r := by
  unfold sign? at h
  split at h <;> cases h
  case h_1 rest =>
    refine ⟨_, rfl, fun d hd => ?_, fun d hd => ?_⟩
    · simpa using List.mem_takeWhile_imp hd
    · simpa using Symbol.fits_head?_dropWhile _ rest d hd

/-- What is cut off a text without being a token. -/
theorem cut?_eq_skip_iff :
    cut? cs = some ⟨none, t, r⟩ ↔ cs = t ++ r ∧ (Blanks t r ∨ Comment t r) := by
  constructor
  · intro h
    refine ⟨(cut?_eq h).symm, ?_⟩
    cases cs with
    | nil => cases h
    | cons c cs =>
      simp only [cut?] at h
      split at h
      case isTrue hc =>
        obtain ⟨ts, rfl, -, -, hts, hr⟩ := run_eq_iff.mp (Option.some.inj h)
        exact .inl ⟨List.cons_ne_nil _ _, List.forall_mem_cons.mpr ⟨hc, hts⟩, hr⟩
      case isFalse =>
        split at h
        · obtain ⟨ts, -, hs, -⟩ := run_eq_iff.mp (Option.some.inj h)
          cases hs
        · split at h
          · obtain ⟨ts, -, hs, -⟩ := run_eq_iff.mp (Option.some.inj h)
            cases hs
          · exact .inr (sign?_eq_skip h)
  · rintro ⟨rfl, ⟨hne, ht, hr⟩ | ⟨body, rfl, hbody, hr⟩⟩
    · cases t with
      | nil => exact absurd rfl hne
      | cons c t =>
        obtain ⟨hc, ht⟩ := List.forall_mem_cons.mp ht
        simp only [cut?, List.cons_append, hc, if_true]
        rw [run_eq_iff.mpr ⟨t, rfl, rfl, rfl, ht, hr⟩]
    · obtain ⟨htake, hdrop⟩ : (body ++ r).takeWhile (· ≠ '\n') = body ∧
          (body ++ r).dropWhile (· ≠ '\n') = r :=
        takeWhile_dropWhile_append (by simpa using hbody) (by simpa using hr)
      change some (⟨none, '/' :: '/' :: (body ++ r).takeWhile (· ≠ '\n'),
        (body ++ r).dropWhile (· ≠ '\n')⟩ : Cut) = _
      rw [htake, hdrop]

/-- Whether a character starts a lexeme does not depend on what follows it. -/
theorem cut?_cons_eq_none (h : cut? (c :: cs) = none) (ds : List Char) :
    cut? (c :: ds) = none := by
  have hsign (cs : List Char) : sign? c cs = none ↔
      c ∉ ['=', '>', '<', '+', '-', '*', '/', '%', ';', ',', '(', ')', '\x7b', '\x7d'] := by
    unfold sign?
    split <;> simp_all
  simp only [cut?] at h ⊢
  split_ifs at h ⊢
  exact (hsign ds).mpr ((hsign cs).mp h)

/-- A lexeme goes by the one character behind it only. -/
theorem cut?_congr {o : Option Symbol} {r' : List Char} (h : cut? (t ++ r) = some ⟨o, t, r⟩)
    (hr : r.head? = r'.head?) : cut? (t ++ r') = some ⟨o, t, r'⟩ := by
  cases o with
  | some s =>
    obtain ⟨hs, ht, -, hends⟩ := cut?_eq_token_iff.mp h
    exact cut?_eq_token_iff.mpr ⟨hs, ht, rfl, fun c hc => hends c (hr ▸ hc)⟩
  | none =>
    obtain ⟨-, ⟨hne, ht, hblank⟩ | ⟨body, ht, hbody, hend⟩⟩ := cut?_eq_skip_iff.mp h
    · exact cut?_eq_skip_iff.mpr ⟨rfl, .inl ⟨hne, ht, fun c hc => hblank c (hr ▸ hc)⟩⟩
    · exact cut?_eq_skip_iff.mpr ⟨rfl, .inr ⟨body, ht, hbody, fun c hc => hend c (hr ▸ hc)⟩⟩

def isComment (l : Lexeme) : Bool := l.symbol.isNone && l.text.head? == some '/'

theorem isComment_of_getLast? {ls : List Lexeme} (h : ∃ l ∈ ls.getLast?, l.symbol.isSome = true) :
    ∀ l ∈ ls.getLast?, l.isComment = false := by
  obtain ⟨last, hlast, hsome⟩ := h
  intro l hl
  obtain rfl := Option.mem_unique hl hlast
  simp [isComment, Option.isNone_eq_false_iff.mpr hsome]

end Lexeme

/-! ### The symbols of a text -/

namespace Scan

open Lexeme

variable {cs rest : List Char} {ss : List Symbol}

/-- The symbols of a text, and what is left of it where no lexeme starts. -/
inductive Spells : List Char → List Symbol → List Char → Prop where
  | stop {cs : List Char} (hc : cut? cs = none) : Spells cs [] cs
  | cut {cs rest : List Char} {piece : Cut} {ss : List Symbol} (hc : cut? cs = some piece)
      (hrest : Spells piece.rest ss rest) : Spells cs (piece.symbol.toList ++ ss) rest

theorem spells_run (p : Position) (cs : List Char) :
    Spells cs (run p cs).symbols (run p cs).rest := by
  fun_induction run p cs with
  | case1 p cs hc => exact .stop hc
  | case2 p cs piece hc scan ih =>
    have h := Spells.cut hc ih
    cases hs : piece.symbol <;> simp_all [symbols, tokens, scan]

/-- A text has its symbols by itself, wherever it starts. -/
theorem Spells.unique {ss' : List Symbol} {rest' : List Char} (h : Spells cs ss rest)
    (h' : Spells cs ss' rest') : ss = ss' ∧ rest = rest' := by
  induction h generalizing ss' rest' with
  | stop hc =>
    cases h' with
    | stop => exact ⟨rfl, rfl⟩
    | cut hc' => simp [hc] at hc'
  | cut hc hrest ih =>
    cases h' with
    | stop hc' => simp [hc] at hc'
    | cut hc' hrest' =>
      obtain rfl := Option.some.inj (hc.symm.trans hc')
      obtain ⟨rfl, rfl⟩ := ih hrest'
      exact ⟨rfl, rfl⟩

theorem spells_iff {p : Position} :
    Spells cs ss rest ↔ (run p cs).symbols = ss ∧ (run p cs).rest = rest := by
  constructor
  · exact fun h => (spells_run p cs).unique h
  · rintro ⟨rfl, rfl⟩
    exact spells_run p cs

theorem spells_dropWhile_isBlank : Spells (cs.dropWhile isBlank) ss rest ↔ Spells cs ss rest := by
  cases cs with
  | nil => rfl
  | cons c cs =>
    cases hc : isBlank c with
    | false => simp [hc]
    | true =>
      have hcut := cut?_of_isBlank hc cs
      constructor
      · exact fun h => .cut hcut h
      · intro h
        cases h with
        | stop hstop => simp [hcut] at hstop
        | cut hcut' hrest =>
          cases hcut.symm.trans hcut'
          exact hrest

theorem Spells.blank {c : Char} (hc : isBlank c = true) (h : Spells cs ss rest) :
    Spells (c :: cs) ss rest := by
  rw [← spells_dropWhile_isBlank] at h ⊢
  rwa [List.dropWhile_cons_of_pos hc]

theorem Spells.comment {body : List Char} (hbody : ∀ c ∈ body, c ≠ '\n')
    (h : Spells cs ss rest) : Spells ('/' :: '/' :: body ++ '\n' :: cs) ss rest := by
  have hcut : cut? ('/' :: '/' :: body ++ '\n' :: cs) =
      some ⟨none, '/' :: '/' :: body, '\n' :: cs⟩ :=
    cut?_eq_skip_iff.mpr ⟨rfl, .inr ⟨body, rfl, hbody, by simp⟩⟩
  exact .cut hcut (h.blank rfl)

theorem Spells.token {s : Symbol} (hs : s.isProper = true) (hends : s.Ends cs)
    (h : Spells cs ss rest) : Spells (s.text.toList ++ cs) (s :: ss) rest :=
  .cut (cut?_eq_token_iff.mpr ⟨hs, rfl, rfl, hends⟩) h

theorem Spells.separators (h : Spells cs ss rest) (n : Nat) :
    Spells (List.replicate n ';' ++ cs) (List.replicate n .separator ++ ss) rest := by
  induction n with
  | zero => exact h
  | succ n ih => exact .token (s := .separator) rfl (fun _ _ => rfl) ih

/-- White space, and comments that end with their lines. -/
inductive Layout : List Char → Prop where
  | nil : Layout []
  | blank {c : Char} {cs : List Char} (hc : isBlank c = true) (h : Layout cs) : Layout (c :: cs)
  | comment {body cs : List Char} (hbody : ∀ c ∈ body, c ≠ '\n') (h : Layout cs) :
      Layout ('/' :: '/' :: body ++ '\n' :: cs)

theorem Layout.spells {gap : List Char} (h : Layout gap) (hcs : Spells cs ss rest) :
    Spells (gap ++ cs) ss rest := by
  induction h with
  | nil => exact hcs
  | blank hc h ih => exact ih.blank hc
  | comment hbody h ih =>
    rw [List.append_assoc]
    exact ih.comment hbody

theorem Layout.of_isBlank {gap : List Char} (h : ∀ c ∈ gap, isBlank c = true) : Layout gap := by
  induction gap with
  | nil => exact .nil
  | cons c gap ih =>
    obtain ⟨hc, hgap⟩ := List.forall_mem_cons.mp h
    exact .blank hc (ih hgap)

/-! ### Lexemes in front of a text -/

theorem symbols_tokensOf_cons (l : Lexeme) (ls : List Lexeme) :
    (tokensOf (l :: ls)).map Token.symbol = l.symbol.toList ++ (tokensOf ls).map Token.symbol := by
  rw [tokensOf_cons, List.map_append]
  cases hs : l.symbol <;> simp [token?, hs]

/-- Lexemes that are cut off one after another with a text behind them. -/
inductive Leads : List Lexeme → List Char → Prop where
  | nil {cs : List Char} : Leads [] cs
  | cons {l : Lexeme} {ls : List Lexeme} {cs : List Char}
      (hl : cut? (l.text ++ (textOf ls ++ cs)) = some ⟨l.symbol, l.text, textOf ls ++ cs⟩)
      (hls : Leads ls cs) : Leads (l :: ls) cs

theorem leads_of_lexemes {p : Position} {xs ys : List Lexeme}
    (h : (run p cs).lexemes = xs ++ ys) : Leads xs (textOf ys ++ (run p cs).rest) := by
  induction xs generalizing p cs with
  | nil => exact .nil
  | cons x xs ih =>
    have hfirst : (run p cs).lexemes = [] ++ x :: (xs ++ ys) := h
    have hothers : (run p cs).lexemes = [x] ++ (xs ++ ys) := h
    have hcut := (cut?_of_lexemes hfirst).2
    have hrun := run_behind hothers
    have htail := ih (congrArg lexemes hrun)
    rw [hrun] at htail
    rw [textOf_append, List.append_assoc] at hcut
    exact .cons hcut htail

/-- Lexemes in the middle of a text are cut off it as well. -/
theorem leads_behind {p : Position} {xs ys zs : List Lexeme}
    (h : (run p cs).lexemes = xs ++ (zs ++ ys)) : Leads zs (textOf ys ++ (run p cs).rest) := by
  have hrun := run_behind h
  have hleads := leads_of_lexemes (congrArg lexemes hrun)
  rwa [hrun] at hleads

theorem spells_of_lexemes {p : Position} {xs ys : List Lexeme} (h : (run p cs).lexemes = xs ++ ys) :
    Spells (textOf ys ++ (run p cs).rest) ((tokensOf ys).map Token.symbol) (run p cs).rest := by
  have hspells := spells_run (p.after (textOf xs)) (textOf ys ++ (run p cs).rest)
  rw [run_behind h] at hspells
  exact hspells

/-- The lexemes before a seam stay what they are if what comes behind them makes none of them longer
and they do not end with a comment. -/
theorem Leads.spells {xs : List Lexeme} {c : Char} {cs' : List Char} (h : Leads xs cs)
    (hcomment : ∀ l ∈ xs.getLast?, l.isComment = false) (hc : ∀ s : Symbol, s.extendedBy c = false)
    (h' : Spells (c :: cs') ss rest) :
    Spells (textOf xs ++ c :: cs') ((tokensOf xs).map Token.symbol ++ ss) rest := by
  induction h with
  | nil => exact h'
  | @cons l ls cs hl hls ih =>
    rw [symbols_tokensOf_cons, textOf_cons, List.append_assoc, List.append_assoc]
    cases hls with
    | nil =>
      have hlast := hcomment l rfl
      cases hs : l.symbol with
      | some s =>
        rw [hs] at hl
        obtain ⟨hproper, htext, -⟩ := cut?_eq_token_iff.mp hl
        rw [htext]
        exact h'.token hproper (Symbol.ends_cons.mpr (hc s))
      | none =>
        rw [hs] at hl
        obtain ⟨-, ⟨-, hblank, -⟩ | ⟨body, htext, -⟩⟩ := cut?_eq_skip_iff.mp hl
        · exact (Layout.of_isBlank hblank).spells h'
        · simp [isComment, hs, htext] at hlast
    | @cons l' ls' _ hl' _ =>
      obtain ⟨d, t, htext⟩ := List.exists_cons_of_ne_nil (cut?_text_ne_nil hl')
      have hhead : (textOf (l' :: ls') ++ cs).head? = (textOf (l' :: ls') ++ c :: cs').head? := by
        simp [show l'.text = d :: t from htext]
      exact .cut (cut?_congr hl hhead) (ih (by simpa using hcomment))

theorem cut?_token_not_isBlank {piece : Cut} (h : cut? cs = some piece)
    (hs : piece.symbol.isSome = true) : ∀ c ∈ cs.head?, isBlank c = false := by
  intro c hc
  obtain ⟨cs, rfl⟩ := List.head?_eq_some_iff.mp hc
  rw [Bool.eq_false_iff]
  intro hblank
  obtain rfl := Option.some.inj (h.symm.trans (cut?_of_isBlank hblank cs))
  cases hs

/-- Behind a comment its line ends, so no token follows it at once. -/
theorem isComment_of_token {p : Position} {xs ys : List Lexeme} {l : Lexeme}
    (h : (run p cs).lexemes = xs ++ l :: ys) (hl : l.symbol.isSome = true) :
    ∀ x ∈ xs.getLast?, x.isComment = false := by
  intro x hx
  rw [Bool.eq_false_iff]
  intro hcomment
  have hnone : x.symbol = none ∧ x.text.head? = some '/' := by simpa [isComment] using hcomment
  have hnext := cut?_token_not_isBlank (cut?_of_lexemes h).2 hl
  obtain ⟨d, t, htext⟩ := List.exists_cons_of_ne_nil (cut?_text_ne_nil (cut?_of_lexemes h).2)
  obtain ⟨xs, rfl⟩ := List.getLast?_eq_some_iff.mp hx
  rw [List.append_assoc, List.singleton_append] at h
  have hcut := (cut?_of_lexemes h).2
  rw [hnone.1, textOf_cons, List.append_assoc] at hcut
  obtain ⟨-, ⟨-, hblank, -⟩ | ⟨body, -, -, hend⟩⟩ := cut?_eq_skip_iff.mp hcut
  · exact absurd (hblank '/' (List.mem_of_mem_head? hnone.2)) (by decide)
  · have hd : d ∈ (l.text ++ (textOf ys ++ (run p cs).rest)).head? := by simp_all
    rw [hend d hd] at hd
    exact absurd (hnext '\n' hd) (by decide)

end Scan

/-- Nothing becomes longer by blanks, separators and brackets. -/
theorem Symbol.extendedBy_eq_false {c : Char}
    (hc : Lexeme.isBlank c = true ∨ c = ';' ∨ c = '(' ∨ c = ')') (s : Symbol) :
    s.extendedBy c = false := by
  have hcs : c ∈ [' ', '\t', '\x0c', '\r', '\n', ';', '(', ')'] := by
    simp only [Lexeme.isBlank, Bool.or_eq_true, beq_iff_eq] at hc
    simp only [List.mem_cons, List.not_mem_nil, or_false]
    tauto
  have hall : ([' ', '\t', '\x0c', '\r', '\n', ';', '(', ')'].all fun c => !s.extendedBy c) := by
    cases s with
    | operator op => cases op <;> rfl
    | _ => rfl
  simpa using List.all_eq_true.mp hall c hcs

end Scriptlet
