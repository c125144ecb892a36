import Mathlib.Data.List.Basic
import Scriptlet.Proofs.Scanning.Seams

/-! What texts are cut into. By itself a stretch of text is a token, blanks or a comment, and a scan
takes the longest that starts where the one before it ends. Main statement: the lexemes of a text
are all of it up to where no stretch starts, each as long as it can be and at its line and column,
and no other lexemes are so; no name among them is a keyword, and no keyword a part of a name. -/

namespace Scriptlet

namespace Lexeme

open Scriptlet.Symbol

variable {c : Char} {cs t u r : List Char} {o o' : Option Symbol}

/-! ### Stretches -/

/-- What a stretch of text is by itself: a symbol as it is written, or blanks or a comment, which
are no symbol. -/
inductive Stretch : Option Symbol → List Char → Prop where
  | token {s : Symbol} (hs : s.isProper = true) : Stretch (some s) s.text.toList
  | blanks {t : List Char} (hne : t ≠ []) (ht : ∀ c ∈ t, isBlank c = true) : Stretch none t
  | comment {body : List Char} (hbody : ∀ c ∈ body, c ≠ '\n') : Stretch none ('/' :: '/' :: body)

/-- A stretch with nothing behind it is one lexeme. -/
theorem Stretch.cut?_eq (h : Stretch o t) : cut? t = some ⟨o, t, []⟩ := by
  have hnil : t = t ++ [] := (List.append_nil t).symm
  cases h with
  | token hs => exact cut?_eq_token_iff.mpr ⟨hs, rfl, hnil, ends_nil _⟩
  | blanks hne ht => exact cut?_eq_skip_iff.mpr ⟨hnil, .inl ⟨hne, ht, by simp⟩⟩
  | comment hbody => exact cut?_eq_skip_iff.mpr ⟨hnil, .inr ⟨_, rfl, hbody, by simp⟩⟩

theorem Stretch.of_cut? (h : cut? cs = some ⟨o, t, r⟩) : Stretch o t := by
  cases o with
  | some s =>
    obtain ⟨hs, rfl, -⟩ := cut?_eq_token_iff.mp h
    exact .token hs
  | none =>
    obtain ⟨-, ⟨hne, ht, -⟩ | ⟨body, rfl, hbody, -⟩⟩ := cut?_eq_skip_iff.mp h
    · exact .blanks hne ht
    · exact .comment hbody

/-- No stretch is two things. -/
theorem Stretch.unique (h : Stretch o t) (h' : Stretch o' t) : o = o' := by
  have hcut := h.cut?_eq.symm.trans h'.cut?_eq
  exact congrArg Cut.symbol (Option.some.inj hcut)

/-! ### Longest stretches -/

/-- Nothing at the front of a text is a stretch. -/
def Foreign (cs : List Char) : Prop := ∀ o t, Stretch o t → ¬ t <+: cs

/-- The longest stretch at the front of a text. -/
structure Longest (o : Option Symbol) (t cs : List Char) : Prop where
  stretch : Stretch o t
  front : t <+: cs
  longest : ∀ o' u, Stretch o' u → u <+: cs → u.length ≤ t.length

theorem cut?_eq_none_iff : cut? cs = none ↔ Foreign cs := by
  constructor
  · rintro hnone o t ht ⟨r, rfl⟩
    obtain ⟨c, t, rfl⟩ := List.exists_cons_of_ne_nil (cut?_text_ne_nil ht.cut?_eq)
    have hstretch := cut?_cons_eq_none hnone t
    rw [ht.cut?_eq] at hstretch
    cases hstretch
  · intro hforeign
    cases h : cut? cs with
    | none => rfl
    | some piece => exact absurd ⟨piece.rest, cut?_eq h⟩ (hforeign _ _ (.of_cut? h))

/-- No stretch goes on beyond the end of a lexeme. -/
theorem length_le_of_cut? (h : cut? (t ++ r) = some ⟨o, t, r⟩) (hu : Stretch o' u)
    (hfront : u <+: t ++ r) : u.length ≤ t.length := by
  by_contra hlonger
  obtain ⟨v, rfl⟩ := List.prefix_of_prefix_length_le (List.prefix_append t r) hfront (by omega)
  have hv : v <+: r := (List.prefix_append_right_inj t).mp hfront
  cases v with
  | nil => simp at hlonger
  | cons d v =>
    -- the longer stretch would be cut where the lexeme is, as the same character follows
    have hhead : r.head? = (d :: v).head? := by
      obtain ⟨rest, rfl⟩ := hv
      rfl
    have hcut := (cut?_congr h hhead).symm.trans hu.cut?_eq
    cases congrArg Cut.rest (Option.some.inj hcut)

theorem longest_of_cut? (h : cut? cs = some ⟨o, t, r⟩) : Longest o t cs := by
  obtain rfl : t ++ r = cs := cut?_eq h
  exact ⟨.of_cut? h, List.prefix_append t r, fun o' u hu => length_le_of_cut? h hu⟩

/-- What is cut off a text is the longest stretch at its front. -/
theorem cut?_eq_some_iff : cut? cs = some ⟨o, t, r⟩ ↔ t ++ r = cs ∧ Longest o t cs := by
  constructor
  · exact fun h => ⟨cut?_eq h, longest_of_cut? h⟩
  · rintro ⟨rfl, hstretch, hfront, hlongest⟩
    cases h : cut? (t ++ r) with
    | none => exact absurd hfront (cut?_eq_none_iff.mp h o t hstretch)
    | some piece =>
      obtain ⟨o', u, r'⟩ := piece
      have hother := longest_of_cut? h
      have hlength : t.length = u.length :=
        Nat.le_antisymm (hother.longest o t hstretch hfront)
          (hlongest o' u hother.stretch hother.front)
      obtain ⟨rfl, rfl⟩ := List.append_inj (cut?_eq h) hlength.symm
      rw [hstretch.unique hother.stretch]

/-! ### Words -/

/-- Whether a text starts and goes on like a name, as keywords do as well. -/
def isWord : List Char → Bool
  | [] => false
  | c :: cs => isNameStart c && cs.all isNameRest

theorem isNameRest_of_isWord (h : isWord t = true) : ∀ c ∈ t, isNameRest c = true := by
  cases t with
  | nil => cases h
  | cons c t =>
    simp only [isWord, Bool.and_eq_true, List.all_eq_true] at h
    exact List.forall_mem_cons.mpr ⟨by simp [isNameRest, h.1], h.2⟩

theorem isWord_of_append (hne : t ≠ []) (h : isWord (t ++ u) = true) : isWord t = true := by
  cases t with
  | nil => exact absurd rfl hne
  | cons c t =>
    simp only [List.cons_append, isWord, Bool.and_eq_true, List.all_append] at h ⊢
    exact ⟨h.1, h.2.1⟩

theorem isWord_eq_false_of_isDigit (h : ∀ c ∈ t, c.isDigit = true) : isWord t = false := by
  cases t with
  | nil => rfl
  | cons c t => simp [isWord, isNameStart_eq_false_of_isDigit (h c List.mem_cons_self)]

/-- Before a character of a name there ends a numeral or what has no such character at its end. -/
theorem last_of_cut? (h : cut? (t ++ r) = some ⟨o, t, r⟩) (hc : c ∈ r.head?)
    (hrest : isNameRest c = true) :
    (∀ d ∈ t, d.isDigit = true) ∨ ∀ d ∈ t.getLast?, isNameRest d = false := by
  cases o with
  | none =>
    obtain ⟨-, ⟨-, hblank, -⟩ | ⟨body, -, -, hend⟩⟩ := cut?_eq_skip_iff.mp h
    · refine .inr fun d hd => ?_
      have hd := hblank d (List.mem_of_getLast? hd)
      rw [Bool.eq_false_iff]
      intro hname
      simp [isBlank_eq_false_of_isNameRest hname] at hd
    · obtain rfl := hend c hc
      exact absurd hrest (by decide)
  | some s =>
    obtain ⟨hs, rfl, -, hends⟩ := cut?_eq_token_iff.mp h
    have hnot := hends c hc
    cases s with
    | number digits =>
      simp only [isProper, isNumeral, Bool.and_eq_true, List.all_eq_true] at hs
      exact .inl hs.2
    | name word => simp [extendedBy, hrest] at hnot
    | keyword k => simp [extendedBy, hrest] at hnot
    | operator op =>
      refine .inr ?_
      cases op <;> simp [Symbol.text, Operator.symbol] <;> rfl
    | _ => exact .inr (by simp [Symbol.text]; rfl)

/-- A word that ends with a lexeme, before a character of a name, starts further in front, and the
lexeme starts with a digit. -/
theorem exists_word_before {before left : List Char} (h : cut? (t ++ r) = some ⟨o, t, r⟩)
    (hc : c ∈ r.head?) (hrest : isNameRest c = true) (hleft : left <:+ before ++ t)
    (hword : isWord left = true) :
    ∃ word d, isWord word = true ∧ word <:+ before ∧ d ∈ t.head? ∧ d.isDigit = true := by
  have hne : t ≠ [] := cut?_text_ne_nil h
  obtain ⟨front, hfront⟩ := hleft
  obtain hdigits | hlast := last_of_cut? h hc hrest
  · obtain ⟨word, hbefore, rfl⟩ | ⟨digits, -, rfl⟩ := List.append_eq_append_iff.mp hfront
    · have hnil : word ≠ [] := by
        rintro rfl
        simp [isWord_eq_false_of_isDigit hdigits] at hword
      obtain ⟨d, digits, rfl⟩ := List.exists_cons_of_ne_nil hne
      exact ⟨word, d, isWord_of_append hnil hword, ⟨front, hbefore.symm⟩, rfl,
        hdigits d List.mem_cons_self⟩
    · have hleft : ∀ d ∈ left, d.isDigit = true := fun d hd =>
        hdigits d (List.mem_append_right digits hd)
      simp [isWord_eq_false_of_isDigit hleft] at hword
  · have hnil : left ≠ [] := by
      rintro rfl
      cases hword
    have hend : t.getLast? = some (left.getLast hnil) := by
      rw [← List.getLast?_append_of_ne_nil before hne, ← hfront,
        List.getLast?_append_of_ne_nil front hnil, List.getLast?_eq_some_getLast hnil]
    have hnot := hlast _ hend
    simp [isNameRest_of_isWord hword _ (List.getLast_mem hnil)] at hnot

end Lexeme

namespace Scan

open Lexeme

variable {p : Position} {cs text left right : List Char} {scan : Scan} {xs ys : List Lexeme}
  {l : Lexeme}

/-! ### Exact scans -/

/-- What a scan is to its text: its lexemes and what is left are the text, no stretch starts where
they end, and each is the longest stretch there is where it stands, at its line and column. -/
structure Exact (text : List Char) (scan : Scan) : Prop where
  lossless : textOf scan.lexemes ++ scan.rest = text
  foreign : Foreign scan.rest
  longest : ∀ xs l ys, scan.lexemes = xs ++ l :: ys →
    Longest l.symbol l.text (textOf (l :: ys) ++ scan.rest)
  position : ∀ xs l ys, scan.lexemes = xs ++ l :: ys → l.position = .behind (textOf xs)

theorem foreign_rest (p : Position) (cs : List Char) : Foreign (run p cs).rest := by
  fun_induction run p cs with
  | case1 p cs hc => exact cut?_eq_none_iff.mp hc
  | case2 p cs piece hc scan ih => exact ih

theorem longest_of_lexemes (h : (run p cs).lexemes = xs ++ l :: ys) :
    Longest l.symbol l.text (textOf (l :: ys) ++ (run p cs).rest) := by
  rw [textOf_cons, List.append_assoc]
  exact longest_of_cut? (cut?_of_lexemes h).2

theorem exact_ofText (text : List Char) : Exact text (ofText text) where
  lossless := text_run .start text
  foreign := foreign_rest .start text
  longest _ _ _ h := longest_of_lexemes h
  position _ _ _ h := position_of_lexemes h

/-- Longest stretches, one behind the other up to where none starts, are what a text is cut into. -/
theorem run_eq_of_longest {ls : List Lexeme} {rest : List Char} (hrest : Foreign rest)
    (hls : ∀ xs l ys, ls = xs ++ l :: ys → Longest l.symbol l.text (textOf (l :: ys) ++ rest) ∧
      l.position = p.after (textOf xs)) : run p (textOf ls ++ rest) = ⟨ls, rest⟩ := by
  induction ls generalizing p with
  | nil => exact run_of_cut?_eq_none (cut?_eq_none_iff.mpr hrest) p
  | cons l ls ih =>
    obtain ⟨hlongest, hposition⟩ := hls [] l ls rfl
    have hcut : cut? (textOf (l :: ls) ++ rest) = some ⟨l.symbol, l.text, textOf ls ++ rest⟩ :=
      cut?_eq_some_iff.mpr ⟨by rw [textOf_cons, List.append_assoc], hlongest⟩
    have hothers : run (p.after l.text) (textOf ls ++ rest) = ⟨ls, rest⟩ := by
      refine ih fun xs l' ys h => ?_
      obtain ⟨hlongest', hposition'⟩ := hls (l :: xs) l' ys (by rw [h, List.cons_append])
      rw [textOf_cons, Position.after_append] at hposition'
      exact ⟨hlongest', hposition'⟩
    have hfirst : (⟨l.symbol, l.text, p⟩ : Lexeme) = l := by
      rw [show p = l.position from hposition.symm]
    rw [run_of_cut? hcut, hothers, hfirst]

theorem Exact.eq_ofText (h : Exact text scan) : scan = ofText text := by
  rw [← h.lossless]
  refine (run_eq_of_longest h.foreign fun xs l ys hls => ⟨h.longest xs l ys hls, ?_⟩).symm
  rw [h.position xs l ys hls, Position.after_start]

/-! ### Tokens in their text -/

/-- No word ends where a lexeme does if a character of a name is behind it. -/
theorem isWord_eq_false_of_suffix {c : Char} (h : (run p cs).lexemes = xs ++ ys)
    (hc : c ∈ (textOf ys ++ (run p cs).rest).head?) (hrest : isNameRest c = true)
    (hleft : left <:+ textOf xs) : isWord left = false := by
  induction xs using List.reverseRecOn generalizing ys left c with
  | nil =>
    obtain rfl := List.suffix_nil.mp hleft
    rfl
  | append_singleton xs x ih =>
    rw [List.append_assoc, List.singleton_append] at h
    have htext : textOf (xs ++ [x]) = textOf xs ++ x.text := by
      rw [textOf_append, textOf_cons, show textOf [] = [] from rfl, List.append_nil]
    rw [Bool.eq_false_iff]
    intro hword
    rw [htext] at hleft
    -- a word in front of the last lexeme would have a digit behind it
    obtain ⟨word, d, hword, hbefore, hd, hdigit⟩ :=
      exists_word_before (cut?_of_lexemes h).2 hc hrest hleft hword
    have hhead : d ∈ (textOf (x :: ys) ++ (run p cs).rest).head? := by
      obtain ⟨digits, hx⟩ := List.head?_eq_some_iff.mp hd
      rw [textOf_cons, hx]
      rfl
    have hnot := ih h hhead (by simp [isNameRest, hdigit]) hbefore
    simp [hword] at hnot

/-- What a token is to the text before and behind it: a name is no keyword, a keyword is no part of
a longer name, the next character makes no longer token of it, and a slash has no slash behind it,
which would be a comment. -/
structure Whole (before : List Char) (s : Symbol) (behind : List Char) : Prop where
  name : ∀ word, s = .name word → ∀ k : Keyword, k.text ≠ word
  keyword : ∀ k, s = .keyword k → ∀ left right, left <:+ before → right <+: behind →
    isWord (left ++ k.text.toList ++ right) = true → left = [] ∧ right = []
  next : ∀ c ∈ behind.head?, ∀ s' : Symbol, s'.isProper = true →
    s'.text.toList ≠ s.text.toList ++ [c]
  slash : s = .operator .div → behind.head? ≠ some '/'

theorem keyword_of_lexemes {k : Keyword} (h : (run p cs).lexemes = xs ++ l :: ys)
    (hl : l.symbol = some (.keyword k)) (hleft : left <:+ textOf xs)
    (hright : right <+: textOf ys ++ (run p cs).rest)
    (hword : isWord (left ++ k.text.toList ++ right) = true) : left = [] ∧ right = [] := by
  obtain ⟨-, htext, hends⟩ := symbol_of_lexemes h hl
  obtain ⟨c, t, hk, hc, -⟩ := keyword_text k
  constructor
  · by_contra hne
    rw [List.append_assoc] at hword
    have hhead : c ∈ (textOf (l :: ys) ++ (run p cs).rest).head? := by
      simp [htext, Symbol.text, hk]
    have hnot := isWord_eq_false_of_suffix h hhead (by simp [isNameRest, hc]) hleft
    simp [isWord_of_append hne hword] at hnot
  · cases right with
    | nil => rfl
    | cons d right =>
      obtain ⟨rest, hrest⟩ := hright
      have hnot : isNameRest d = false := hends d (by rw [← hrest]; rfl)
      simp [isNameRest_of_isWord hword d (by simp)] at hnot

theorem next_of_lexemes {c : Char} {s : Symbol} (h : (run p cs).lexemes = xs ++ l :: ys)
    (hc : c ∈ (textOf ys ++ (run p cs).rest).head?) (hs : s.isProper = true) :
    s.text.toList ≠ l.text ++ [c] := by
  intro htext
  obtain ⟨rest, hrest⟩ := List.head?_eq_some_iff.mp hc
  have hfront : s.text.toList <+: textOf (l :: ys) ++ (run p cs).rest :=
    ⟨rest, by rw [htext, textOf_cons, List.append_assoc, List.append_assoc, hrest]; rfl⟩
  have hlength := (longest_of_lexemes h).longest _ _ (.token hs) hfront
  rw [htext, List.length_append, List.length_singleton] at hlength
  omega

theorem whole_of_lexemes {s : Symbol} (h : (run p cs).lexemes = xs ++ l :: ys)
    (hl : l.symbol = some s) : Whole (textOf xs) s (textOf ys ++ (run p cs).rest) := by
  obtain ⟨hs, htext, hends⟩ := symbol_of_lexemes h hl
  constructor
  case name =>
    rintro word rfl k rfl
    obtain ⟨c, t, -, -, -, hnone⟩ := Symbol.isName_iff.mp hs
    simp [Keyword.ofText?_text] at hnone
  case keyword =>
    rintro k rfl left right hleft hright hword
    exact keyword_of_lexemes h hl hleft hright hword
  case next =>
    intro c hc s' hs'
    rw [← htext]
    exact next_of_lexemes h hc hs'
  case slash =>
    rintro rfl hhead
    exact absurd (hends '/' hhead) (by decide)

/-- A text has one exact scan, and the tokens of that scan are, in order, the lexemes that have a
symbol, each written as its symbol is, at its line and column, and whole. -/
theorem text_cut_exactly (text : List Char) :
    (∀ scan, Exact text scan ↔ scan = ofText text) ∧
      ∀ before t after, (ofText text).tokens = before ++ t :: after →
        ∃ xs l ys, (ofText text).lexemes = xs ++ l :: ys ∧ l.symbol = some t.symbol ∧
          tokensOf xs = before ∧ tokensOf ys = after ∧ l.text = t.symbol.text.toList ∧
          t.position = .behind (textOf xs) ∧
          Whole (textOf xs) t.symbol (textOf ys ++ (ofText text).rest) := by
  refine ⟨fun scan => ⟨Exact.eq_ofText, ?_⟩, fun before t after htokens => ?_⟩
  · rintro rfl
    exact exact_ofText text
  · obtain ⟨xs, l, ys, h, hl, hposition, hbefore, hafter⟩ := exists_of_tokensOf_eq htokens
    refine ⟨xs, l, ys, h, hl, hbefore, hafter, (symbol_of_lexemes h hl).2.1, ?_,
      whole_of_lexemes h hl⟩
    rw [← hposition, position_of_lexemes h]

/-- A keyword is cut out right behind a numeral and right before a slash, but not out of a longer
name. -/
theorem keyword_between_numeral_and_slash :
    let text := "x//\r=\n1if/iffy==#".toList
    let before : List Token := [⟨.name "x", ⟨1, 1⟩⟩, ⟨.number "1", ⟨2, 1⟩⟩]
    let after : List Token :=
      [⟨.operator .div, ⟨2, 4⟩⟩, ⟨.name "iffy", ⟨2, 5⟩⟩, ⟨.operator .eq, ⟨2, 9⟩⟩]
    (ofText text).tokens = before ++ ⟨.keyword .ifWord, ⟨2, 2⟩⟩ :: after ∧
      (ofText text).rest = ['#'] ∧ Exact text (ofText text) ∧
      ∃ xs l ys, (ofText text).lexemes = xs ++ l :: ys ∧ tokensOf xs = before ∧
        tokensOf ys = after ∧ ⟨2, 2⟩ = Position.behind (textOf xs) ∧
        Whole (textOf xs) (.keyword .ifWord) (textOf ys ++ (ofText text).rest) := by
  intro text before after
  have htokens : (ofText text).tokens = before ++ ⟨.keyword .ifWord, ⟨2, 2⟩⟩ :: after := by
    with_unfolding_all rfl
  obtain ⟨hexact, htoken⟩ := text_cut_exactly text
  obtain ⟨xs, l, ys, hlexemes, -, hbefore, hafter, -, hposition, hwhole⟩ :=
    htoken before _ after htokens
  exact ⟨htokens, by with_unfolding_all rfl, (hexact _).mpr rfl,
    xs, l, ys, hlexemes, hbefore, hafter, hposition, hwhole⟩

end Scan

end Scriptlet
