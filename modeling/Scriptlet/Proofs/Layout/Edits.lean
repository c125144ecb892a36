import Mathlib.Logic.Relation
import Scriptlet.Proofs.Grammar.Malformed
import Scriptlet.Proofs.Grammar.Replacement
import Scriptlet.Proofs.Scanning.Seams

/-! Changes to a text that do not count. White space and comments between tokens, more separators
around statements and brackets around expressions may be put in. Main statement: a text and what
becomes of it by such changes are both programs or both none, and stand for the same up to
positions. -/

namespace Scriptlet.Program

open Lexeme Scriptlet.Derivation

/-- Changes to a text: layout next to a token, and in a text that the grammar derives, several
separators for one, separators before or behind the statements of the program or of a block, outside
of comments, and brackets around an expression. -/
inductive Edit : String → String → Prop where
  | layout {source source' : String} {xs ys : List Lexeme} {c : Char} {gap : List Char}
      (hscan : (Scan.ofText source.toList).lexemes = xs ++ ys)
      (htoken : (∃ l ∈ xs.getLast?, l.symbol.isSome = true) ∨
        ∃ l ∈ ys.head?, l.symbol.isSome = true)
      (hc : isBlank c = true) (hgap : Scan.Layout gap)
      (htext : source'.toList =
        textOf xs ++ (c :: gap ++ (textOf ys ++ (Scan.ofText source.toList).rest))) :
      Edit source source'
  | repeated {source source' : String} {xs ys : List Lexeme} {l : Lexeme}
      (hderivable : Derivable source)
      (hscan : (Scan.ofText source.toList).lexemes = xs ++ l :: ys)
      (hl : l.symbol = some .separator) (n : Nat)
      (htext : source'.toList = textOf xs ++ (List.replicate (n + 1) ';' ++ textOf ys)) :
      Edit source source'
  | separators {source source' : String} {xs ys : List Lexeme} {d o : Derivation .statements}
      {before after : List Token} (hrest : (Scan.ofText source.toList).rest = [])
      (hd : d.tokens = (Scan.ofText source.toList).tokens) (ho : d.Occurs before o after)
      (hscan : (Scan.ofText source.toList).lexemes = xs ++ ys)
      (hcomment : ∀ l ∈ xs.getLast?, l.isComment = false)
      (hplace : tokensOf xs = before ∨ tokensOf xs = before ++ o.tokens) (n : Nat)
      (htext : source'.toList = textOf xs ++ (List.replicate (n + 1) ';' ++ textOf ys)) :
      Edit source source'
  | brackets {source source' : String} {xs zs ys : List Lexeme} {d : Derivation .statements}
      {k : Nonterminal} {o : Derivation k} {before after : List Token}
      (hrest : (Scan.ofText source.toList).rest = [])
      (hd : d.tokens = (Scan.ofText source.toList).tokens) (ho : d.Occurs before o after)
      (hk : k ∈ [Nonterminal.expr, .sum, .product, .unary, .call, .atom])
      (hscan : (Scan.ofText source.toList).lexemes = xs ++ (zs ++ ys))
      (hbefore : tokensOf xs = before) (htokens : tokensOf zs = o.tokens)
      (hfirst : ∃ l ∈ zs.head?, l.symbol.isSome = true)
      (hlast : ∃ l ∈ zs.getLast?, l.symbol.isSome = true)
      (htext : source'.toList = textOf xs ++ '(' :: (textOf zs ++ ')' :: textOf ys)) :
      Edit source source'

variable {source source' : String} {e : Expr} {xs ys : List Lexeme}

/-! ### What texts say -/

/-- A text of the symbols of a derivation that stands for the same. -/
theorem says_congr_of_same {d d' : Derivation .statements}
    (hrest : (Scan.ofText source.toList).rest = [])
    (hd : d.tokens = (Scan.ofText source.toList).tokens)
    (hspells : Scan.Spells source'.toList d'.symbols []) (hsame : Same d' d) :
    Says source e ↔ Says source' e := by
  obtain ⟨hsymbols', hrest'⟩ := Scan.spells_iff.mp hspells
  have hsymbols : (Scan.ofText source.toList).symbols = d.symbols :=
    congrArg (List.map Token.symbol) hd.symm
  rw [says_iff_of_symbols d hrest hsymbols, says_iff_of_symbols d' hrest' hsymbols',
    hsame.checks, hsame.program]

/-! ### What is put in -/

/-- Separators between lexemes. -/
theorem spells_insert_separators {cs cs' rest : List Char} {ss : List Symbol}
    (hxs : Scan.Leads xs cs) (hcomment : ∀ l ∈ xs.getLast?, l.isComment = false)
    (h : Scan.Spells cs' ss rest) (n : Nat) :
    Scan.Spells (textOf xs ++ (List.replicate (n + 1) ';' ++ cs'))
      ((tokensOf xs).map Token.symbol ++ (List.replicate (n + 1) .separator ++ ss)) rest :=
  hxs.spells hcomment (Symbol.extendedBy_eq_false (.inr (.inl rfl))) (h.separators (n + 1))

/-- What is behind a seam of a text that is scanned to its end. -/
theorem spells_behind (hrest : (Scan.ofText source.toList).rest = [])
    (hscan : (Scan.ofText source.toList).lexemes = xs ++ ys) :
    Scan.Spells (textOf ys) ((tokensOf ys).map Token.symbol) [] := by
  have hys := Scan.spells_of_lexemes hscan
  rwa [show (Scan.run .start source.toList).rest = [] from hrest, List.append_nil] at hys

theorem says_layout {c : Char} {gap : List Char}
    (hscan : (Scan.ofText source.toList).lexemes = xs ++ ys)
    (hcomment : ∀ l ∈ xs.getLast?, l.isComment = false) (hc : isBlank c = true)
    (hgap : Scan.Layout gap) (htext : source'.toList =
      textOf xs ++ (c :: gap ++ (textOf ys ++ (Scan.ofText source.toList).rest))) :
    Says source e ↔ Says source' e := by
  have hys := (Scan.Layout.blank hc hgap).spells (Scan.spells_of_lexemes hscan)
  have hspells := (Scan.leads_of_lexemes hscan).spells hcomment
    (Symbol.extendedBy_eq_false (.inl hc)) hys
  obtain ⟨hsymbols, hrest⟩ := Scan.spells_iff.mp (htext ▸ hspells)
  exact says_congr hrest (hsymbols.trans (Scan.symbols_of_lexemes hscan).symm)

theorem says_repeated {l : Lexeme} (hderivable : Derivable source)
    (hscan : (Scan.ofText source.toList).lexemes = xs ++ l :: ys)
    (hl : l.symbol = some .separator) (n : Nat)
    (htext : source'.toList = textOf xs ++ (List.replicate (n + 1) ';' ++ textOf ys)) :
    Says source e ↔ Says source' e := by
  obtain ⟨hrest, d, hd⟩ := hderivable
  have hcomment := Scan.isComment_of_token hscan (by rw [hl]; rfl)
  have hscan' : (Scan.ofText source.toList).lexemes = (xs ++ [l]) ++ ys := by rw [hscan]; simp
  have hspells := spells_insert_separators (Scan.leads_of_lexemes hscan) hcomment
    (spells_behind hrest hscan') n
  have htokens : d.tokens = tokensOf xs ++ ⟨.separator, l.position⟩ :: tokensOf ys := by
    rw [hd, Scan.tokens_of_lexemes hscan', tokensOf_append, tokensOf_singleton_of_symbol hl]
    simp
  obtain ⟨d', hd', hsame⟩ := exists_repeated htokens (List.replicate n .start)
  refine says_congr_of_same hrest hd ?_ hsame
  rw [htext, symbols, hd']
  simpa [separatorTokens, List.replicate_succ] using hspells

theorem says_separators {d o : Derivation .statements} {before after : List Token}
    (hrest : (Scan.ofText source.toList).rest = [])
    (hd : d.tokens = (Scan.ofText source.toList).tokens) (ho : d.Occurs before o after)
    (hscan : (Scan.ofText source.toList).lexemes = xs ++ ys)
    (hcomment : ∀ l ∈ xs.getLast?, l.isComment = false)
    (hplace : tokensOf xs = before ∨ tokensOf xs = before ++ o.tokens) (n : Nat)
    (htext : source'.toList = textOf xs ++ (List.replicate (n + 1) ';' ++ textOf ys)) :
    Says source e ↔ Says source' e := by
  have hspells := spells_insert_separators (Scan.leads_of_lexemes hscan) hcomment
    (spells_behind hrest hscan) n
  have htokens : before ++ o.tokens ++ after = tokensOf xs ++ tokensOf ys := by
    rw [← ho.tokens_eq, hd, Scan.tokens_of_lexemes hscan]
  let seps := List.replicate (n + 1) Position.start
  have hsame : ∃ d' : Derivation .statements,
      d'.tokens = tokensOf xs ++ (separatorTokens seps ++ tokensOf ys) ∧ Same d' d := by
    obtain hxs | hxs := hplace
    · obtain ⟨o', ho', hsame⟩ := o.exists_separatorsBefore seps
      obtain ⟨d', hd', hsame'⟩ := ho.replace hsame
      rw [hxs, List.append_assoc, List.append_cancel_left_eq] at htokens
      exact ⟨d', by rw [hd', ho', hxs, ← htokens]; simp, hsame'⟩
    · obtain ⟨o', ho', hsame⟩ := o.exists_separatorsBehind seps
      obtain ⟨d', hd', hsame'⟩ := ho.replace hsame
      rw [hxs, List.append_cancel_left_eq] at htokens
      exact ⟨d', by rw [hd', ho', hxs, ← htokens]; simp, hsame'⟩
  obtain ⟨d', hd', hsame⟩ := hsame
  refine says_congr_of_same hrest hd ?_ hsame
  rw [htext, symbols, hd']
  simpa [seps, separatorTokens] using hspells

theorem says_brackets {zs : List Lexeme} {d : Derivation .statements} {k : Nonterminal}
    {o : Derivation k} {before after : List Token} (hrest : (Scan.ofText source.toList).rest = [])
    (hd : d.tokens = (Scan.ofText source.toList).tokens) (ho : d.Occurs before o after)
    (hk : k ∈ [Nonterminal.expr, .sum, .product, .unary, .call, .atom])
    (hscan : (Scan.ofText source.toList).lexemes = xs ++ (zs ++ ys))
    (hbefore : tokensOf xs = before) (htokens : tokensOf zs = o.tokens)
    (hfirst : ∃ l ∈ zs.head?, l.symbol.isSome = true)
    (hlast : ∃ l ∈ zs.getLast?, l.symbol.isSome = true)
    (htext : source'.toList = textOf xs ++ '(' :: (textOf zs ++ ')' :: textOf ys)) :
    Says source e ↔ Says source' e := by
  obtain ⟨first, hfirst, hsome⟩ := hfirst
  obtain ⟨zs', rfl⟩ := List.head?_eq_some_iff.mp hfirst
  have hscan' : (Scan.ofText source.toList).lexemes = (xs ++ first :: zs') ++ ys := by
    rw [hscan, List.append_assoc]
  have hclosing : Scan.Spells (')' :: textOf ys)
      (.closeParen :: (tokensOf ys).map Token.symbol) [] :=
    Scan.Spells.token (s := .closeParen) rfl (fun _ _ => rfl) (spells_behind hrest hscan')
  have hinside : Scan.Spells (textOf (first :: zs') ++ ')' :: textOf ys)
      ((tokensOf (first :: zs')).map Token.symbol ++
        .closeParen :: (tokensOf ys).map Token.symbol) [] :=
    (Scan.leads_behind hscan).spells (isComment_of_getLast? hlast)
      (Symbol.extendedBy_eq_false (by simp)) hclosing
  have hopening := Scan.Spells.token (s := .openParen) rfl (fun _ _ => rfl) hinside
  have hspells := (Scan.leads_of_lexemes hscan).spells (Scan.isComment_of_token hscan hsome)
    (Symbol.extendedBy_eq_false (c := '(') (by simp)) hopening
  obtain ⟨o', ho', hsame⟩ := o.exists_bracketed hk .start .start
  obtain ⟨d', hd', hsame'⟩ := ho.replace hsame
  have hafter : tokensOf ys = after := by
    have htokens' := ho.tokens_eq
    rw [hd, Scan.tokens_of_lexemes hscan', tokensOf_append, hbefore, htokens] at htokens'
    exact List.append_cancel_left htokens'
  refine says_congr_of_same hrest hd ?_ hsame'
  rw [htext, symbols, hd', ho', ← hbefore, ← htokens, ← hafter]
  simpa using hspells

/-- A change to a text keeps what it says. -/
theorem Edit.says_iff (h : Edit source source') : Says source e ↔ Says source' e := by
  cases h with
  | layout hscan htoken hc hgap htext =>
    refine says_layout hscan ?_ hc hgap htext
    obtain hlast | ⟨l, hl, htoken⟩ := htoken
    · exact isComment_of_getLast? hlast
    · obtain ⟨ys, rfl⟩ := List.head?_eq_some_iff.mp hl
      exact Scan.isComment_of_token hscan htoken
  | repeated hderivable hscan hl n htext => exact says_repeated hderivable hscan hl n htext
  | separators hrest hd ho hscan hcomment hplace n htext =>
    exact says_separators hrest hd ho hscan hcomment hplace n htext
  | brackets hrest hd ho hk hscan hbefore htokens hfirst hlast htext =>
    exact says_brackets hrest hd ho hk hscan hbefore htokens hfirst hlast htext

/-- Texts that become one another by changes that do not count are both programs or both none, and
stand for the same up to positions. -/
theorem parse_alike_of_edits (h : Relation.ReflTransGen Edit source source') :
    ((∃ e, parse source = .ok e) ↔ ∃ e', parse source' = .ok e') ∧
      ∀ e e', parse source = .ok e → parse source' = .ok e' → e.alike e' = true := by
  have hsaid : ∀ e, Says source e ↔ Says source' e := by
    intro e
    induction h with
    | refl => rfl
    | tail _ hedit ih => exact ih.trans hedit.says_iff
  constructor
  · constructor
    · rintro ⟨e, hparse⟩
      obtain ⟨e', hparse', -⟩ := (hsaid e.erase).mp ⟨e, hparse, rfl⟩
      exact ⟨e', hparse'⟩
    · rintro ⟨e', hparse'⟩
      obtain ⟨e, hparse, -⟩ := (hsaid e'.erase).mpr ⟨e', hparse', rfl⟩
      exact ⟨e, hparse⟩
  · intro e e' hparse hparse'
    obtain ⟨e₁, hparse₁, herase⟩ := (hsaid e.erase).mp ⟨e, hparse, rfl⟩
    obtain rfl := Except.ok.inj (hparse'.symm.trans hparse₁)
    exact Expr.alike_iff.mpr herase.symm

/-- Brackets around an operand, and a comment right behind the sign of a division. -/
theorem bracket_and_comment_kept :
    Relation.ReflTransGen Edit "a/b" "(a)/ //\nb" ∧ (∃ e, parse "a/b" = .ok e) ∧
      ((∃ e, parse "a/b" = .ok e) ↔ ∃ e', parse "(a)/ //\nb" = .ok e') ∧
      ∀ e e', parse "a/b" = .ok e → parse "(a)/ //\nb" = .ok e' → e.alike e' = true := by
  let a : Derivation .atom := .var "a" ⟨1, 1⟩
  let quotient : Derivation .product :=
    .multiplication (.ofUnary (.ofCall (.ofAtom a))) .div rfl ⟨1, 2⟩
      (.ofCall (.ofAtom (.var "b" ⟨1, 3⟩)))
  let d : Derivation .statements := .statementsAnd [] .noRow (.bare (.ofSum (.ofProduct quotient)))
  have hcall : (Derivation.ofCall (.ofAtom a)).Occurs _ a _ :=
    .inner List.mem_cons_self (.inner List.mem_cons_self (.self a))
  have hquotient : quotient.Occurs _ a _ :=
    .inner List.mem_cons_self (.inner List.mem_cons_self hcall)
  have ho : d.Occurs _ a _ :=
    .inner (List.mem_cons_of_mem _ List.mem_cons_self) (.inner List.mem_cons_self
      (.inner List.mem_cons_self (.inner List.mem_cons_self hquotient)))
  have hbrackets : Edit "a/b" "(a)/b" := by
    have hscan : (Scan.ofText "a/b".toList).lexemes = [] ++
        ([⟨some (.name "a"), ['a'], ⟨1, 1⟩⟩] ++ [⟨some (.operator .div), ['/'], ⟨1, 2⟩⟩,
          ⟨some (.name "b"), ['b'], ⟨1, 3⟩⟩]) := by
      with_unfolding_all rfl
    refine .brackets ?_ ?_ ho (by decide) hscan rfl rfl ⟨_, rfl, rfl⟩ ⟨_, rfl, rfl⟩ rfl
    · with_unfolding_all rfl
    · with_unfolding_all rfl
  have hlayout : Edit "(a)/b" "(a)/ //\nb" := by
    have hscan : (Scan.ofText "(a)/b".toList).lexemes =
        [⟨some .openParen, ['('], ⟨1, 1⟩⟩, ⟨some (.name "a"), ['a'], ⟨1, 2⟩⟩,
          ⟨some .closeParen, [')'], ⟨1, 3⟩⟩, ⟨some (.operator .div), ['/'], ⟨1, 4⟩⟩] ++
        [⟨some (.name "b"), ['b'], ⟨1, 5⟩⟩] := by
      with_unfolding_all rfl
    have hgap : Scan.Layout ('/' :: '/' :: [] ++ '\n' :: []) := .comment (by simp) .nil
    refine .layout hscan (.inl ⟨_, rfl, rfl⟩) (c := ' ') rfl hgap ?_
    with_unfolding_all rfl
  have hedits := Relation.ReflTransGen.tail (.single hbrackets) hlayout
  exact ⟨hedits, ⟨_, by with_unfolding_all rfl⟩, parse_alike_of_edits hedits⟩

end Scriptlet.Program
