import Scriptlet.Proofs.Grammar.Occurrence
import Scriptlet.Proofs.Grammar.Written
import Scriptlet.Proofs.Scanning.Lexemes

/-! Where the nodes of a program stand. Main statement: every node is where the text of the
production starts that makes it, rows of statements and empty programs apart, so that no node is
behind one below it. -/

namespace Scriptlet

/-- Where the text of an expression starts. -/
@[simp] def Nonterminal.start? : (c : Nonterminal) → c.Meaning → Option Position
  | .expr, o | .sum, o | .product, o | .unary, o | .call, o | .atom, o | .conditional, o =>
    some o.start
  | .statements, _ | .rows, _ | .block, _ | .statement, _ | .arguments, _ | .alternative, _ => none

namespace Derivation

/-- The nodes that a production makes itself, but for rows of statements. A minus sign makes the
zero that it subtracts from, a named function its declaration, and null stands for a missing `else`
and for an empty block. -/
@[simp] def made : {c : Nonterminal} → Derivation c → List Expr
  | _, .block opening body _ =>
    if body.meaning.isEmpty then [.const (some opening) .null] else []
  | .statement, d@(.declaration ..) | .statement, d@(.assignment ..) => [d.meaning]
  | .expr, d@(.comparison ..) | .sum, d@(.addition ..) | .product, d@(.multiplication ..)
  | .call, d@(.application ..) | .call, d@(.applicationTo ..) | .atom, d@(.number ..)
  | .atom, d@(.trueWord _) | .atom, d@(.falseWord _) | .atom, d@(.null _) | .atom, d@(.var ..)
  | .atom, d@(.print ..) | .atom, d@(.loop ..) => [d.meaning.expr]
  | _, .negation sign e =>
    [(negation sign e).meaning.expr, .const (some sign) (.number 0)]
  | _, .function word name _ params _ body =>
    let f := Expr.func (some word) ((params.map Parameters.names).getD []) body.meaning
    (name.map fun name => .declare (some word) name.1 f).toList ++ [f]
  | .conditional, d@(.conditional word _ _ _ _ no) =>
    d.meaning.expr :: if no.meaning.isNone then [.const (some word) .null] else []
  | _, .statements .. | _, .statementsAnd .. | _, .noRow | _, .row .. | _, .bare _ | _, .ofSum _
  | _, .ofProduct _ | _, .ofUnary _ | _, .ofCall _ | _, .ofAtom _ | _, .argument _
  | _, .argumentAnd .. | _, .bracket .. | _, .ofConditional _ | _, .noElse | _, .elseBlock ..
  | _, .elseIf .. => []

variable {c k : Nonterminal} {d : Derivation c} {o : Derivation k} {e m n : Expr}

/-- Where the text of an expression starts its first token is. -/
theorem exists_first (d : Derivation c) :
    ∀ p ∈ c.start? d.meaning, ∃ t ts, d.tokens = t :: ts ∧ p = t.position := by
  induction d with
  | comparison left _ _ _ _ ih _ | addition left _ _ _ _ ih _ | multiplication left _ _ _ _ ih _
  | application left _ _ ih | applicationTo left _ _ _ ih _ =>
    obtain ⟨t, ts, ht, hp⟩ := ih left.meaning.start rfl
    simp [binary, apply, ht, hp]
  | function word name => cases name <;> simp
  | _ => simp_all

/-- What a production puts together: the nodes that it makes, and what its parts stand for. -/
def pieces (d : Derivation c) : List Expr :=
  d.made ++ d.parts.flatMap fun part => part.kind.exprs part.self.meaning

/-- How the nodes are that a production makes: where its text starts, no rows of statements, within
what it stands for, and put together from its pieces. -/
structure Makes (d : Derivation c) (n : Expr) : Prop where
  pos : ∃ t ts, d.tokens = t :: ts ∧ n.pos = some t.position
  isRow : n.isRow = false
  within : ∃ e ∈ c.exprs d.meaning, n ∈ e.all
  parts : n.parts ⊆ d.pieces

theorem makes (hn : n ∈ d.made) : d.Makes n := by
  have hself (e : Expr) : ∃ e' ∈ [e], e ∈ e'.all := ⟨e, List.mem_singleton_self e, e.mem_all_self⟩
  have hbelow {e part : Expr} (hp : part ∈ e.parts) : ∃ e' ∈ [e], part ∈ e'.all :=
    ⟨e, List.mem_singleton_self e, Expr.part_mem_all e.mem_all_self hp⟩
  cases d with
  | declaration | assignment | number | trueWord | falseWord | null | var | print | loop =>
    obtain rfl := List.mem_singleton.mp hn
    exact ⟨⟨_, _, rfl, rfl⟩, rfl, hself _, by simp [Expr.parts, pieces]⟩
  | comparison left | addition left | multiplication left | application left | applicationTo left =>
    obtain ⟨t, ts, ht, hp⟩ := left.exists_first left.meaning.start rfl
    obtain rfl := List.mem_singleton.mp hn
    refine ⟨?_, rfl, hself _, by simp [Expr.parts, pieces, binary, apply]⟩
    simp [binary, apply, Expr.pos, ht, hp]
  | block opening body =>
    obtain ⟨hempty, rfl⟩ : body.meaning = [] ∧ n = .const (some opening) .null := by
      simpa using hn
    refine ⟨⟨_, _, rfl, rfl⟩, rfl, ?_, List.nil_subset _⟩
    simpa [hempty, Expr.sequence?] using hself (.const (some opening) .null)
  | negation sign e =>
    obtain rfl | rfl :
        n = (negation sign e).meaning.expr ∨ n = .const (some sign) (.number 0) := by
      simpa using hn
    · exact ⟨⟨_, _, rfl, rfl⟩, rfl, hself _, by simp [Expr.parts, pieces]⟩
    · exact ⟨⟨_, _, rfl, rfl⟩, rfl, hbelow List.mem_cons_self, List.nil_subset _⟩
  | function word name =>
    cases name with
    | none =>
      obtain rfl := List.mem_singleton.mp hn
      exact ⟨⟨_, _, rfl, rfl⟩, rfl, hself _, by simp [Expr.parts, pieces]⟩
    | some name =>
      obtain rfl | hn := List.mem_cons.mp hn
      · exact ⟨⟨_, _, rfl, rfl⟩, rfl, hself _, by simp [Expr.parts, pieces]⟩
      · obtain rfl := List.mem_singleton.mp hn
        exact ⟨⟨_, _, rfl, rfl⟩, rfl, hbelow List.mem_cons_self, by simp [Expr.parts, pieces]⟩
  | conditional word opening test closing yes no =>
    obtain rfl | ⟨hnone, rfl⟩ : n = (conditional word opening test closing yes no).meaning.expr ∨
        no.meaning = none ∧ n = .const (some word) .null := by
      simpa using hn
    · refine ⟨⟨_, _, rfl, rfl⟩, rfl, hself _, ?_⟩
      cases hno : no.meaning <;> simp [Expr.parts, pieces, hno]
    · exact ⟨⟨_, _, rfl, rfl⟩, rfl, hbelow (by simp [Expr.parts, hnone]), List.nil_subset _⟩
  | _ => cases hn

/-- Blocks apart, what a production stands for is a piece of it. -/
theorem mem_pieces_of_mem_exprs (hblock : c ≠ .block) (he : e ∈ c.exprs d.meaning) :
    e ∈ d.pieces := by
  cases d with
  | block => exact absurd rfl hblock
  | function word name => cases name <;> simp_all [pieces]
  | statementsAnd | row => simpa [pieces, or_comm] using he
  | _ => simp_all [pieces]

/-- The nodes of a piece are made by the production or come from one of its parts. -/
theorem mem_all_pieces (he : e ∈ d.pieces) (hn : n ∈ e.all) :
    n ∈ d.made ∨ ∃ part ∈ d.parts, ∃ e' ∈ part.kind.exprs part.self.meaning, n ∈ e'.all := by
  induction e using Expr.ofParts with
  | h e ih =>
    obtain hmade | hpart := List.mem_append.mp he
    · obtain rfl | ⟨inner, hi, hn⟩ := Expr.mem_all_iff.mp hn
      · exact .inl hmade
      · exact ih inner hi ((makes hmade).parts hi) hn
    · obtain ⟨part, hp, he⟩ := List.mem_flatMap.mp hpart
      exact .inr ⟨part, hp, e, he, hn⟩

/-- A node comes from the production or from one of its parts. -/
theorem mem_all_cases (he : e ∈ c.exprs d.meaning) (hn : n ∈ e.all) :
    (∃ a b, n = .seq none a b) ∨ n ∈ d.made ∨
      ∃ part ∈ d.parts, ∃ e' ∈ part.kind.exprs part.self.meaning, n ∈ e'.all := by
  by_cases hblock : c = .block
  · subst hblock
    cases d with
    | block opening body =>
      cases hm : body.meaning with
      | nil =>
        have he' : e = .const (some opening) .null := by simpa [hm, Expr.sequence?] using he
        rw [he', Expr.all, List.mem_singleton] at hn
        exact .inr (.inl (by simp [hm, hn]))
      | cons first rest =>
        have he' : e = Expr.sequence first rest := by simpa [hm, Expr.sequence?] using he
        subst he'
        refine (Expr.mem_all_sequence hn).imp_right fun h => .inr ?_
        simpa [hm] using h
  · exact .inr (mem_all_pieces (mem_pieces_of_mem_exprs hblock he) hn)

/-- Every node of a derivation comes from a production in it, but for rows of statements. -/
theorem exists_occurs_of_mem_all (d : Derivation c) :
    ∀ e ∈ c.exprs d.meaning, ∀ n ∈ e.all, (∃ a b, n = .seq none a b) ∨
      ∃ (k : Nonterminal) (o : Derivation k) (before after : List Token),
        Occurs d before o after ∧ n ∈ o.made := by
  induction d using ofParts with
  | h d ih =>
    intro e he n hn
    obtain hrow | hmade | ⟨part, hp, e', he', hn⟩ := mem_all_cases he hn
    · exact .inl hrow
    · exact .inr ⟨_, d, [], [], .self d, hmade⟩
    · refine (ih part hp e' he' n hn).imp_right ?_
      rintro ⟨k, o, before, after, ho, hn⟩
      exact ⟨k, o, _, _, .inner hp ho, hn⟩

theorem Occurs.mem_tokens {before after : List Token} (h : Occurs d before o after) {t : Token}
    (ht : t ∈ o.tokens) : t ∈ d.tokens := by
  simp [h.tokens_eq, ht]

/-- A node is where a token is. -/
theorem exists_token_of_pos (he : e ∈ c.exprs d.meaning) (hn : n ∈ e.all) :
    ∀ p ∈ n.pos, ∃ t ∈ d.tokens, t.position = p := by
  intro p hp
  obtain ⟨a, b, rfl⟩ | ⟨k, o, before, after, ho, hmade⟩ := d.exists_occurs_of_mem_all e he n hn
  · cases hp
  · obtain ⟨t, ts, ht, hpos⟩ := (makes hmade).pos
    obtain rfl := Option.some.inj (hpos.symm.trans hp)
    exact ⟨t, ho.mem_tokens (by simp [ht]), rfl⟩

/-- A node that a production makes is not behind one below it. -/
theorem le_of_mem_made (hsorted : d.tokens.Pairwise (·.position ≤ ·.position))
    (hn : n ∈ d.made) (hm : m ∈ n.all) : ∀ p ∈ n.pos, ∀ q ∈ m.pos, p ≤ q := by
  intro p hp q hq
  obtain ⟨e, he, hne⟩ := (makes hn).within
  obtain ⟨t, ts, ht, hpos⟩ := (makes hn).pos
  obtain ⟨u, hu, rfl⟩ := exists_token_of_pos he (Expr.all_subset hne hm) q hq
  obtain rfl := Option.some.inj (hpos.symm.trans hp)
  rw [ht] at hsorted hu
  obtain rfl | hu := List.mem_cons.mp hu
  · exact Position.le_refl _
  · exact List.rel_of_pairwise_cons hsorted hu

/-- How a node of a program gets its position. A row of statements has none, and null stands for a
program without statements. Every other node comes from a production and is where the text starts
that it derives; brackets around an expression are another production, of which the operand of an
operator and the callee of a call may begin. -/
inductive Places (d : Derivation .statements) : Expr → Prop where
  | row (first second : Expr) : Places d (.seq none first second)
  | noStatements (h : d.meaning = []) :
      Places d (.const (d.tokens.head?.map Token.position) .null)
  | node {k : Nonterminal} {o : Derivation k} {before after ts : List Token} {t : Token} {n : Expr}
      (occurs : Occurs d before o after) (made : n ∈ o.made) (tokens : o.tokens = t :: ts)
      (pos : n.pos = some t.position) : Places d n

theorem places (d : Derivation .statements) (hn : n ∈ d.program.all) : d.Places n := by
  rw [program] at hn
  cases hd : d.meaning with
  | nil =>
    rw [hd, Expr.sequence?, Option.getD_none, Expr.all, List.mem_singleton] at hn
    exact hn ▸ .noStatements hd
  | cons first rest =>
    rw [hd, Expr.sequence?, Option.getD_some] at hn
    obtain ⟨a, b, rfl⟩ | ⟨e, he, hn⟩ := Expr.mem_all_sequence hn
    · exact .row a b
    · obtain ⟨a, b, rfl⟩ | ⟨k, o, before, after, ho, hmade⟩ :=
        d.exists_occurs_of_mem_all e (hd ▸ he) n hn
      · exact .row a b
      · obtain ⟨t, ts, ht, hpos⟩ := (makes hmade).pos
        exact .node ho hmade ht hpos

theorem Places.pos_eq_none_iff {d : Derivation .statements} (h : d.Places n) :
    n.pos = none ↔ n.isRow = true ∨ d.tokens = [] := by
  cases h with
  | row => simp [Expr.pos, Expr.isRow]
  | noStatements => simp [Expr.pos, Expr.isRow]
  | node ho hmade ht hpos =>
    have hne : d.tokens ≠ [] := List.ne_nil_of_mem (ho.mem_tokens (by rw [ht]; exact .head _))
    simp [hpos, (makes hmade).isRow, hne]

theorem Places.le {d : Derivation .statements}
    (hsorted : d.tokens.Pairwise (·.position ≤ ·.position)) (h : d.Places n) (hm : m ∈ n.all) :
    ∀ p ∈ n.pos, ∀ q ∈ m.pos, p ≤ q := by
  cases h with
  | row => intro p hp; cases hp
  | noStatements =>
    rw [Expr.all, List.mem_singleton] at hm
    subst hm
    intro p hp q hq
    rw [Option.mem_unique hp hq]
    exact q.le_refl
  | node ho hmade =>
    rw [ho.tokens_eq, List.append_assoc] at hsorted
    have ho := (List.pairwise_append.mp (List.pairwise_append.mp hsorted).2.1).1
    exact le_of_mem_made ho hmade hm

end Derivation

/-- Every node of a program that is read has the line and the column of the first token of the text
that the production derives which makes it; rows of statements have none, and no other node has none
in a program with tokens. So no node is behind one below it. -/
theorem Program.node_at_first_token {source : String} {e : Expr} (h : parse source = .ok e) :
    (∃ d : Derivation .statements, d.tokens = (Scan.ofText source.toList).tokens) ∧
    (∀ d : Derivation .statements, d.tokens = (Scan.ofText source.toList).tokens →
      ∀ n ∈ e.all, d.Places n) ∧
    (∀ t ∈ (Scan.ofText source.toList).tokens, ∃ before after,
      source.toList = before ++ t.symbol.text.toList ++ after ∧ t.position = .behind before) ∧
    (∀ n ∈ e.all, n.pos = none ↔ n.isRow = true ∨ (Scan.ofText source.toList).tokens = []) ∧
    ∀ n ∈ e.all, ∀ m ∈ n.all, ∀ p ∈ n.pos, ∀ q ∈ m.pos, p ≤ q := by
  have hplaces : ∀ d : Derivation .statements, d.tokens = (Scan.ofText source.toList).tokens →
      ∀ n ∈ e.all, d.Places n := by
    intro d hd n hn
    obtain ⟨hread, -⟩ := parse_eq_ok_iff.mp h
    have hd := read_eq_ok_iff.mpr ⟨(read_eq_ok_iff.mp hread).1, d, hd, rfl⟩
    obtain rfl := Except.ok.inj (hread.symm.trans hd)
    exact d.places hn
  obtain ⟨-, d, hd, -⟩ := read_eq_ok_iff.mp (parse_eq_ok_iff.mp h).1
  refine ⟨⟨d, hd⟩, hplaces, fun t => Scan.exists_text_of_mem_tokens, fun n hn => ?_,
    fun n hn m => (hplaces d hd n hn).le (hd ▸ Scan.pairwise_tokens _)⟩
  rw [(hplaces d hd n hn).pos_eq_none_iff, hd]

/-- The sum is where its bracket is and the number in it behind that, the zero is where the minus
sign is, the empty block where its brace is and the missing `else` where the `if` is. -/
theorem Program.bracket_and_sign_placed :
    ∃ e, parse "(1) + -2;\nif (x) {}" = .ok e ∧
      e.all.map Expr.pos = [none, some ⟨1, 1⟩, some ⟨1, 2⟩, some ⟨1, 7⟩, some ⟨1, 7⟩, some ⟨1, 8⟩,
        some ⟨2, 1⟩, some ⟨2, 5⟩, some ⟨2, 8⟩, some ⟨2, 1⟩] ∧
      ∀ n ∈ e.all, ∀ m ∈ n.all, ∀ p ∈ n.pos, ∀ q ∈ m.pos, p ≤ q := by
  have h : parse "(1) + -2;\nif (x) {}" = .ok (.seq none
      (.binary (some ⟨1, 1⟩) .add (.const (some ⟨1, 2⟩) (.number 1))
        (.binary (some ⟨1, 7⟩) .sub (.const (some ⟨1, 7⟩) (.number 0))
          (.const (some ⟨1, 8⟩) (.number 2))))
      (.cond (some ⟨2, 1⟩) (.var (some ⟨2, 5⟩) "x") (.const (some ⟨2, 8⟩) .null)
        (.const (some ⟨2, 1⟩) .null))) := by
    with_unfolding_all rfl
  exact ⟨_, h, rfl, (node_at_first_token h).2.2.2.2⟩

end Scriptlet
