import Scriptlet.Proofs.Concatenation.Scan
import Scriptlet.Proofs.Grammar.Written

/-! How texts are read that are put together. The statements of two texts with a separator on a
line between them are those of the first and those of the second, further down. -/

namespace Scriptlet

/-! ### The statements of a text -/

/-- Only blocks and what stands behind an `else` may be rows of statements. -/
theorem Derivation.isRow_eq_false {c : Nonterminal} (d : Derivation c) (hblock : c ≠ .block)
    (halternative : c ≠ .alternative) : ∀ e ∈ c.exprs d.meaning, e.isRow = false := by
  induction d with
  | block => exact absurd rfl hblock
  | noElse | elseBlock | elseIf => exact absurd rfl halternative
  | noRow => simp
  | statements _ _ ih | bare _ ih | ofSum _ ih | ofProduct _ ih | ofUnary _ ih | ofCall _ ih
  | ofAtom _ ih | argument _ ih | bracket _ _ _ ih | ofConditional _ ih =>
    exact ih (by decide) (by decide)
  | statementsAnd _ _ _ ihrows ihlast | row _ _ _ _ ihrows ihlast =>
    simpa [or_imp, forall_and] using
      ⟨ihrows (by decide) (by decide), ihlast (by decide) (by decide) _ (by simp)⟩
  | argumentAnd _ _ _ ihe ihrest =>
    simpa using ⟨ihe (by decide) (by decide) _ (by simp), ihrest (by decide) (by decide)⟩
  | function word name opening params closing body ih => cases name <;> simp [Expr.isRow]
  -- all others make a node of another kind
  | _ => simp [Expr.isRow, binary, apply]

namespace Derivation

theorem exists_ne_separator (d : Derivation .statement) :
    ∃ t ∈ d.tokens, t.symbol ≠ .separator := by
  cases d with
  | declaration word name namePos sign init => exact ⟨⟨.keyword .var, word⟩, by simp, by simp⟩
  | assignment name namePos sign rhs => exact ⟨⟨.name name, namePos⟩, by simp, by simp⟩
  | bare e =>
    obtain ⟨t, rest, htokens, hne, -⟩ := e.startsOperand
    exact ⟨t, by simp [htokens], hne⟩

theorem meaning_ne_nil_iff (d : Derivation .statements) :
    d.meaning ≠ [] ↔ ∃ t ∈ d.tokens, t.symbol ≠ .separator := by
  cases d with
  | statements seps rows =>
    cases rows with
    | noRow => simp [separatorTokens]
    | row before statement sep seps' =>
      obtain ⟨t, ht, hne⟩ := statement.exists_ne_separator
      exact iff_of_true (by simp) ⟨t, by simp [ht], hne⟩
  | statementsAnd seps rows last =>
    obtain ⟨t, ht, hne⟩ := last.exists_ne_separator
    exact iff_of_true (by simp) ⟨t, by simp [ht], hne⟩

/-- Statements behind a separator are more of those before it. -/
theorem derives_joined (d₁ d₂ : Derivation .statements) (sep : Position) :
    Derives .statements (d₁.tokens ++ ⟨.separator, sep⟩ :: d₂.tokens)
      (d₁.meaning ++ d₂.meaning) := by
  have hrun : Reading.start.run? (d₁.tokens ++ ⟨.separator, sep⟩ :: d₂.tokens) =
      some (d₂.meaning.reverse ++ d₁.meaning.reverse) := by
    calc Reading.start.run? (d₁.tokens ++ ⟨.separator, sep⟩ :: d₂.tokens)
      _ = Reading.run? (.statement .program (d₁.meaning.reverse ++ []))
            (⟨.separator, sep⟩ :: d₂.tokens) :=
        d₁.read .program [] _ (Reading.next_cons.mpr (.inl rfl))
      _ = Reading.run? (.statement .program d₁.meaning.reverse) (d₂.tokens ++ []) := by
        rw [List.append_nil, List.append_nil]
        rfl
      _ = Reading.run? (.statement .program (d₂.meaning.reverse ++ d₁.meaning.reverse)) [] :=
        d₂.read .program _ [] (Reading.next_nil _)
  simpa using Reading.run?_start_iff.mp hrun

theorem firstFault?_joined {d₁ d₂ : Derivation .statements} (h₁ : ∀ check ∈ d₁.checks, check.Ok)
    (h₂ : ∀ check ∈ d₂.checks, check.Ok) (sep : Position) :
    Program.firstFault? (d₁.tokens ++ ⟨.separator, sep⟩ :: d₂.tokens) = none := by
  have hfirst := d₁.firstFault?_tokens (⟨.separator, sep⟩ :: d₂.tokens)
  have hsecond : Program.firstFault? (⟨.separator, sep⟩ :: d₂.tokens) = none :=
    d₂.firstFault?_eq_none_iff.mpr h₂
  rw [hfirst, hsecond, Option.or_none, List.findSome?_eq_none_iff]
  exact fun check hc => check.fault?_eq_none_iff.mpr (h₁ check hc)

end Derivation

namespace Program

/-- A text that is not made of blanks, comments and separators only. -/
def HasStatement (source : String) : Prop :=
  ∃ t ∈ (Scan.ofText source.toList).tokens, t.symbol ≠ .separator

/-- The text is accepted, and these are its statements. -/
def Statements (source : String) (es : List Expr) : Prop :=
  ∃ d : Derivation .statements, Scan.Reads .start source.toList d.tokens ∧
    (∀ check ∈ d.checks, check.Ok) ∧ d.meaning = es

/-- Two texts and a separator on a line of its own between them. -/
def joined (source₁ source₂ : String) : String := source₁ ++ "\n;\n" ++ source₂

variable {source source₁ source₂ : String} {es es₁ es₂ : List Expr}

theorem parse_iff_statements {e : Expr} : parse source = .ok e ↔
    ∃ es, Statements source es ∧
      e = (Expr.sequence? es).getD
        (.const ((Scan.ofText source.toList).tokens.head?.map Token.position) .null) := by
  rw [parse_eq_ok_iff_derivation]
  constructor
  · rintro ⟨hrest, d, hd, hchecks, rfl⟩
    refine ⟨d.meaning, ⟨d, Scan.reads_iff.mpr ⟨hd.symm, hrest⟩, hchecks, rfl⟩, ?_⟩
    rw [Derivation.program, hd]
  · rintro ⟨_, ⟨d, hreads, hchecks, rfl⟩, rfl⟩
    obtain ⟨hd, hrest⟩ := Scan.reads_iff.mp hreads
    refine ⟨hrest, d, hd.symm, hchecks, ?_⟩
    rw [Derivation.program, ← hd]
    rfl

namespace Statements

theorem isRow_eq_false (h : Statements source es) : ∀ e ∈ es, e.isRow = false := by
  obtain ⟨d, -, -, rfl⟩ := h
  exact d.isRow_eq_false (by decide) (by decide)

theorem ne_nil_iff (h : Statements source es) : es ≠ [] ↔ HasStatement source := by
  obtain ⟨d, hreads, -, rfl⟩ := h
  obtain ⟨hd, -⟩ := Scan.reads_iff.mp hreads
  rw [d.meaning_ne_nil_iff, ← hd]
  rfl

/-- The statements of two texts that are put together. -/
theorem joined (h₁ : Statements source₁ es₁) (h₂ : Statements source₂ es₂) :
    Statements (joined source₁ source₂) (es₁ ++ es₂.map (Expr.relocate
      (.ofMap (Position.down (source₁.toList.count '\n' + 2))))) := by
  obtain ⟨d₁, hreads₁, hchecks₁, rfl⟩ := h₁
  obtain ⟨d₂, hreads₂, hchecks₂, rfl⟩ := h₂
  let down := Position.down (source₁.toList.count '\n' + 2)
  obtain ⟨d, hd, hmeaning⟩ := d₁.derives_joined (d₂.move down) ⟨source₁.toList.count '\n' + 2, 1⟩
  refine ⟨d, ?_, ?_, ?_⟩
  · rw [hd, Derivation.tokens_move]
    have htext : (Program.joined source₁ source₂).toList =
        source₁.toList ++ '\n' :: ';' :: '\n' :: source₂.toList := by
      simp [Program.joined]
    rw [htext]
    exact hreads₁.joined hreads₂
  · rw [← d.firstFault?_eq_none_iff, hd]
    exact Derivation.firstFault?_joined hchecks₁ (Derivation.checks_ok_move down hchecks₂) _
  · rw [hmeaning, Derivation.meaning_move]
    rfl

end Statements

end Program

end Scriptlet
