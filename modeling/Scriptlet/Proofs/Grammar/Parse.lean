import Scriptlet.Program
import Scriptlet.Proofs.Grammar.Sound

/-! Which texts are programs. A program is a text without characters that have no place in one,
that the grammar derives and in which every literal and every parameter list passes its check. Main
statement: such texts are accepted and no others, as what their derivations stand for. -/

namespace Scriptlet

/-- What is demanded of a program beyond the grammar: short literals, and parameters that differ. -/
inductive Check where
  | literal (digits : String)
  | parameters (params : Parameters)

namespace Check

def Ok : Check → Prop
  | .literal digits => digits.length ≤ Number.digitLimit
  | .parameters params => params.names.Nodup

def fault? : Check → Option Fault
  | .literal digits =>
    if Number.digitLimit < digits.length then some (.literalTooLong digits.length) else none
  | .parameters params => Program.parameterFault? params.named

theorem firstRepeated_eq_none_iff {seen names : List String} :
    Program.firstRepeated seen names = none ↔ names.Nodup ∧ ∀ name ∈ names, name ∉ seen := by
  induction names generalizing seen with
  | nil => simp [Program.firstRepeated]
  | cons name rest ih =>
    rw [Program.firstRepeated]
    by_cases hseen : name ∈ seen
    · simp [hseen]
    · simp only [List.contains_eq_mem, hseen, decide_false, Bool.false_eq_true, if_false, ih]
      grind

theorem parameterFault?_cons (param : String × Position) (others : List (String × Position)) :
    Program.parameterFault? (param :: others) =
      (Program.firstRepeated [] ((param :: others).map Prod.fst)).map fun name =>
        .error (.ofMalformed (.duplicateParameter name) (.ofPosition param.2)) := by
  unfold Program.parameterFault?
  cases Program.firstRepeated [] ((param :: others).map Prod.fst) <;> rfl

theorem fault?_eq_none_iff (check : Check) : check.fault? = none ↔ check.Ok := by
  cases check with
  | literal digits => simp [fault?, Ok]
  | parameters params =>
    have hnodup : Program.firstRepeated [] params.names = none ↔ params.names.Nodup := by
      simp [firstRepeated_eq_none_iff]
    rw [fault?, Parameters.named, parameterFault?_cons, Option.map_eq_none_iff]
    exact hnodup

end Check

namespace Derivation

/-- The checks that a text has to pass, in the order of the text. -/
@[simp] def checks : {c : Nonterminal} → Derivation c → List Check
  | _, .statements _ rows => rows.checks
  | _, .statementsAnd _ rows last => rows.checks ++ last.checks
  | _, .row before statement _ _ => before.checks ++ statement.checks
  | _, .block _ body _ => body.checks
  | _, .declaration _ _ _ _ e | _, .assignment _ _ _ e | _, .bare e => e.checks
  | _, .comparison left _ _ _ right => left.checks ++ right.checks
  | _, .addition left _ _ _ right => left.checks ++ right.checks
  | _, .multiplication left _ _ _ right => left.checks ++ right.checks
  | _, .ofSum e | _, .ofProduct e | _, .ofUnary e | _, .negation _ e | _, .ofCall e
  | _, .ofAtom e | _, .ofConditional e | _, .application e _ _ | _, .argument e => e.checks
  | _, .applicationTo callee _ args _ => callee.checks ++ args.checks
  | _, .argumentAnd e _ rest => e.checks ++ rest.checks
  | _, .number digits _ => [.literal digits]
  | _, .print _ _ e _ | _, .bracket _ e _ => e.checks
  | _, .loop _ _ test _ body => test.checks ++ body.checks
  | _, .function _ _ _ params _ body => (params.map Check.parameters).toList ++ body.checks
  | _, .conditional _ _ test _ yes no => test.checks ++ yes.checks ++ no.checks
  | _, .elseBlock _ body => body.checks
  | _, .elseIf _ no => no.checks
  | _, .noRow | _, .trueWord _ | _, .falseWord _ | _, .null _ | _, .var _ _ | _, .noElse => []

open Program

theorem filterMap_tokens {f : Token → Option (String × Position)}
    (hcomma : ∀ pos, f ⟨.comma, pos⟩ = none)
    (hname : ∀ param, f (Parameters.nameToken param) = some param) (ps : Parameters) :
    ps.tokens.filterMap f = ps.named := by
  have hothers : ∀ others : List (Position × String × Position),
      (others.flatMap fun param => [⟨.comma, param.1⟩, Parameters.nameToken param.2]).filterMap f =
        others.map Prod.snd := by
    intro others
    induction others with
    | nil => rfl
    | cons param others ih => simpa [hcomma, hname] using ih
  rw [Parameters.tokens, List.filterMap_cons_some (hname ps.first), hothers, Parameters.named]

theorem parameters_tokens (ps : Parameters) (opening closing : Position) (rest : List Token) :
    parameters (⟨.openParen, opening⟩ :: (ps.tokens ++ ⟨.closeParen, closing⟩ :: rest)) =
      ps.named := by
  have hinside : ∀ t ∈ ps.tokens, t.symbol ≠ .closeParen := by
    simp only [Parameters.tokens, Parameters.nameToken, List.mem_cons, List.mem_flatMap]
    rintro t (rfl | ⟨param, -, rfl | rfl | ht⟩)
    · simp
    · simp
    · simp
    · cases ht
  rw [parameters, List.dropWhile_cons_of_neg (by simp), List.takeWhile_cons_of_pos (by simp),
    List.takeWhile_append_of_pos (by simpa using hinside), List.takeWhile_cons_of_neg (by simp),
    List.append_nil, List.filterMap_cons_none rfl]
  exact filterMap_tokens (fun _ => rfl) (fun _ => rfl) ps

theorem firstFault?_parameters (ps : Parameters) (rest : List Token) :
    firstFault? (ps.tokens ++ rest) = firstFault? rest := by
  have hothers : ∀ others : List (Position × String × Position),
      firstFault? ((others.flatMap fun param =>
        [⟨.comma, param.1⟩, Parameters.nameToken param.2]) ++ rest) = firstFault? rest := by
    intro others
    induction others with
    | nil => rfl
    | cons param others ih => exact ih
  exact hothers ps.others

theorem firstFault?_separators (seps : List Position) (rest : List Token) :
    firstFault? (separatorTokens seps ++ rest) = firstFault? rest := by
  induction seps with
  | nil => rfl
  | cons sep seps ih => exact ih

theorem firstFault?_function (word : Position) (name : Option (String × Position))
    (opening : Position) (params : Option Parameters) (closing : Position) (rest : List Token) :
    firstFault? (⟨.keyword .function, word⟩ :: ((name.map Parameters.nameToken).toList ++
        ⟨.openParen, opening⟩ :: ((params.map Parameters.tokens).getD [] ++
          ⟨.closeParen, closing⟩ :: rest))) =
      ((params.map Check.parameters).toList.findSome? Check.fault?).or (firstFault? rest) := by
  -- neither the name nor the opening bracket matters for the search
  have hskip : ∀ ts, firstFault? (⟨.keyword .function, word⟩ ::
      ((name.map Parameters.nameToken).toList ++ ⟨.openParen, opening⟩ :: ts)) =
      (parameterFault? (parameters (⟨.openParen, opening⟩ :: ts))).or (firstFault? ts) := by
    intro ts
    cases name <;> rfl
  rw [hskip]
  cases params with
  | none => rfl
  | some ps =>
    simp only [Option.map_some, Option.getD_some, parameters_tokens, firstFault?_parameters]
    simp [Check.fault?, firstFault?]

/-- The search for faults in a text finds the first check that fails. -/
theorem firstFault?_tokens {c : Nonterminal} (d : Derivation c) (rest : List Token) :
    firstFault? (d.tokens ++ rest) =
      (d.checks.findSome? Check.fault?).or (firstFault? rest) := by
  induction d generalizing rest with
  | number => simp [firstFault?, Check.fault?]
  | function word name opening params closing body ih =>
    simp only [tokens, List.cons_append, List.append_assoc, firstFault?_function, ih, checks,
      List.findSome?_append, Option.or_assoc]
  -- no other token is searched, and all other productions only put texts and checks in a row
  | _ => simp [firstFault?, firstFault?_separators, Option.or_assoc, *]

/-- A text of the grammar has no fault if all its checks hold. -/
theorem firstFault?_eq_none_iff {c : Nonterminal} (d : Derivation c) :
    firstFault? d.tokens = none ↔ ∀ check ∈ d.checks, check.Ok := by
  have h := d.firstFault?_tokens []
  rw [List.append_nil, firstFault?, Option.or_none] at h
  simp [h, Check.fault?_eq_none_iff]

end Derivation

namespace Program

theorem read_eq_ok_iff_run? {scan : Scan} {e : Expr} :
    read scan = .ok e ↔ scan.rest = [] ∧ ∃ done, Reading.start.run? scan.tokens = some done ∧
      Reading.block (scan.tokens.head?.map Token.position) done = e := by
  simp only [read, Reading.run?_eq_some_iff]
  cases Reading.start.readAll scan.tokens with
  | error t => simp [malformed]
  | ok r =>
    cases scan.rest with
    | cons c rest => simp [malformed]
    | nil => cases hr : r.finish? <;> simp [malformed, hr]

theorem read_eq_ok_iff {scan : Scan} {e : Expr} :
    read scan = .ok e ↔
      scan.rest = [] ∧ ∃ d : Derivation .statements, d.tokens = scan.tokens ∧ d.program = e := by
  rw [read_eq_ok_iff_run?]
  refine and_congr_right fun _ => ⟨?_, ?_⟩
  · rintro ⟨done, hdone, rfl⟩
    obtain ⟨d, hd, hmeaning⟩ := Reading.run?_start_iff.mp hdone
    exact ⟨d, hd, by rw [Derivation.program, hmeaning, hd, Reading.block]⟩
  · rintro ⟨d, hd, rfl⟩
    rw [← hd]
    exact ⟨d.meaning.reverse, d.run?_start, by rw [Reading.block, List.reverse_reverse]; rfl⟩

theorem parse_eq_ok_iff {source : String} {e : Expr} :
    parse source = .ok e ↔ read (Scan.ofText source.toList) = .ok e ∧
      firstFault? (Scan.ofText source.toList).tokens = none := by
  rw [parse]
  cases read (Scan.ofText source.toList) with
  | error fault => simp [bind, Except.bind]
  | ok e' => cases firstFault? (Scan.ofText source.toList).tokens <;> simp [bind, Except.bind]

theorem parse_eq_ok_iff_derivation {source : String} {e : Expr} :
    parse source = .ok e ↔
      (Scan.ofText source.toList).rest = [] ∧
      ∃ d : Derivation .statements, d.tokens = (Scan.ofText source.toList).tokens ∧
        (∀ check ∈ d.checks, check.Ok) ∧ d.program = e := by
  rw [parse_eq_ok_iff, read_eq_ok_iff, and_assoc]
  refine and_congr_right fun _ => ⟨?_, ?_⟩
  · rintro ⟨⟨d, hd, he⟩, hfault⟩
    rw [← hd] at hfault
    exact ⟨d, hd, d.firstFault?_eq_none_iff.mp hfault, he⟩
  · rintro ⟨d, hd, hchecks, he⟩
    refine ⟨⟨d, hd, he⟩, ?_⟩
    rw [← hd]
    exact d.firstFault?_eq_none_iff.mpr hchecks

/-- A text is accepted if and only if no character of it is out of place, the grammar derives its
tokens and all checks hold, and it then stands for what the derivation says. All derivations of
the same tokens say the same. -/
theorem parse_iff_derivation (source : String) (e : Expr) :
    (parse source = .ok e ↔
      (Scan.ofText source.toList).rest = [] ∧
      ∃ d : Derivation .statements, d.tokens = (Scan.ofText source.toList).tokens ∧
        (∀ check ∈ d.checks, check.Ok) ∧ d.program = e) ∧
    ∀ d₁ d₂ : Derivation .statements, d₁.tokens = d₂.tokens → d₁.program = d₂.program :=
  ⟨parse_eq_ok_iff_derivation, fun _ _ => Derivation.program_eq_of_tokens_eq⟩

end Program

end Scriptlet
