import Scriptlet.Proofs.Grammar.Parse
import Scriptlet.Proofs.Positions.Relocation

/-! Texts of the grammar with their tokens elsewhere. The grammar does not go by positions, so a
text whose tokens are put elsewhere is derived if the text is, and stands for the same with its
positions elsewhere. -/

namespace Scriptlet

def Token.move (m : Position → Position) (t : Token) : Token :=
  { t with position := m t.position }

def Parameters.move (m : Position → Position) (ps : Parameters) : Parameters where
  first := ps.first.map id m
  others := ps.others.map (Prod.map m (Prod.map id m))

/-- What a derivation stands for, with its positions elsewhere. -/
@[simp] def Nonterminal.move (m : Position → Position) : (c : Nonterminal) → c.Meaning → c.Meaning
  | .statements, es | .rows, es | .arguments, es => es.map (Expr.relocate (.ofMap m))
  | .statement, e | .block, e => e.relocate (.ofMap m)
  | .alternative, e => e.map (Expr.relocate (.ofMap m))
  | .expr, o | .sum, o | .product, o | .unary, o | .call, o | .atom, o | .conditional, o =>
    ⟨o.expr.relocate (.ofMap m), m o.start⟩

theorem Parameters.names_move (m : Position → Position) (ps : Parameters) :
    (ps.move m).names = ps.names := by
  simp [names, named, move, Function.comp_def]

theorem Parameters.tokens_move (m : Position → Position) (ps : Parameters) :
    (ps.move m).tokens = ps.tokens.map (Token.move m) := by
  simp [tokens, move, nameToken, Token.move, List.map_flatMap, List.flatMap_map]

def Check.move (m : Position → Position) : Check → Check
  | .literal digits => .literal digits
  | .parameters ps => .parameters (ps.move m)

theorem Check.ok_move {m : Position → Position} (check : Check) :
    (check.move m).Ok ↔ check.Ok := by
  cases check with
  | literal digits => rfl
  | parameters ps => simp only [Check.move, Check.Ok, Parameters.names_move]

namespace Expr

theorem relocate_sequence (g : Relocation) (first : Expr) (rest : List Expr) :
    (sequence first rest).relocate g = sequence (first.relocate g) (rest.map (relocate g)) := by
  induction rest generalizing first with
  | nil => rfl
  | cons second rest ih => simp [sequence, ih]

theorem relocate_sequence? (g : Relocation) (es : List Expr) :
    (sequence? es).map (relocate g) = sequence? (es.map (relocate g)) := by
  cases es with
  | nil => rfl
  | cons first rest => exact congrArg some (relocate_sequence g first rest)

end Expr

namespace Derivation

/-- The derivation of the text with its tokens elsewhere. -/
@[simp] def move (m : Position → Position) : {c : Nonterminal} → Derivation c → Derivation c
  | _, .statements seps rows => .statements (seps.map m) (rows.move m)
  | _, .statementsAnd seps rows last => .statementsAnd (seps.map m) (rows.move m) (last.move m)
  | _, .noRow => .noRow
  | _, .row before statement sep seps =>
    .row (before.move m) (statement.move m) (m sep) (seps.map m)
  | _, .block opening body closing => .block (m opening) (body.move m) (m closing)
  | _, .declaration word name namePos sign init =>
    .declaration (m word) name (m namePos) (m sign) (init.move m)
  | _, .assignment name namePos sign rhs => .assignment name (m namePos) (m sign) (rhs.move m)
  | _, .bare e => .bare (e.move m)
  | _, .comparison left op level sign right =>
    .comparison (left.move m) op level (m sign) (right.move m)
  | _, .ofSum e => .ofSum (e.move m)
  | _, .addition left op level sign right =>
    .addition (left.move m) op level (m sign) (right.move m)
  | _, .ofProduct e => .ofProduct (e.move m)
  | _, .multiplication left op level sign right =>
    .multiplication (left.move m) op level (m sign) (right.move m)
  | _, .ofUnary e => .ofUnary (e.move m)
  | _, .negation sign e => .negation (m sign) (e.move m)
  | _, .ofCall e => .ofCall (e.move m)
  | _, .application callee opening closing =>
    .application (callee.move m) (m opening) (m closing)
  | _, .applicationTo callee opening args closing =>
    .applicationTo (callee.move m) (m opening) (args.move m) (m closing)
  | _, .ofAtom e => .ofAtom (e.move m)
  | _, .argument e => .argument (e.move m)
  | _, .argumentAnd e comma rest => .argumentAnd (e.move m) (m comma) (rest.move m)
  | _, .number digits pos => .number digits (m pos)
  | _, .trueWord pos => .trueWord (m pos)
  | _, .falseWord pos => .falseWord (m pos)
  | _, .null pos => .null (m pos)
  | _, .var name pos => .var name (m pos)
  | _, .print word opening e closing => .print (m word) (m opening) (e.move m) (m closing)
  | _, .bracket opening e closing => .bracket (m opening) (e.move m) (m closing)
  | _, .ofConditional e => .ofConditional (e.move m)
  | _, .loop word opening test closing body =>
    .loop (m word) (m opening) (test.move m) (m closing) (body.move m)
  | _, .function word name opening params closing body =>
    .function (m word) (name.map (Prod.map id m)) (m opening) (params.map (Parameters.move m))
      (m closing) (body.move m)
  | _, .conditional word opening test closing yes no =>
    .conditional (m word) (m opening) (test.move m) (m closing) (yes.move m) (no.move m)
  | _, .noElse => .noElse
  | _, .elseBlock word body => .elseBlock (m word) (body.move m)
  | _, .elseIf word no => .elseIf (m word) (no.move m)

variable {c : Nonterminal} (m : Position → Position)

theorem tokens_move (d : Derivation c) : (d.move m).tokens = d.tokens.map (Token.move m) := by
  induction d with
  | function word name opening params closing body ih =>
    cases name <;> cases params <;>
      simp [ih, Token.move, Parameters.nameToken, Parameters.tokens_move]
  | _ => simp [separatorTokens, Token.move, *]

theorem checks_move (d : Derivation c) : (d.move m).checks = d.checks.map (Check.move m) := by
  induction d with
  | function word name opening params closing body ih => cases params <;> simp [ih, Check.move]
  | number => rfl
  | _ => simp [*]

theorem checks_ok_move {d : Derivation c} (hd : ∀ check ∈ d.checks, check.Ok) :
    ∀ check ∈ (d.move m).checks, check.Ok := by
  rw [checks_move]
  intro _ hmem
  obtain ⟨check, hcheck, rfl⟩ := List.mem_map.mp hmem
  exact check.ok_move.mpr (hd check hcheck)

theorem meaning_move (d : Derivation c) : (d.move m).meaning = c.move m d.meaning := by
  induction d with
  | function word name opening params closing body ih =>
    cases name <;> cases params <;> simp [ih, Relocation.ofMap, Parameters.names_move]
  | block opening body closing ih =>
    have hrow : Expr.sequence? (body.move m).meaning =
        (Expr.sequence? body.meaning).map (Expr.relocate (.ofMap m)) := by
      rw [ih, Expr.relocate_sequence?]
      rfl
    simp only [move, meaning, hrow]
    cases Expr.sequence? body.meaning <;> rfl
  | conditional word opening test closing yes no iht ihy ihn =>
    cases hm : no.meaning <;> simp_all [Relocation.ofMap]
  | _ => simp [Relocation.ofMap, binary, apply, Expr.relocateAll_eq_map, *]

end Derivation

end Scriptlet
