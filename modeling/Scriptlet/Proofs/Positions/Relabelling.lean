import Scriptlet.Proofs.Positions.Derivation

/-! Derivations with other positions. What the grammar derives goes by the symbols of the tokens
alone: a derivation of some tokens is one of all tokens with the same symbols. -/

namespace Scriptlet

/-- The positions behind so many others. -/
def Position.skip (n : Nat) (f : Nat → Position) (i : Nat) : Position := f (i + n)

/-- A token put where its place in a text says. -/
def Token.put (f : Nat → Position) (i : Nat) (t : Token) : Token := { t with position := f i }

@[simp] theorem Token.put_mk (f : Nat → Position) (i : Nat) (s : Symbol) (p : Position) :
    Token.put f i ⟨s, p⟩ = ⟨s, f i⟩ := rfl

@[simp] theorem Token.put_skip (n : Nat) (f : Nat → Position) :
    Token.put (Position.skip n f) = fun i => Token.put f (i + n) := rfl

namespace Parameters

def put (f : Nat → Position) (ps : Parameters) : Parameters where
  first := (ps.first.1, f 0)
  others := ps.others.mapIdx fun i param => (f (2 * i + 1), param.2.1, f (2 * i + 2))

theorem tokens_put (f : Nat → Position) (ps : Parameters) :
    (ps.put f).tokens = ps.tokens.mapIdx (Token.put f) := by
  have hothers : ∀ (others : List (Position × String × Position)) (f : Nat → Position),
      (others.mapIdx fun i param => (f (2 * i + 1), param.2.1, f (2 * i + 2))).flatMap
          (fun param => [⟨.comma, param.1⟩, nameToken param.2]) =
        (others.flatMap fun param => [⟨.comma, param.1⟩, nameToken param.2]).mapIdx
          fun i => Token.put f (i + 1) := by
    intro others
    induction others with
    | nil => simp
    | cons param others ih =>
      intro f
      simpa [nameToken, List.mapIdx_cons, Nat.mul_add, Nat.add_assoc, Position.skip] using
        ih (.skip 2 f)
  simpa [tokens, put, nameToken, List.mapIdx_cons] using hothers ps.others f

theorem move_put (p : Position) (f : Nat → Position) (ps : Parameters) :
    (ps.put f).move (fun _ => p) = ps.move fun _ => p := by
  have hothers : (ps.put f).others.map (Prod.map (fun _ => p) (Prod.map id fun _ => p)) =
      ps.others.map (Prod.map (fun _ => p) (Prod.map id fun _ => p)) :=
    List.ext_getElem? fun i => by simp [put, Function.comp_def]; rfl
  rw [move, move, hothers]
  rfl

end Parameters

namespace Derivation

@[simp] theorem length_separatorTokens (seps : List Position) :
    (separatorTokens seps).length = seps.length := List.length_map _

theorem separatorTokens_cons (sep : Position) (seps : List Position) :
    separatorTokens (sep :: seps) = ⟨.separator, sep⟩ :: separatorTokens seps := rfl

theorem separatorTokens_mapIdx (f : Nat → Position) (seps : List Position) :
    separatorTokens (seps.mapIdx fun i _ => f i) = (separatorTokens seps).mapIdx (Token.put f) :=
  List.ext_getElem? fun i => by simp [separatorTokens, Token.put, Function.comp_def]

open Position (skip)

/-- The derivation of the same symbols, with the tokens where their places in the text say. -/
@[simp] def put : {c : Nonterminal} → (Nat → Position) → Derivation c → Derivation c
  | _, f, .statements seps rows =>
    .statements (seps.mapIdx fun i _ => f i) (rows.put (skip seps.length f))
  | _, f, .statementsAnd seps rows last =>
    .statementsAnd (seps.mapIdx fun i _ => f i) (rows.put (skip seps.length f))
      (last.put (skip (seps.length + rows.tokens.length) f))
  | _, _, .noRow => .noRow
  | _, f, .row before statement _ seps =>
    let n := before.tokens.length + statement.tokens.length
    .row (before.put f) (statement.put (skip before.tokens.length f)) (f n)
      (seps.mapIdx fun i _ => skip (n + 1) f i)
  | _, f, .block _ body _ => .block (f 0) (body.put (skip 1 f)) (f (body.tokens.length + 1))
  | _, f, .declaration _ name _ _ init =>
    .declaration (f 0) name (f 1) (f 2) (init.put (skip 3 f))
  | _, f, .assignment name _ _ rhs => .assignment name (f 0) (f 1) (rhs.put (skip 2 f))
  | _, f, .bare e => .bare (e.put f)
  | _, f, .comparison left op level _ right =>
    .comparison (left.put f) op level (f left.tokens.length)
      (right.put (skip (left.tokens.length + 1) f))
  | _, f, .ofSum e => .ofSum (e.put f)
  | _, f, .addition left op level _ right =>
    .addition (left.put f) op level (f left.tokens.length)
      (right.put (skip (left.tokens.length + 1) f))
  | _, f, .ofProduct e => .ofProduct (e.put f)
  | _, f, .multiplication left op level _ right =>
    .multiplication (left.put f) op level (f left.tokens.length)
      (right.put (skip (left.tokens.length + 1) f))
  | _, f, .ofUnary e => .ofUnary (e.put f)
  | _, f, .negation _ e => .negation (f 0) (e.put (skip 1 f))
  | _, f, .ofCall e => .ofCall (e.put f)
  | _, f, .application callee _ _ =>
    .application (callee.put f) (f callee.tokens.length) (f (callee.tokens.length + 1))
  | _, f, .applicationTo callee _ args _ =>
    let n := callee.tokens.length
    .applicationTo (callee.put f) (f n) (args.put (skip (n + 1) f))
      (f (n + 1 + args.tokens.length))
  | _, f, .ofAtom e => .ofAtom (e.put f)
  | _, f, .argument e => .argument (e.put f)
  | _, f, .argumentAnd e _ rest =>
    .argumentAnd (e.put f) (f e.tokens.length) (rest.put (skip (e.tokens.length + 1) f))
  | _, f, .number digits _ => .number digits (f 0)
  | _, f, .trueWord _ => .trueWord (f 0)
  | _, f, .falseWord _ => .falseWord (f 0)
  | _, f, .null _ => .null (f 0)
  | _, f, .var name _ => .var name (f 0)
  | _, f, .print _ _ e _ => .print (f 0) (f 1) (e.put (skip 2 f)) (f (e.tokens.length + 2))
  | _, f, .bracket _ e _ => .bracket (f 0) (e.put (skip 1 f)) (f (e.tokens.length + 1))
  | _, f, .ofConditional e => .ofConditional (e.put f)
  | _, f, .loop _ _ test _ body =>
    let n := test.tokens.length + 2
    .loop (f 0) (f 1) (test.put (skip 2 f)) (f n) (body.put (skip (n + 1) f))
  | _, f, .function _ name _ params _ body =>
    let n := name.toList.length + 1
    let m := n + 1 + ((params.map Parameters.tokens).getD []).length
    .function (f 0) (name.map fun name => (name.1, f 1)) (f n)
      (params.map (Parameters.put (skip (n + 1) f))) (f m) (body.put (skip (m + 1) f))
  | _, f, .conditional _ _ test _ yes no =>
    let n := test.tokens.length + 2
    .conditional (f 0) (f 1) (test.put (skip 2 f)) (f n) (yes.put (skip (n + 1) f))
      (no.put (skip (n + 1 + yes.tokens.length) f))
  | _, _, .noElse => .noElse
  | _, f, .elseBlock _ body => .elseBlock (f 0) (body.put (skip 1 f))
  | _, f, .elseIf _ no => .elseIf (f 0) (no.put (skip 1 f))

variable {c : Nonterminal}

theorem tokens_put (d : Derivation c) (f : Nat → Position) :
    (d.put f).tokens = d.tokens.mapIdx (Token.put f) := by
  induction d generalizing f with
  | function word name opening params closing body ih =>
    cases name <;> cases params <;>
      simp [ih, Parameters.nameToken, Parameters.tokens_put, List.mapIdx_cons,
        List.mapIdx_append, Nat.add_comm, Nat.add_left_comm, Nat.add_assoc]
  | _ =>
    simp [separatorTokens_mapIdx, separatorTokens_cons, List.mapIdx_cons, List.mapIdx_append,
      Nat.add_comm, Nat.add_left_comm, Nat.add_assoc, *]

theorem move_put (p : Position) (d : Derivation c) (f : Nat → Position) :
    (d.put f).move (fun _ => p) = d.move fun _ => p := by
  induction d generalizing f with
  | function word name opening params closing body ih =>
    rcases name with _ | ⟨name, pos⟩ <;> cases params <;> simp [ih, Parameters.move_put]
  | _ => simp [*]

end Derivation

end Scriptlet
