import Scriptlet.Proofs.Grammar.Parse

/-! What a derivation consists of. Every production puts the texts of its parts in a row with tokens
of its own, so a derivation that occurs in another one has its text there, between the tokens before
it and those behind it. -/

namespace Scriptlet

/-- A part right below a derivation, the tokens before it and behind it, and the derivation with
something else in its place. -/
structure Part (c : Nonterminal) where
  kind : Nonterminal
  self : Derivation kind
  before : List Token
  after : List Token
  fill : Derivation kind → Derivation c

namespace Derivation

@[simp] def parts : {c : Nonterminal} → Derivation c → List (Part c)
  | _, .statements seps rows => [⟨_, rows, separatorTokens seps, [], .statements seps⟩]
  | _, .statementsAnd seps rows last =>
    [⟨_, rows, separatorTokens seps, last.tokens, fun e => .statementsAnd seps e last⟩,
      ⟨_, last, separatorTokens seps ++ rows.tokens, [], .statementsAnd seps rows⟩]
  | _, .row before statement sep seps =>
    [⟨_, before, [], statement.tokens ++ separatorTokens (sep :: seps),
        fun e => .row e statement sep seps⟩,
      ⟨_, statement, before.tokens, separatorTokens (sep :: seps),
        fun e => .row before e sep seps⟩]
  | _, .block opening body closing =>
    [⟨_, body, [⟨.openBrace, opening⟩], [⟨.closeBrace, closing⟩],
      fun e => .block opening e closing⟩]
  | _, .declaration word name namePos sign init =>
    [⟨_, init, [⟨.keyword .var, word⟩, ⟨.name name, namePos⟩, ⟨.assign, sign⟩], [],
      .declaration word name namePos sign⟩]
  | _, .assignment name namePos sign rhs =>
    [⟨_, rhs, [⟨.name name, namePos⟩, ⟨.assign, sign⟩], [], .assignment name namePos sign⟩]
  | _, .bare e => [⟨_, e, [], [], .bare⟩]
  | _, .comparison left op level sign right =>
    [⟨_, left, [], ⟨.operator op, sign⟩ :: right.tokens,
        fun e => .comparison e op level sign right⟩,
      ⟨_, right, left.tokens ++ [⟨.operator op, sign⟩], [], .comparison left op level sign⟩]
  | _, .ofSum e => [⟨_, e, [], [], .ofSum⟩]
  | _, .addition left op level sign right =>
    [⟨_, left, [], ⟨.operator op, sign⟩ :: right.tokens,
        fun e => .addition e op level sign right⟩,
      ⟨_, right, left.tokens ++ [⟨.operator op, sign⟩], [], .addition left op level sign⟩]
  | _, .ofProduct e => [⟨_, e, [], [], .ofProduct⟩]
  | _, .multiplication left op level sign right =>
    [⟨_, left, [], ⟨.operator op, sign⟩ :: right.tokens,
        fun e => .multiplication e op level sign right⟩,
      ⟨_, right, left.tokens ++ [⟨.operator op, sign⟩], [], .multiplication left op level sign⟩]
  | _, .ofUnary e => [⟨_, e, [], [], .ofUnary⟩]
  | _, .negation sign e => [⟨_, e, [⟨.operator .sub, sign⟩], [], .negation sign⟩]
  | _, .ofCall e => [⟨_, e, [], [], .ofCall⟩]
  | _, .application callee opening closing =>
    [⟨_, callee, [], [⟨.openParen, opening⟩, ⟨.closeParen, closing⟩],
      fun e => .application e opening closing⟩]
  | _, .applicationTo callee opening args closing =>
    [⟨_, callee, [], ⟨.openParen, opening⟩ :: args.tokens ++ [⟨.closeParen, closing⟩],
        fun e => .applicationTo e opening args closing⟩,
      ⟨_, args, callee.tokens ++ [⟨.openParen, opening⟩], [⟨.closeParen, closing⟩],
        fun e => .applicationTo callee opening e closing⟩]
  | _, .ofAtom e => [⟨_, e, [], [], .ofAtom⟩]
  | _, .argument e => [⟨_, e, [], [], .argument⟩]
  | _, .argumentAnd e comma rest =>
    [⟨_, e, [], ⟨.comma, comma⟩ :: rest.tokens, fun e => .argumentAnd e comma rest⟩,
      ⟨_, rest, e.tokens ++ [⟨.comma, comma⟩], [], .argumentAnd e comma⟩]
  | _, .print word opening e closing =>
    [⟨_, e, [⟨.keyword .print, word⟩, ⟨.openParen, opening⟩], [⟨.closeParen, closing⟩],
      fun e => .print word opening e closing⟩]
  | _, .bracket opening e closing =>
    [⟨_, e, [⟨.openParen, opening⟩], [⟨.closeParen, closing⟩],
      fun e => .bracket opening e closing⟩]
  | _, .ofConditional e => [⟨_, e, [], [], .ofConditional⟩]
  | _, .loop word opening test closing body =>
    [⟨_, test, [⟨.keyword .whileWord, word⟩, ⟨.openParen, opening⟩],
        ⟨.closeParen, closing⟩ :: body.tokens, fun e => .loop word opening e closing body⟩,
      ⟨_, body, ⟨.keyword .whileWord, word⟩ :: ⟨.openParen, opening⟩ :: test.tokens ++
        [⟨.closeParen, closing⟩], [], .loop word opening test closing⟩]
  | _, .function word name opening params closing body =>
    [⟨_, body, ⟨.keyword .function, word⟩ :: (name.map Parameters.nameToken).toList ++
        ⟨.openParen, opening⟩ :: (params.map Parameters.tokens).getD [] ++
        [⟨.closeParen, closing⟩], [], .function word name opening params closing⟩]
  | _, .conditional word opening test closing yes no =>
    [⟨_, test, [⟨.keyword .ifWord, word⟩, ⟨.openParen, opening⟩],
        ⟨.closeParen, closing⟩ :: yes.tokens ++ no.tokens,
        fun e => .conditional word opening e closing yes no⟩,
      ⟨_, yes, ⟨.keyword .ifWord, word⟩ :: ⟨.openParen, opening⟩ :: test.tokens ++
        [⟨.closeParen, closing⟩], no.tokens,
        fun e => .conditional word opening test closing e no⟩,
      ⟨_, no, ⟨.keyword .ifWord, word⟩ :: ⟨.openParen, opening⟩ :: test.tokens ++
        ⟨.closeParen, closing⟩ :: yes.tokens, [], .conditional word opening test closing yes⟩]
  | _, .elseBlock word body => [⟨_, body, [⟨.keyword .elseWord, word⟩], [], .elseBlock word⟩]
  | _, .elseIf word no => [⟨_, no, [⟨.keyword .elseWord, word⟩], [], .elseIf word⟩]
  | _, .noRow | _, .number _ _ | _, .trueWord _ | _, .falseWord _ | _, .null _ | _, .var _ _
  | _, .noElse => []

/-- What holds of a derivation whenever it holds of its parts holds of all. -/
theorem ofParts {motive : {c : Nonterminal} → Derivation c → Prop}
    (h : ∀ {c : Nonterminal} (d : Derivation c), (∀ part ∈ d.parts, motive part.self) → motive d)
    {c : Nonterminal} (d : Derivation c) : motive d := by
  induction d <;> refine h _ fun part hp => ?_ <;>
    simp only [parts, List.mem_cons, List.not_mem_nil, or_false] at hp
  all_goals rcases hp with rfl | rfl | rfl <;> assumption

variable {c k : Nonterminal} {d : Derivation c} {part : Part c}

theorem fill_self (h : part ∈ d.parts) : part.fill part.self = d := by
  cases d <;> simp only [parts, List.mem_cons, List.not_mem_nil, or_false] at h
  all_goals rcases h with rfl | rfl | rfl <;> rfl

theorem tokens_fill (h : part ∈ d.parts) (e : Derivation part.kind) :
    (part.fill e).tokens = part.before ++ e.tokens ++ part.after := by
  cases d <;> simp only [parts, List.mem_cons, List.not_mem_nil, or_false] at h
  all_goals rcases h with rfl | rfl | rfl <;> simp

theorem tokens_subset (h : part ∈ d.parts) : part.self.tokens ⊆ d.tokens := by
  intro t ht
  rw [← fill_self h, tokens_fill h]
  simp [ht]

theorem checks_subset (h : part ∈ d.parts) : part.self.checks ⊆ d.checks := by
  cases d <;> simp only [parts, List.mem_cons, List.not_mem_nil, or_false] at h
  all_goals rcases h with rfl | rfl | rfl <;> simp

/-- A derivation occurs in another one, between tokens. -/
inductive Occurs : {c k : Nonterminal} → Derivation c → List Token → Derivation k → List Token →
    Prop where
  | self {c : Nonterminal} (d : Derivation c) : Occurs d [] d []
  | inner {c k : Nonterminal} {d : Derivation c} {part : Part c} {o : Derivation k}
      {before after : List Token} (hp : part ∈ d.parts) (h : Occurs part.self before o after) :
      Occurs d (part.before ++ before) o (after ++ part.after)

/-- The text of what occurs is a part of the text. -/
theorem Occurs.tokens_eq {o : Derivation k} {before after : List Token}
    (h : Occurs d before o after) : d.tokens = before ++ o.tokens ++ after := by
  induction h with
  | self d => simp
  | inner hp h ih => rw [← fill_self hp, tokens_fill hp, ih]; simp

end Derivation

end Scriptlet
