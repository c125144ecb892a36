import Scriptlet.Proofs.Grammar.Malformed

/-! Which of several violations is reported. A text that the grammar derives is checked node by
node, from the bottom up and from left to right. Main statement: the first node that fails its check
decides, and nothing is checked in a text that the grammar does not derive. -/

namespace Scriptlet

/-- The tree of a derivation, down to its tokens. A node may have to pass a check. -/
inductive ParseTree where
  | token (t : Token)
  | node (check : Option Check) (children : List ParseTree)

namespace ParseTree

mutual

/-- The tokens at the bottom, from left to right. -/
@[simp] def leaves : ParseTree → List Token
  | .token t => [t]
  | .node _ children => leavesAll children

@[simp] def leavesAll : List ParseTree → List Token
  | [] => []
  | tree :: rest => tree.leaves ++ leavesAll rest

end

mutual

/-- The checks that a walk meets. It visits the children of a node from left to right, and the node
behind them. -/
@[simp] def walk : ParseTree → List Check
  | .token _ => []
  | .node check children => walkAll children ++ check.toList

@[simp] def walkAll : List ParseTree → List Check
  | [] => []
  | tree :: rest => tree.walk ++ walkAll rest

end

@[simp] theorem leavesAll_append (ts us : List ParseTree) :
    leavesAll (ts ++ us) = leavesAll ts ++ leavesAll us := by
  induction ts with
  | nil => rfl
  | cons t ts ih => simp [ih]

@[simp] theorem leavesAll_tokens (ts : List Token) : leavesAll (ts.map .token) = ts := by
  induction ts with
  | nil => rfl
  | cons t ts ih => simp [ih]

@[simp] theorem walkAll_append (ts us : List ParseTree) :
    walkAll (ts ++ us) = walkAll ts ++ walkAll us := by
  induction ts with
  | nil => rfl
  | cons t ts ih => simp [ih]

@[simp] theorem walkAll_tokens (ts : List Token) : walkAll (ts.map .token) = [] := by
  induction ts with
  | nil => rfl
  | cons t ts ih => simp [ih]

end ParseTree

/-- The tree of a parameter list, which is checked as a whole. -/
def Parameters.tree (ps : Parameters) : ParseTree :=
  .node (some (.parameters ps)) (ps.tokens.map .token)

namespace Derivation

open ParseTree

def separatorTrees (separators : List Position) : List ParseTree :=
  (separatorTokens separators).map .token

/-- Every production has its tokens and parts in the order of the text. -/
@[simp] def tree : {c : Nonterminal} → Derivation c → ParseTree
  | _, .statements seps rows => .node none (separatorTrees seps ++ [rows.tree])
  | _, .statementsAnd seps rows last =>
    .node none (separatorTrees seps ++ [rows.tree, last.tree])
  | _, .noRow => .node none []
  | _, .row before statement sep seps =>
    .node none (before.tree :: statement.tree :: separatorTrees (sep :: seps))
  | _, .block opening body closing =>
    .node none [.token ⟨.openBrace, opening⟩, body.tree, .token ⟨.closeBrace, closing⟩]
  | _, .declaration word name namePos sign init =>
    .node none [.token ⟨.keyword .var, word⟩, .token ⟨.name name, namePos⟩, .token ⟨.assign, sign⟩,
      init.tree]
  | _, .assignment name namePos sign rhs =>
    .node none [.token ⟨.name name, namePos⟩, .token ⟨.assign, sign⟩, rhs.tree]
  | _, .bare e | _, .ofSum e | _, .ofProduct e | _, .ofUnary e | _, .ofCall e | _, .ofAtom e
  | _, .ofConditional e | _, .argument e => .node none [e.tree]
  | _, .comparison left op _ sign right =>
    .node none [left.tree, .token ⟨.operator op, sign⟩, right.tree]
  | _, .addition left op _ sign right =>
    .node none [left.tree, .token ⟨.operator op, sign⟩, right.tree]
  | _, .multiplication left op _ sign right =>
    .node none [left.tree, .token ⟨.operator op, sign⟩, right.tree]
  | _, .negation sign e => .node none [.token ⟨.operator .sub, sign⟩, e.tree]
  | _, .application callee opening closing =>
    .node none [callee.tree, .token ⟨.openParen, opening⟩, .token ⟨.closeParen, closing⟩]
  | _, .applicationTo callee opening args closing =>
    .node none [callee.tree, .token ⟨.openParen, opening⟩, args.tree,
      .token ⟨.closeParen, closing⟩]
  | _, .argumentAnd e comma rest => .node none [e.tree, .token ⟨.comma, comma⟩, rest.tree]
  | _, .number digits pos => .node (some (.literal digits)) [.token ⟨.number digits, pos⟩]
  | _, .trueWord pos => .node none [.token ⟨.keyword .trueWord, pos⟩]
  | _, .falseWord pos => .node none [.token ⟨.keyword .falseWord, pos⟩]
  | _, .null pos => .node none [.token ⟨.keyword .null, pos⟩]
  | _, .var name pos => .node none [.token ⟨.name name, pos⟩]
  | _, .print word opening e closing =>
    .node none [.token ⟨.keyword .print, word⟩, .token ⟨.openParen, opening⟩, e.tree,
      .token ⟨.closeParen, closing⟩]
  | _, .bracket opening e closing =>
    .node none [.token ⟨.openParen, opening⟩, e.tree, .token ⟨.closeParen, closing⟩]
  | _, .loop word opening test closing body =>
    .node none [.token ⟨.keyword .whileWord, word⟩, .token ⟨.openParen, opening⟩, test.tree,
      .token ⟨.closeParen, closing⟩, body.tree]
  | _, .function word name opening params closing body =>
    .node none (.token ⟨.keyword .function, word⟩ ::
      (name.map fun name => .token (Parameters.nameToken name)).toList ++
      .token ⟨.openParen, opening⟩ :: (params.map Parameters.tree).toList ++
      [.token ⟨.closeParen, closing⟩, body.tree])
  | _, .conditional word opening test closing yes no =>
    .node none [.token ⟨.keyword .ifWord, word⟩, .token ⟨.openParen, opening⟩, test.tree,
      .token ⟨.closeParen, closing⟩, yes.tree, no.tree]
  | _, .noElse => .node none []
  | _, .elseBlock word body => .node none [.token ⟨.keyword .elseWord, word⟩, body.tree]
  | _, .elseIf word no => .node none [.token ⟨.keyword .elseWord, word⟩, no.tree]

/-- The leaves of the tree are the tokens of the text. -/
theorem leaves_tree {c : Nonterminal} (d : Derivation c) : d.tree.leaves = d.tokens := by
  induction d with
  | function word name opening params closing body ih =>
    cases name <;> cases params <;> simp [ih, Parameters.tree]
  | _ => simp [separatorTrees, *]

/-- The walk over the tree meets the checks in the order of the text. -/
theorem walk_tree {c : Nonterminal} (d : Derivation c) : d.tree.walk = d.checks := by
  induction d with
  | function word name opening params closing body ih =>
    cases name <;> cases params <;> simp [ih, Parameters.tree]
  | _ => simp [separatorTrees, *]

end Derivation

/-! ### The first violation -/

/-- The first name of a parameter list that repeats an earlier one. -/
def Parameters.FirstRepeat (ps : Parameters) (name : String) : Prop :=
  ∃ before after, ps.names = before ++ name :: after ∧ before.Nodup ∧ name ∈ before

namespace Program

variable {source : String}

/-- The text is answered as a check demands that fails in it: a literal with its length, and a
parameter list with the first name that is repeated, at its first parameter. -/
def AnsweredBy (source : String) : Check → Prop
  | .literal digits => parse source = .error (.literalTooLong digits.length)
  | .parameters ps => ∃ name, ps.FirstRepeat name ∧
      Reports source ("Duplicate parameter '" ++ name ++ "'") ps.first.2

theorem answeredBy_of_fault? {check : Check} {fault : Fault} (hcheck : check.fault? = some fault)
    (hparse : parse source = .error fault) : AnsweredBy source check := by
  cases check with
  | literal digits =>
    rw [Check.fault?] at hcheck
    split at hcheck <;> cases hcheck
    exact hparse
  | parameters ps =>
    rw [Check.fault?, Parameters.named, Check.parameterFault?_cons,
      Option.map_eq_some_iff] at hcheck
    obtain ⟨name, hrepeated, rfl⟩ := hcheck
    obtain ⟨before, after, hnames, hnodup, -, hname⟩ := firstRepeated_eq_some_iff.mp hrepeated
    exact ⟨name, ⟨before, after, hnames, hnodup, by simpa using hname⟩, _, hparse, rfl, rfl, rfl⟩

/-- What becomes of a text is settled by the checks of its derivation. -/
theorem parse_of_derivation {d : Derivation .statements}
    (hrest : (Scan.ofText source.toList).rest = [])
    (hd : d.tokens = (Scan.ofText source.toList).tokens) :
    parse source = match d.checks.findSome? Check.fault? with
      | some fault => .error fault
      | none => .ok d.program := by
  have hfault := d.firstFault?_tokens []
  rw [List.append_nil, firstFault?, Option.or_none, hd] at hfault
  rw [parse, read_eq_ok_iff.mpr ⟨hrest, d, hd, rfl⟩, hfault]
  rfl

/-- A text that the grammar does not derive is reported where it cannot be continued. -/
theorem Stuck.message_head? {message : String} {p : Position} (h : Stuck source message p) :
    message.toList.head? = some 'U' := by
  cases h <;> simp [String.toList_append]

theorem not_checked_of_not_derivable (h : ¬ Derivable source) :
    (∀ digits, parse source ≠ .error (.literalTooLong digits)) ∧
      ∀ name p, ¬ Reports source ("Duplicate parameter '" ++ name ++ "'") p := by
  obtain ⟨message, p, hstuck⟩ := exists_stuck h
  constructor
  · intro digits hparse
    obtain ⟨e, he, -⟩ := hstuck.reports
    cases he.symm.trans hparse
  · intro name p' hreports
    have hhead := hstuck.message_head?
    rw [(hstuck.reports.unique hreports).1] at hhead
    simp [String.toList_append] at hhead

/-- A text that the grammar derives is accepted if every check in its tree holds, and else answered
by the first that does not, in a walk over the tree from the bottom up and from left to right. Of a
text that the grammar does not derive neither literals nor parameters are ever reported. -/
theorem first_violation_decides (source : String) :
    (∀ d : Derivation .statements, (Scan.ofText source.toList).rest = [] →
      d.tree.leaves = (Scan.ofText source.toList).tokens →
      ((∃ e, parse source = .ok e) ↔ ∀ check ∈ d.tree.walk, check.Ok) ∧
      ∀ before check after, d.tree.walk = before ++ check :: after →
        (∀ earlier ∈ before, earlier.Ok) → ¬ check.Ok → AnsweredBy source check) ∧
    (¬ Derivable source → (∀ digits, parse source ≠ .error (.literalTooLong digits)) ∧
      ∀ name p, ¬ Reports source ("Duplicate parameter '" ++ name ++ "'") p) := by
  refine ⟨fun d hrest hleaves => ?_, not_checked_of_not_derivable⟩
  rw [d.leaves_tree] at hleaves
  have hparse := parse_of_derivation hrest hleaves
  rw [d.walk_tree]
  constructor
  · rw [← d.firstFault?_eq_none_iff, hleaves]
    simp only [parse_eq_ok_iff, exists_and_right, and_iff_right_iff_imp]
    exact fun _ => ⟨_, read_eq_ok_iff.mpr ⟨hrest, d, hleaves, rfl⟩⟩
  · intro before check after hchecks hbefore hfails
    obtain ⟨fault, hfault⟩ : ∃ fault, check.fault? = some fault :=
      Option.ne_none_iff_exists'.mp (mt check.fault?_eq_none_iff.mp hfails)
    have hfirst : d.checks.findSome? Check.fault? = some fault := by
      refine List.findSome?_eq_some_iff.mpr ⟨before, check, after, hchecks, hfault, ?_⟩
      exact fun earlier he => earlier.fault?_eq_none_iff.mpr (hbefore earlier he)
    rw [hfirst] at hparse
    exact answeredBy_of_fault? hfault hparse

/-- Of two functions, one inside the other, the outer one is reported: it repeats `b` before `a`. -/
theorem outer_parameters_reported :
    let col (column : Nat) : Position := ⟨1, column⟩
    let source := "function(a,b,b,a)\x7bfunction(c,c)\x7b1\x7d\x7d"
    let outer : Parameters := ⟨("a", col 10),
      [(col 11, "b", col 12), (col 13, "b", col 14), (col 15, "a", col 16)]⟩
    let inner : Parameters := ⟨("c", col 28), [(col 29, "c", col 30)]⟩
    let row (e : Derivation .atom) : Derivation .statements :=
      .statementsAnd [] .noRow (.bare (.ofSum (.ofProduct (.ofUnary (.ofCall (.ofAtom e))))))
    let d := row (.function (col 1) none (col 9) (some outer) (col 17) (.block (col 18)
      (row (.function (col 19) none (col 27) (some inner) (col 31) (.block (col 32)
        (row (.number "1" (col 33))) (col 34)))) (col 35)))
    (Scan.ofText source.toList).rest = [] ∧
      d.tree.leaves = (Scan.ofText source.toList).tokens ∧
      d.tree.walk = [] ++ .parameters outer :: [.parameters inner, .literal "1"] ∧
      AnsweredBy source (.parameters outer) := by
  refine (fun hrest hleaves hwalk => ⟨hrest, hleaves, hwalk, ?answer⟩) ?rest ?leaves ?walk
  case rest => set_option maxRecDepth 4000 in with_unfolding_all rfl
  case leaves => set_option maxRecDepth 4000 in with_unfolding_all rfl
  case walk => simp [Parameters.tree, Derivation.separatorTrees, Derivation.separatorTokens]
  case answer =>
    exact ((first_violation_decides _).1 _ hrest hleaves).2 [] _ _ hwalk (by simp)
      (show ¬ List.Nodup ["a", "b", "b", "a"] by decide)

end Program

end Scriptlet
