import Scriptlet.Proofs.Blame.Nodes
import Scriptlet.Proofs.Strictness.Policy

/-! How runs of programs can end. A program that was read from a text ends with a value or with an
error of a documented kind, unless it has to write a number with too many digits or a loop is given
up. -/

namespace Scriptlet

open EvalM Evaluator

/-- The kinds of errors that programs are documented to end with. -/
def Kind.documented (strict : Bool) : List Kind :=
  [.duplicateDeclaration, .invalidCondition, .notCallable, .arityMismatch, .typeMismatch,
    .divisionByZero, .recursionDepth] ++ if strict then [.unboundVariable] else []

theorem Expr.mem_documented {e : Expr} {kind : Kind} (hk : kind ∈ e.checks) {strict : Bool}
    (hs : kind = .unboundVariable → strict = true) : kind ∈ Kind.documented strict := by
  have hkind : kind = .unboundVariable ∨ kind ∈ Kind.documented false := by
    cases e <;> simp [checks] at hk <;> grind [Kind.documented]
  obtain rfl | hkind := hkind
  · simp [hs rfl, Kind.documented]
  · exact List.mem_append_left _ (by simpa [Kind.documented] using hkind)

/-! ### Faults that are no errors -/

/-- An evaluation has to write out a value: to print it, or to say in an error what it is. -/
inductive Evaluator.Writes (ev : Evaluator) (limit : Nat) : Activation → Value → State → Prop where
  | print {p a f s v s'} (hv : ev a f s = .ok v s') : Writes ev limit ⟨.print p a, f, s⟩ v s'
  | condition {p test yes no f s v s'} (ht : ev test f s = .ok v s') (hv : ∀ b, v ≠ .bool b) :
      Writes ev limit ⟨.cond p test yes no, f, s⟩ v s'
  | loopCondition {p test body f s n s₁ v s₂} (hn : n < limit)
      (hr : ev.Rounds test body f s n s₁) (ht : ev test f s₁ = .ok v s₂) (hv : ∀ b, v ≠ .bool b) :
      Writes ev limit ⟨.loop p test body, f, s⟩ v s₂
  | notCallable {p callee args f s v s'} (hv : ev callee f s = .ok v s')
      (hc : s'.heap.closure? v = none) : Writes ev limit ⟨.call p callee args, f, s⟩ v s'

theorem Number.writable_iff (n : Int) :
    writable n = true ↔ (Nat.toDigits 10 n.natAbs).length ≤ digitLimit := by
  rw [writable, decide_eq_true_iff, length_toDigits_le_iff]

/-- The only values that cannot be written are numbers with too many digits. -/
theorem Value.writable_eq_false_iff {v : Value} : v.writable = false ↔
    ∃ n, v = .number n ∧ Number.digitLimit < (Nat.toDigits 10 n.natAbs).length := by
  cases v with
  | number n => simp [writable, ← Bool.not_eq_true, Number.writable_iff]
  | _ => simp [writable]

theorem Fault.about_eq_numberTooLong_iff {h : Heap} {v : Value} {cause : String → Cause} :
    Fault.about h v cause = .numberTooLong ↔ v.writable = false := by
  cases hv : v.writable <;> simp [Fault.about, Fault.ofCause, hv]

namespace Evaluator

variable {ev : Evaluator} {limit : Nat} {a : Activation} {s : State}

theorem raises_numberTooLong_iff :
    ev.Raises limit a .numberTooLong s ↔ ∃ v, ev.Writes limit a v s ∧ v.writable = false := by
  constructor
  · generalize hf : Fault.numberTooLong = fault
    intro hr
    cases hr with
    | unwritable hv hw => exact ⟨_, .print hv, hw⟩
    | condition ht hv => exact ⟨_, .condition ht hv, Fault.about_eq_numberTooLong_iff.mp hf.symm⟩
    | loopCondition hn hr ht hv =>
      exact ⟨_, .loopCondition hn hr ht hv, Fault.about_eq_numberTooLong_iff.mp hf.symm⟩
    | notCallable hv hc =>
      exact ⟨_, .notCallable hv hc, Fault.about_eq_numberTooLong_iff.mp hf.symm⟩
    | entry _ he => obtain rfl | ⟨x, rfl⟩ := enter_error_cases he <;> cases hf
    | _ => cases hf
  · rintro ⟨v, hw, hv⟩
    cases hw with
    | print hv' => exact .unwritable hv' hv
    | condition ht hne =>
      rw [← Fault.about_eq_numberTooLong_iff.mpr hv]
      exact .condition ht hne
    | loopCondition hn hr ht hne =>
      rw [← Fault.about_eq_numberTooLong_iff.mpr hv]
      exact .loopCondition hn hr ht hne
    | notCallable hv' hc =>
      rw [← Fault.about_eq_numberTooLong_iff.mpr hv]
      exact .notCallable hv' hc

/-- Only a loop that goes round as often as it may is given up. -/
theorem Raises.rounds_of_unfinished (hr : ev.Raises limit a .unfinished s) :
    ∃ p test body f s₀, a = ⟨.loop p test body, f, s₀⟩ ∧ ev.Rounds test body f s₀ limit s := by
  generalize hf : Fault.unfinished = fault at hr
  cases hr with
  | unfinished hr => exact ⟨_, _, _, _, _, rfl, hr⟩
  | condition | loopCondition | notCallable =>
    unfold Fault.about at hf
    split at hf <;> cases hf
  | entry _ he => obtain rfl | ⟨x, rfl⟩ := enter_error_cases he <;> cases hf
  | _ => cases hf

theorem Raises.ne_literalTooLong {digits : Nat} :
    ¬ ev.Raises limit a (.literalTooLong digits) s := by
  intro hr
  generalize hf : Fault.literalTooLong digits = fault at hr
  cases hr with
  | condition | loopCondition | notCallable =>
    unfold Fault.about at hf
    split at hf <;> cases hf
  | entry _ he => obtain rfl | ⟨x, rfl⟩ := enter_error_cases he <;> cases hf
  | _ => cases hf

end Evaluator

/-- A number that is too long takes every evaluation around it down, and nothing else does so with
this fault. -/
theorem Activation.result_numberTooLong_iff {root : Activation} {rounds depth : Nat} {s : State} :
    root.result rounds depth = .error .numberTooLong s ↔
      ∃ d a n, Within rounds depth root (d + 1) a ∧
        (evalWithin rounds d).Writes rounds a (.number n) s ∧
        Number.digitLimit < (Nat.toDigits 10 n.natAbs).length := by
  constructor
  · intro hr
    obtain hdepth | ⟨d, a, ha, hraise⟩ := Activation.exists_raises hr
    · cases hdepth
    · obtain ⟨v, hw, hv⟩ := raises_numberTooLong_iff.mp hraise
      obtain ⟨n, rfl, hn⟩ := Value.writable_eq_false_iff.mp hv
      exact ⟨d, a, n, ha, hw, hn⟩
  · rintro ⟨d, a, n, ha, hw, hn⟩
    have hraise := raises_numberTooLong_iff.mpr
      ⟨_, hw, Value.writable_eq_false_iff.mpr ⟨n, rfl, hn⟩⟩
    have hfails : a.result rounds (d + 1) = .error .numberTooLong s :=
      Activation.result_error_iff.mpr ⟨_, hraise.step_error, rfl⟩
    exact ha.result_error hfails Fault.settled_numberTooLong

/-! ### Operator signs -/

/-- A piece that is an operator consists of the signs of that operator. -/
theorem Lexeme.text_of_cut?_operator {cs : List Char} {piece : Cut} {op : Operator}
    (hc : cut? cs = some piece) (hop : piece.symbol = some (.operator op)) :
    String.ofList piece.text = op.symbol := by
  cases cs with
  | nil => cases hc
  | cons c cs =>
    simp only [cut?] at hc
    split at hc
    · cases hc
      cases hop
    · split at hc
      · cases hc
        simp only [run, Symbol.ofWord] at hop
        split at hop <;> cases hop
      · split at hc
        · cases hc
          cases hop
        · unfold sign? at hc
          split at hc <;> cases hc <;> cases hop <;> rfl

/-- Every operator of a text is one that its signs stand for. -/
theorem Scan.ofSymbol?_of_mem {p : Position} {cs : List Char} {l : Lexeme} {op : Operator}
    (hl : l ∈ (Scan.run p cs).lexemes) (hop : l.symbol = some (.operator op)) :
    Operator.ofSymbol? (String.ofList l.text) = some op := by
  fun_induction Scan.run p cs with
  | case1 => cases hl
  | case2 p cs piece hcut scan ih =>
    rcases List.mem_cons.mp hl with rfl | hl
    · rw [Lexeme.text_of_cut?_operator hcut hop, Operator.ofSymbol?_symbol]
    · exact ih hl

/-! ### The run of a program -/

/-- No name is unbound, as far as errors go, in a lax environment. -/
theorem Activation.kind_ne_unbound {program : Expr} {limits : Limits} {fault : Fault} {s : State}
    (hr : Activation.result ⟨program, 0, .fresh false⟩ limits.rounds limits.depth =
      .error fault s) : fault.kind? ≠ some .unboundVariable := by
  have hsession : Session (· = false) (.fresh false) := .fresh rfl
  have hroot : Within limits.rounds limits.depth (.ofCall 0 none program (.fresh false))
      limits.depth ⟨program, 0, .fresh false⟩ := .root
  refine hroot.kind_ne_unbound hsession.governed.ordered Nat.one_pos ?_ hr rfl
  intro d a c vs s' _ _ hc
  have hglobal : c.frame = 0 := Nat.lt_one_iff.mp hc
  rw [hglobal]
  rfl

section Program

variable {source : String} {program : Expr} (hparse : Program.parse source = .ok program)
  {limits : Limits} {strict : Bool}
include hparse

/-- An error of a program is of a documented kind. -/
theorem Program.kind_documented {err : Error} {s : State}
    (hr : Activation.result ⟨program, 0, .fresh strict⟩ limits.rounds limits.depth =
      .error (.error err) s) : err.kind ∈ Kind.documented strict := by
  obtain hdepth | ⟨d, a, ha, hraise⟩ := Activation.exists_raises hr
  · rw [Option.some.inj hdepth]
    simp [Kind.documented]
  · have hchecks : err.cause.kind ∈ a.expr.checks :=
      Raises.kind_mem_checks hraise (ha.placed hparse) (ha.params_nodup hparse)
    refine Expr.mem_documented hchecks fun hunbound => ?_
    cases strict with
    | true => rfl
    | false => exact absurd (congrArg some hunbound) (Activation.kind_ne_unbound hr)

theorem Within.declareAll_ok {d : Nat} {a : Activation} {c : Closure} {vs : List Value} {s : State}
    (ha : Within limits.rounds limits.depth ⟨program, 0, .fresh strict⟩ (d + 1) a)
    (hc : (evalWithin limits.rounds d).Applies a c vs s) (hlen : vs.length = c.params.length) :
    ∃ s', declareAll s.heap.frames.size (c.params.zip vs)
      { s with heap := s.heap.pushFrame (some c.frame) none } = .ok () s' := by
  obtain ⟨h', hd⟩ := Heap.Declares.of_nodup (ha.params_nodup hparse hc) hlen s.heap
  obtain ⟨notices, hrun⟩ :=
    hd.declareAll { s with heap := s.heap.pushFrame (some c.frame) none } rfl
  exact ⟨_, hrun⟩

end Program

theorem Operator.apply_ok_or_error (op : Operator) (h : Heap) (v w : Value) :
    (∃ u, op.apply h v w = .ok u) ∨ ∃ cause, op.apply h v w = .error cause ∧
      cause.kind ∈ [Kind.typeMismatch, .divisionByZero] := by
  rcases computes_or_refuses h op v w with ⟨u, hc⟩ | ⟨cause, hr⟩
  · exact .inl ⟨u, hc.apply h⟩
  · refine .inr ⟨cause, hr.apply, ?_⟩
    cases hr <;> simp [Cause.kind]

/-- The run of a program ends with a value, with an error of a documented kind, because a number is
too long to be written, or because a loop went round as often as it may. The third happens exactly
when some node has to write such a number. Binding parameters never fails, all signs of the text
are those of operators, and an operator gives a value or an error for any two operands. -/
theorem program_ends_as_documented {source : String} {program : Expr}
    (hparse : Program.parse source = .ok program) (limits : Limits) (strict : Bool) :
    let root : Activation := ⟨program, 0, .fresh strict⟩
    let outcome := Program.runFresh limits strict source .empty
    ((∃ v s, outcome = .ok v s) ∨
      (∃ err s, outcome = .error (.error err) s ∧ err.kind ∈ Kind.documented strict) ∨
      (∃ s, outcome = .error .numberTooLong s) ∨
      ∃ d p test body f s s',
        Within limits.rounds limits.depth root (d + 1) ⟨.loop p test body, f, s⟩ ∧
        (evalWithin limits.rounds d).Rounds test body f s limits.rounds s' ∧
        outcome = .error .unfinished s') ∧
    (∀ s, outcome = .error .numberTooLong s ↔
      ∃ d a n, Within limits.rounds limits.depth root (d + 1) a ∧
        (evalWithin limits.rounds d).Writes limits.rounds a (.number n) s ∧
        Number.digitLimit < (Nat.toDigits 10 n.natAbs).length) ∧
    (∀ d a c vs s, Within limits.rounds limits.depth root (d + 1) a →
      (evalWithin limits.rounds d).Applies a c vs s → vs.length = c.params.length →
      ∃ s', declareAll s.heap.frames.size (c.params.zip vs)
        { s with heap := s.heap.pushFrame (some c.frame) none } = .ok () s') ∧
    (∀ l ∈ (Scan.ofText source.toList).lexemes, ∀ op, l.symbol = some (.operator op) →
      Operator.ofSymbol? (String.ofList l.text) = some op) ∧
    ∀ (op : Operator) h v w, (∃ u, op.apply h v w = .ok u) ∨
      ∃ cause, op.apply h v w = .error cause ∧
        cause.kind ∈ [Kind.typeMismatch, .divisionByZero] := by
  intro root outcome
  have hrun : outcome = root.result limits.rounds limits.depth :=
    Program.runFresh_eq_result hparse limits strict
  rw [hrun]
  refine ⟨?ending, fun s => Activation.result_numberTooLong_iff,
    fun d a c vs s ha => ha.declareAll_ok hparse, fun l hl op => Scan.ofSymbol?_of_mem hl,
    Operator.apply_ok_or_error⟩
  cases hr : root.result limits.rounds limits.depth with
  | ok v s => exact .inl ⟨v, s, rfl⟩
  | error fault s =>
    refine .inr ?_
    cases fault with
    | error err => exact .inl ⟨err, s, rfl, Program.kind_documented hparse hr⟩
    | numberTooLong => exact .inr (.inl ⟨s, rfl⟩)
    | literalTooLong digits =>
      obtain hdepth | ⟨d, a, ha, hraise⟩ := Activation.exists_raises hr
      · cases hdepth
      · exact absurd hraise Raises.ne_literalTooLong
    | unfinished =>
      obtain hdepth | ⟨d, a, ha, hraise⟩ := Activation.exists_raises hr
      · cases hdepth
      · obtain ⟨p, test, body, f, s₀, rfl, hrounds⟩ := Raises.rounds_of_unfinished hraise
        exact .inr (.inr ⟨d, p, test, body, f, s₀, s, ha, hrounds, rfl⟩)

/-- A function of two parameters that divides by zero ends as documented. -/
theorem division_ends_as_documented :
    let source := "function(a,b)\x7ba/b\x7d(1,0)"
    let start (column : Nat) : Option Position := some ⟨1, column⟩
    let program : Expr := .call (start 1) (.func (start 1) ["a", "b"]
      (.binary (start 15) .div (.var (start 15) "a") (.var (start 17) "b")))
      [.const (start 20) (.number 1), .const (start 22) (.number 0)]
    Program.parse source = .ok program ∧
      ∃ err s, Program.runFresh ⟨3, 0⟩ false source .empty = .error (.error err) s ∧
        err.kind ∈ Kind.documented false := by
  refine (fun hparse => ⟨hparse, ?run⟩) ?parse
  case parse => set_option maxRecDepth 2000 in with_unfolding_all rfl
  have hrun := (Program.runFresh_eq_result hparse ⟨3, 0⟩ false).trans
    (show _ = .error (.error ⟨.divisionByZero, some (.ofPosition ⟨1, 15⟩)⟩) _ by
      with_unfolding_all rfl)
  obtain ⟨v, s, hok⟩ | ⟨err, s, herr⟩ | ⟨s, hlong⟩ | ⟨d, p, test, body, f, s, s', -, -, hloop⟩ :=
    (program_ends_as_documented hparse ⟨3, 0⟩ false).1
  · rw [hrun] at hok
    cases hok
  · exact ⟨err, s, herr⟩
  · rw [hrun] at hlong
    cases hlong
  · rw [hrun] at hloop
    cases hloop

end Scriptlet
