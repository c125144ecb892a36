import Scriptlet.Proofs.Evaluation.Code
import Scriptlet.Proofs.Evaluation.Failure
import Scriptlet.Proofs.Grammar.Written
import Scriptlet.Proofs.Nesting.Sites

/-! Which nodes errors blame. An error of a program that was read from a text is placed at the node
whose own check failed, and its kind says what sort of node that is. -/

namespace Scriptlet

open EvalM Evaluator

/-- The kinds of errors that the own check of a node may raise. -/
def Expr.checks : Expr → List Kind
  | .binary .. => [.typeMismatch, .divisionByZero]
  | .var .. => [.unboundVariable]
  | .declare .. => [.duplicateDeclaration]
  | .cond .. | .loop .. => [.invalidCondition]
  | .call .. => [.notCallable, .arityMismatch]
  | .const .. | .print .. | .seq .. | .assign .. | .func .. | .foreign _ => []

/-! ### What a node by itself can raise -/

/-- The parameters of a function can always be bound if they differ. -/
theorem Heap.Declares.of_nodup {c : Closure} {vs : List Value} (hn : c.params.Nodup)
    (ha : vs.length = c.params.length) (h : Heap) :
    ∃ h', Declares h.frames.size (c.params.zip vs) (h.pushFrame (some c.frame) none) none h' := by
  obtain ⟨repeated, h', hd⟩ :=
    total h.frames.size (c.params.zip vs) (h.pushFrame (some c.frame) none)
  have hnew : (h.pushFrame (some c.frame) none).frames[h.frames.size]? =
      some ⟨some c.frame, h.strict c.frame, []⟩ := by simp [Heap.pushFrame]
  have hzip : (c.params.zip vs).map Prod.fst = c.params := by simp [List.map_fst_zip, ha]
  obtain ⟨rfl, -⟩ := hd.names_of_nodup hnew (by simpa [Frame.names, hzip] using hn)
  exact ⟨h', hd⟩

theorem Evaluator.enter_error_of_nodup {c : Closure} {vs : List Value} {s s' : State}
    {fault : Fault} (hn : c.params.Nodup) (he : enter c vs s = .error fault s') :
    fault = .ofCause (.arityMismatch c.params.length vs.length) := by
  by_cases ha : vs.length = c.params.length
  · obtain ⟨h', hd⟩ := Heap.Declares.of_nodup hn ha s.heap
    obtain ⟨notices, hrun⟩ := hd.enter ha
    rw [he] at hrun
    cases hrun
  · rw [enter_of_arity ha] at he
    cases he
    rfl

/-- An evaluation that fails by itself is of a node that has a check of the kind. -/
theorem Evaluator.Raises.kind_mem_checks {ev : Evaluator} {limit : Nat} {a : Activation}
    {cause : Cause} {s : State} (hr : ev.Raises limit a (.ofCause cause) s) (he : a.expr.Placed)
    (hc : ∀ {c vs s}, ev.Applies a c vs s → c.params.Nodup) : cause.kind ∈ a.expr.checks := by
  generalize hf : Fault.ofCause cause = fault at hr
  cases hr with
  | unbound | duplicate =>
    cases hf
    simp [Expr.checks, Cause.kind]
  | unwritable | unfinished => cases hf
  | refused _ _ hrefuses =>
    cases hf
    cases hrefuses <;> simp [Expr.checks, Cause.kind]
  | condition | loopCondition | notCallable =>
    unfold Fault.about at hf
    split at hf <;> cases hf
    simp [Expr.checks, Cause.kind]
  | entry ha henter =>
    rw [enter_error_of_nodup (hc ha) henter] at hf
    cases hf
    cases ha
    simp [Expr.checks, Cause.kind]
  | foreign => cases he

/-- All nodes with a check of their own have positions. -/
theorem Expr.Placed.pos_of_mem_checks {e : Expr} (he : e.Placed) {kind : Kind}
    (hk : kind ∈ e.checks) : ∃ pos, e.pos = some pos := by
  rw [← Option.isSome_iff_exists]
  cases e with
  | const | print | seq | assign | func | foreign => cases hk
  | var => exact he
  | binary | cond | loop | declare | call => exact he.1

/-! ### Within the run of a program -/

section Program

variable {source : String} {program : Expr} (hparse : Program.parse source = .ok program)
include hparse

theorem Program.runFresh_eq_result (limits : Limits) (strict : Bool) :
    Program.runFresh limits strict source .empty =
      Activation.result ⟨program, 0, .fresh strict⟩ limits.rounds limits.depth := by
  rw [Program.runFresh_of_ok hparse, limits.evalFresh_eq]
  rfl

variable {strict : Bool} {rounds depth d : Nat} {a : Activation}

theorem Within.placed (ha : Within rounds depth ⟨program, 0, .fresh strict⟩ d a) :
    a.expr.Placed :=
  ha.code .part (Program.placed_of_parse hparse) fun hc => by cases hc

theorem Within.params_nodup (ha : Within rounds depth ⟨program, 0, .fresh strict⟩ (d + 1) a)
    {c : Closure} {vs : List Value} {s : State} (hc : (evalWithin rounds d).Applies a c vs s) :
    c.params.Nodup := by
  obtain ⟨pos, hnodup, -⟩ :=
    ha.madeFrom .part (Program.written_of_parse hparse) (fun hc => by cases hc) hc
  exact hnodup

end Program

/-- All code that runs is code of the program. -/
theorem Within.mem_all {program : Expr} {strict : Bool} {rounds depth d : Nat} {a : Activation}
    (ha : Within rounds depth ⟨program, 0, .fresh strict⟩ d a) : a.expr ∈ program.all :=
  ha.code (C := (· ∈ program.all)) Expr.part_mem_all program.mem_all_self fun hc => by cases hc

/-- An error of a program, other than one about depth, is placed at a node of the program whose own
check failed, and such checks the node has. Every evaluation around that of the node ends with the
very same error. -/
theorem error_blames_node {source : String} {program : Expr}
    (hparse : Program.parse source = .ok program) {limits : Limits} {strict : Bool} {err : Error}
    {s : State} (hrun : Program.runFresh limits strict source .empty = .error (.error err) s)
    (hkind : err.kind ≠ .recursionDepth) :
    let root : Activation := ⟨program, 0, .fresh strict⟩
    ∃ d a pos, Within limits.rounds limits.depth root (d + 1) a ∧ a.expr ∈ program.all ∧
      (evalWithin limits.rounds d).Raises limits.rounds a (.ofCause err.cause) s ∧
      err.kind ∈ a.expr.checks ∧ a.expr.pos = some pos ∧ err.place = some (.ofPosition pos) ∧
      ∀ d' b, Within limits.rounds limits.depth root d' b →
        Within limits.rounds d' b (d + 1) a →
          b.result limits.rounds d' = .error (.error err) s := by
  intro root
  obtain ⟨cause, place⟩ := err
  rw [Program.runFresh_eq_result hparse] at hrun
  obtain hdepth | ⟨d, a, ha, hraise⟩ := Activation.exists_raises hrun
  · exact absurd (Option.some.inj hdepth) hkind
  replace hraise : (evalWithin limits.rounds d).Raises limits.rounds a (.ofCause cause) s := hraise
  have hchecks := hraise.kind_mem_checks (ha.placed hparse) (ha.params_nodup hparse)
  obtain ⟨pos, hpos⟩ := (ha.placed hparse).pos_of_mem_checks hchecks
  -- the node settles the place, so that nothing around it can
  have hfails : a.result limits.rounds (d + 1) =
      .error (.error ⟨cause, some (.ofPosition pos)⟩) s := by
    refine Activation.result_error_iff.mpr ⟨_, hraise.step_error, ?_⟩
    rw [hpos, Fault.stamp_ofCause hraise.ne_depthExceeded]
  have hsettled := Fault.settled_placed cause (.ofPosition pos)
  have hplace := hrun.symm.trans (ha.result_error hfails hsettled)
  cases hplace
  exact ⟨d, a, pos, ha, ha.mem_all, hraise, hchecks, hpos, rfl,
    fun d' b _ hb => hb.result_error hfails hsettled⟩

/-- A division by zero in a loop of a function is blamed on the division, not on the loop or the
call. -/
theorem division_blamed_in_loop :
    let source := "function(n)\x7bwhile(true)\x7b1/n\x7d\x7d(0)"
    let start (column : Nat) : Option Position := some ⟨1, column⟩
    let division : Expr := .binary (start 25) .div (.const (start 25) (.number 1))
      (.var (start 27) "n")
    let program : Expr := .call (start 1)
      (.func (start 1) ["n"] (.loop (start 13) (.const (start 19) (.bool true)) division))
      [.const (start 31) (.number 0)]
    let root : Activation := ⟨program, 0, .fresh true⟩
    let err : Error := ⟨.divisionByZero, some (.ofPosition ⟨1, 25⟩)⟩
    Program.parse source = .ok program ∧ err.kind ≠ .recursionDepth ∧
      ∃ s, Program.runFresh ⟨4, 1⟩ true source .empty = .error (.error err) s ∧
      ∃ d a, Within 1 4 root (d + 1) a ∧ a.expr ∈ program.all ∧
        (evalWithin 1 d).Raises 1 a (.ofCause .divisionByZero) s ∧
        .divisionByZero ∈ a.expr.checks ∧ a.expr.pos = some ⟨1, 25⟩ ∧
        root.result 1 4 = .error (.error err) s := by
  refine (fun hparse => ⟨hparse, by decide, ?run⟩) ?parse
  case parse => set_option maxRecDepth 2000 in with_unfolding_all rfl
  have hrun := (Program.runFresh_eq_result hparse ⟨4, 1⟩ true).trans
    (show _ = .error (.error ⟨.divisionByZero, some (.ofPosition ⟨1, 25⟩)⟩) _ by
      with_unfolding_all rfl)
  obtain ⟨d, a, ⟨line, column⟩, ha, hmem, hraise, hchecks, hpos, hplace, hall⟩ :=
    error_blames_node hparse hrun (by decide)
  cases hplace
  exact ⟨_, hrun, d, a, ha, hmem, hraise, hchecks, hpos, hall 4 _ .root ha⟩

end Scriptlet
