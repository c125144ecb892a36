import Scriptlet.Proofs.Evaluation.Invariant
import Scriptlet.Proofs.Evaluation.Sound

/-! How failures spread. An evaluation that fails by itself takes with it every evaluation that is
under way around it, and no other evaluation fails. -/

namespace Scriptlet

open EvalM

namespace Evaluator

variable {ev : Evaluator} {limit : Nat}

/-! ### From a part to the whole -/

theorem list_cons_error_iff {e : Expr} {es : List Expr} {f : Nat} {s s' : State} {fault : Fault} :
    ev.list f (e :: es) s = .error fault s' ↔ ev e f s = .error fault s' ∨
      ∃ v s₁, ev e f s = .ok v s₁ ∧ ev.list f es s₁ = .error fault s' := by
  simp only [list, bind_eq_error_iff]
  -- the list of values is put together without a further failure
  have hpure {v : Value} {vs : List Value} {s₁ : State} :
      (pure (v :: vs) : EvalM (List Value)) s₁ ≠ .error fault s' := by
    intro h
    cases h
  simp [hpure]

/-- Expressions are evaluated one after another up to the first that fails. -/
theorem list_error {before after : List Expr} {part : Expr} {f : Nat} {s s' s'' : State}
    {vs : List Value} {fault : Fault} (hvs : ev.list f before s = .ok vs s')
    (hpart : ev part f s' = .error fault s'') :
    ev.list f (before ++ part :: after) s = .error fault s'' := by
  induction before generalizing s vs with
  | nil =>
    cases hvs
    exact list_cons_error_iff.mpr (.inl hpart)
  | cons e before ih =>
    obtain ⟨v, s₁, he, hvs⟩ := bind_eq_ok_iff.mp hvs
    obtain ⟨ws, s₂, hws, hpure⟩ := bind_eq_ok_iff.mp hvs
    cases hpure
    exact list_cons_error_iff.mpr (.inr ⟨v, s₁, he, ih hws⟩)

theorem list_singleton_error {e : Expr} {f : Nat} {s s' : State} {fault : Fault}
    (h : ev.list f [e] s = .error fault s') : ev e f s = .error fault s' := by
  obtain he | ⟨v, s₁, -, hnil⟩ := list_cons_error_iff.mp h
  · exact he
  · cases hnil

theorem statements_of_row_error {e : Expr} {f : Nat} {s s' : State} {fault : Fault}
    (h : ev.list f e.row s = .error fault s') : ev.statements f e s = .error fault s' := by
  induction e generalizing s with
  | seq pos first second _ ih =>
    obtain hfirst | ⟨v, s₁, hfirst, hrest⟩ := list_cons_error_iff.mp h
    · exact bind_of_error hfirst
    · rw [statements, bind_of_ok hfirst]
      exact ih hrest
  | _ => exact list_singleton_error h

/-- A step that cannot get through the parts it has to begin with. -/
theorem step_of_operands_error {e : Expr} {f : Nat} {s s' : State} {fault : Fault}
    (h : ev.list f e.operands s = .error fault s') : ev.step limit e f s = .error fault s' := by
  cases e with
  | const | var | loop | func | foreign => cases h
  | print | declare | assign | call => exact bind_of_error (list_singleton_error h)
  | cond p test yes no =>
    rw [step, condition, bind_of_error (bind_of_error (list_singleton_error h))]
  | seq => exact statements_of_row_error h
  | binary p op left right =>
    obtain hl | ⟨v, s₁, hl, hr⟩ := list_cons_error_iff.mp h
    · exact bind_of_error hl
    · rw [step, bind_of_ok hl, bind_of_error (list_singleton_error hr)]

/-- What is left of a loop that has gone round so often. -/
theorem Rounds.resume {test body : Expr} {f n : Nat} {s s' : State}
    (hr : ev.Rounds test body f s n s') (m : Nat) (last : Value) :
    ∃ last', ev.rounds test body f (n + m) last s = ev.rounds test body f m last' s' := by
  induction hr generalizing m with
  | start => exact ⟨last, by rw [Nat.zero_add]⟩
  | @again n s₁ s₂ v s₃ _ ht hb ih =>
    obtain ⟨last', hl⟩ := ih (m + 1)
    refine ⟨v, ?_⟩
    rw [Nat.add_assoc, Nat.add_comm 1 m, hl, rounds, bind_of_ok (condition_eq_ok_iff.mpr ht),
      if_pos rfl, bind_of_ok hb]

/-- A loop that comes to its test again and may go round. -/
theorem Rounds.resume_succ {test body : Expr} {f n : Nat} {s s' : State}
    (hr : ev.Rounds test body f s n s') (hn : n < limit) :
    ∃ m last, ev.rounds test body f limit .null s = ev.rounds test body f (m + 1) last s' := by
  obtain ⟨m, rfl⟩ : ∃ m, limit = n + (m + 1) := ⟨limit - n - 1, by omega⟩
  obtain ⟨last, hl⟩ := hr.resume (m + 1) .null
  exact ⟨m, last, hl⟩

theorem step_call_of_applies {a : Activation} {c : Closure} {vs : List Value} {s : State}
    (ha : ev.Applies a c vs s) :
    ev.step limit a.expr a.frame a.state = (enter c vs >>= ev c.body) s := by
  obtain ⟨hv, hc, hvs⟩ := ha
  rw [step, bind_of_ok hv, bind_of_ok (callee_of_some hc), bind_of_ok hvs, apply_eq]

/-- When an evaluation fails, the one that began it fails in the same way. -/
theorem Calls.step_error {a b : Activation} {fault : Fault} {s : State} (hb : ev.Calls limit a b)
    (hr : ev b.expr b.frame b.state = .error fault s) :
    ev.step limit a.expr a.frame a.state = .error fault s := by
  cases hb with
  | operand he hvs =>
    refine step_of_operands_error ?_
    rw [he]
    exact list_error hvs hr
  | @branch p test yes no f s₀ b s₁ ht =>
    rw [step, bind_of_ok (condition_eq_ok_iff.mpr ht)]
    cases b <;> exact hr
  | test hn hround =>
    obtain ⟨m, last, hl⟩ := hround.resume_succ hn
    rw [step, hl, rounds, condition, bind_of_error (bind_of_error hr)]
  | body hn hround ht =>
    obtain ⟨m, last, hl⟩ := hround.resume_succ hn
    rw [step, hl, rounds, bind_of_ok (condition_eq_ok_iff.mpr ht), if_pos rfl, bind_of_error hr]
  | argument hv hc hvs =>
    rw [step, bind_of_ok hv, bind_of_ok (callee_of_some hc), bind_of_error (list_error hvs hr)]
  | entry ha he =>
    rw [step_call_of_applies ha, bind_of_ok he]
    exact hr

/-- An evaluation that fails by itself does fail. -/
theorem Raises.step_error {a : Activation} {fault : Fault} {s : State}
    (ha : ev.Raises limit a fault s) :
    ev.step limit a.expr a.frame a.state = .error fault s := by
  cases ha with
  | unbound hx hs =>
    change EvalM.read _ _ _ = _
    rw [read_eq, hx]
    exact if_pos hs
  | @unwritable p arg f s₀ v _ hv hw =>
    have hp := print_eq v s
    rw [if_neg (by simp [hw])] at hp
    rw [step, bind_of_ok hv, bind_of_error hp]
  | refused ha hb hr =>
    rw [step, bind_of_ok ha, bind_of_ok hb, getHeap_bind, hr.apply]
    rfl
  | condition ht hv => rw [step, bind_of_error (condition_of_ne ht hv)]
  | loopCondition hn hround ht hv =>
    obtain ⟨m, last, hl⟩ := hround.resume_succ hn
    rw [step, hl, rounds, bind_of_error (condition_of_ne ht hv)]
  | unfinished hround =>
    obtain ⟨last, hl⟩ := hround.resume 0 .null
    rw [Nat.add_zero] at hl
    rw [step, hl]
    rfl
  | @duplicate p x init f s₀ v _ hv hb =>
    have hd := declare_eq f x v s
    rw [if_pos hb] at hd
    rw [step, bind_of_ok hv, bind_of_error hd]
    rfl
  | notCallable hv hc =>
    rw [step, bind_of_ok hv, bind_of_error ((callee_of_none hc).trans (complain_eq ..))]
  | entry ha he => rw [step_call_of_applies ha, bind_of_error he]
  | foreign => rfl

/-- A step fails exactly when it does so by itself or an evaluation that it begins fails. -/
theorem step_error_iff {a : Activation} {fault : Fault} {s : State} :
    ev.step limit a.expr a.frame a.state = .error fault s ↔
      ev.Raises limit a fault s ∨
        ∃ b, ev.Calls limit a b ∧ ev b.expr b.frame b.state = .error fault s := by
  refine ⟨Evaluator.step_error, ?_⟩
  rintro (hr | ⟨b, hb, hr⟩)
  · exact hr.step_error
  · exact hb.step_error hr

/-- A frame is not entered if the arguments are too few or too many, or a parameter repeats. -/
theorem enter_error_cases {c : Closure} {vs : List Value} {s s' : State} {fault : Fault}
    (he : enter c vs s = .error fault s') :
    fault = .ofCause (.arityMismatch c.params.length vs.length) ∨
      ∃ x, fault = .ofCause (.duplicateDeclaration x) := by
  by_cases harity : vs.length = c.params.length
  · obtain ⟨repeated, h', hd⟩ := Heap.Declares.total s.heap.frames.size (c.params.zip vs)
      (s.heap.pushFrame (some c.frame) none)
    obtain ⟨notices, hrun⟩ := hd.enter harity
    rw [he] at hrun
    cases repeated with
    | none => cases hrun
    | some x =>
      cases hrun
      exact .inr ⟨x, rfl⟩
  · rw [enter_of_arity harity] at he
    cases he
    exact .inl rfl

/-- A fault that an evaluation raises by itself has no place yet. -/
theorem Raises.unplaced {a : Activation} {fault : Fault} {s : State}
    (ha : ev.Raises limit a fault s) : fault.unplaced = fault := by
  cases ha with
  | entry _ he => obtain rfl | ⟨x, rfl⟩ := enter_error_cases he <;> rfl
  | condition | loopCondition | notCallable => exact Fault.unplaced_about ..
  | _ => rfl

/-- No evaluation by itself goes too deep; it is the ones that it begins. -/
theorem Raises.ne_depthExceeded {a : Activation} {cause : Cause} {s : State}
    (ha : ev.Raises limit a (.ofCause cause) s) : cause ≠ .depthExceeded := by
  generalize hf : Fault.ofCause cause = fault at ha
  cases ha with
  | unwritable | unfinished => cases hf
  | refused _ _ hr =>
    cases hf
    exact hr.ne_depthExceeded
  | condition | loopCondition | notCallable =>
    unfold Fault.about at hf
    split at hf <;> cases hf
    simp
  | entry _ he =>
    obtain rfl | ⟨x, rfl⟩ := enter_error_cases he <;> cases hf <;> simp
  | _ =>
    cases hf
    simp

end Evaluator

/-! ### Through whole evaluations -/

namespace Fault

/-- A fault whose place is settled, or that has none. -/
def Settled (fault : Fault) : Prop := ∀ pos, fault.stamp pos = fault

theorem settled_placed (cause : Cause) (place : Place) :
    Settled (.error ⟨cause, some place⟩) := fun _ => rfl

theorem settled_numberTooLong : Settled .numberTooLong := fun _ => rfl

/-- A node that has a position places the error that it raises. -/
theorem stamp_ofCause {cause : Cause} (hcause : cause ≠ .depthExceeded) (pos : Position) :
    (Fault.ofCause cause).stamp (some pos) = .error ⟨cause, some (.ofPosition pos)⟩ := by
  simp [ofCause, stamp, Error.stamp, hcause]

@[simp] theorem kind?_unplaced (fault : Fault) : fault.unplaced.kind? = fault.kind? := by
  cases fault <;> rfl

end Fault

variable {rounds depth d : Nat} {root a : Activation} {fault : Fault} {s : State}

/-- An evaluation ends as its step does; only an error without a place takes its position. -/
theorem Activation.result_error_iff :
    a.result rounds (depth + 1) = .error fault s ↔ ∃ φ,
      Evaluator.step (evalWithin rounds depth) rounds a.expr a.frame a.state = .error φ s ∧
        fault = φ.stamp a.expr.pos := by
  have hr : a.result rounds (depth + 1) = stamp a.expr.pos
      (Evaluator.step (evalWithin rounds depth) rounds a.expr a.frame) a.state := rfl
  rw [hr, stamp_eq]
  cases Evaluator.step (evalWithin rounds depth) rounds a.expr a.frame a.state with
  | ok v s' => simp
  | error φ s' =>
    simp only [EStateM.Result.error.injEq]
    constructor
    · rintro ⟨rfl, rfl⟩
      exact ⟨φ, ⟨rfl, rfl⟩, rfl⟩
    · rintro ⟨_, ⟨rfl, rfl⟩, rfl⟩
      exact ⟨rfl, rfl⟩

/-- An evaluation that fails within another one makes that one fail in the same way. -/
theorem Within.result_error (ha : Within rounds depth root d a)
    (hr : a.result rounds d = .error fault s) (hfault : fault.Settled) :
    root.result rounds depth = .error fault s := by
  induction ha with
  | root => exact hr
  | call _ hb ih =>
    exact ih (Activation.result_error_iff.mpr ⟨fault, hb.step_error hr, (hfault _).symm⟩)

/-- Whenever evaluation fails, some evaluation within it fails by itself, with the same fault but
for its place, unless evaluations nest too deep. -/
theorem Activation.exists_raises (hr : root.result rounds depth = .error fault s) :
    fault.kind? = some .recursionDepth ∨ ∃ d a, Within rounds depth root (d + 1) a ∧
      (evalWithin rounds d).Raises rounds a fault.unplaced s := by
  induction depth generalizing root fault with
  | zero =>
    cases hr
    exact .inl rfl
  | succ depth ih =>
    obtain ⟨φ, hstep, rfl⟩ := Activation.result_error_iff.mp hr
    rw [Fault.kind?_stamp, Fault.unplaced_stamp]
    rcases Evaluator.step_error_iff.mp hstep with hraise | ⟨b, hb, hfails⟩
    · exact .inr ⟨depth, root, .root, by rwa [hraise.unplaced]⟩
    · rcases ih hfails with hdepth | ⟨d, a, ha, hraise⟩
      · exact .inl hdepth
      · exact .inr ⟨d, a, (Within.root.call hb).trans ha, hraise⟩

end Scriptlet
