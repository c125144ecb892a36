import Scriptlet.Proofs.Evaluation.Growth
import Scriptlet.Proofs.Evaluation.Sound

/-! What limits do. An evaluation that is not given up ends in the same way under all higher limits,
and one that is given up is the beginning of what it would be under these. So it makes sense to ask
how an evaluation ends where no limit is met. -/

namespace Scriptlet

open EvalM

/-- `x` is `y`, or it was given up, with a fault by which it may quit, at a point from which `y`
goes on. -/
def EvalM.CutShort {α : Type} (quits : Fault → Prop) (x y : EvalM α) : Prop :=
  ∀ s, x s = y s ∨ ∃ fault s', x s = .error fault s' ∧ quits fault ∧ s'.Grows (finalState (y s))

namespace EvalM.CutShort

variable {α β : Type} {quits : Fault → Prop}

theorem refl (x : EvalM α) : CutShort quits x x := fun _ => .inl rfl

theorem bind {x y : EvalM α} {k k' : α → EvalM β} (hx : CutShort quits x y)
    (hk : ∀ a, CutShort quits (k a) (k' a)) [hgrows : ∀ a, Growing (k' a)] :
    CutShort quits (x >>= k) (y >>= k') := by
  intro s
  obtain heq | ⟨fault, s', hfault, hquits, hle⟩ := hx s
  · cases hr : y s with
    | ok a s₁ =>
      rw [bind_of_ok (heq.trans hr), bind_of_ok hr]
      exact hk a s₁
    | error fault s₁ =>
      rw [bind_of_error (heq.trans hr), bind_of_error hr]
      exact .inl rfl
  · refine .inr ⟨fault, s', bind_of_error hfault, hquits, ?_⟩
    cases hr : y s with
    | ok a s₁ =>
      rw [hr] at hle
      rw [bind_of_ok hr]
      exact hle.trans ((hgrows a).grows s₁)
    | error φ s₁ =>
      rw [hr] at hle
      rwa [bind_of_error hr]

theorem stamp {x y : EvalM α} (hx : CutShort quits x y) {pos : Option Position}
    (hstamp : ∀ {fault : Fault}, quits fault → quits (fault.stamp pos)) :
    CutShort quits (EvalM.stamp pos x) (EvalM.stamp pos y) := by
  intro s
  rw [stamp_eq, stamp_eq]
  obtain heq | ⟨fault, s', hfault, hquits, hle⟩ := hx s
  · exact .inl (by rw [heq])
  · refine .inr ⟨fault.stamp pos, s', by rw [hfault], hstamp hquits, ?_⟩
    cases hr : y s <;> rwa [hr] at hle

/-- What is given up at once is the beginning of anything. -/
theorem throw {fault : Fault} (hfault : quits fault) (y : EvalM α) [hy : Growing y] :
    CutShort quits (MonadExcept.throw fault) y :=
  fun s => .inr ⟨fault, s, rfl, hfault, hy.grows s⟩

theorem eq_of_not_quits {x y : EvalM α} (hx : CutShort quits x y) {s : State}
    (hs : ∀ fault s', x s = .error fault s' → ¬ quits fault) : y s = x s := by
  obtain heq | ⟨fault, s', hfault, hquits, -⟩ := hx s
  · exact heq.symm
  · exact absurd hquits (hs fault s' hfault)

theorem grows_of_error {x y : EvalM α} (hx : CutShort quits x y) {s s' : State} {fault : Fault}
    (hs : x s = .error fault s') : s'.Grows (finalState (y s)) := by
  obtain heq | ⟨fault', s'', hfault, -, hle⟩ := hx s
  · rw [← heq, hs]
    exact .refl s'
  · rw [hs] at hfault
    cases hfault
    exact hle

end EvalM.CutShort

/-! ### Evaluators -/

namespace Evaluator

variable {quits : Fault → Prop} {ev ev' : Evaluator}
  (hev : ∀ e f, CutShort quits (ev e f) (ev' e f))
include hev

theorem cutShort_condition (construct : Conditional) (test : Expr) (f : Nat) :
    CutShort quits (ev.condition construct test f) (ev'.condition construct test f) := by
  refine @CutShort.bind _ _ _ _ _ _ _ (hev test f) (fun v => .refl _) fun v => ?_
  split <;> infer_instance

theorem cutShort_statements (f : Nat) [∀ e f, Growing (ev' e f)] (e : Expr) :
    CutShort quits (ev.statements f e) (ev'.statements f e) := by
  induction e with
  | seq _ first second _ ih => exact (hev first f).bind fun _ => ih
  | _ => exact hev _ f

theorem cutShort_list (f : Nat) [∀ e f, Growing (ev' e f)] (es : List Expr) :
    CutShort quits (ev.list f es) (ev'.list f es) := by
  induction es with
  | nil => exact .refl _
  | cons e es ih => exact (hev e f).bind fun _ => ih.bind fun _ => .refl _

theorem cutShort_rounds (test body : Expr) (f : Nat) {n m : Nat} (hn : n ≤ m)
    (hquits : n < m → quits .unfinished) [∀ e f, Growing (ev' e f)] (last : Value) :
    CutShort quits (ev.rounds test body f n last) (ev'.rounds test body f m last) := by
  induction n generalizing m last with
  | zero =>
    cases m with
    | zero => exact .refl _
    | succ m => exact .throw (hquits m.succ_pos) _
  | succ n ih =>
    obtain ⟨m, rfl⟩ : ∃ k, m = k + 1 := ⟨m - 1, by omega⟩
    unfold rounds
    refine (cutShort_condition hev .loop test f).bind fun b => ?_
    cases b with
    | true => exact (hev body f).bind fun v => ih (by omega) (fun h => hquits (by omega)) v
    | false => exact .refl _

theorem cutShort_apply (c : Closure) (vs : List Value) [∀ e f, Growing (ev' e f)] :
    CutShort quits (ev.apply c vs) (ev'.apply c vs) := by
  rw [apply_eq, apply_eq]
  exact (CutShort.refl (enter c vs)).bind fun f => hev c.body f

theorem cutShort_step {limit limit' : Nat} (hlimit : limit ≤ limit')
    (hquits : limit < limit' → quits .unfinished) [∀ e f, Growing (ev' e f)] (e : Expr) (f : Nat) :
    CutShort quits (ev.step limit e f) (ev'.step limit' e f) := by
  cases e with
  | const | var | func | foreign => exact .refl _
  | print | declare | assign => exact (hev _ f).bind fun _ => .refl _
  | binary => exact (hev _ f).bind fun _ => (hev _ f).bind fun _ => .refl _
  | cond p test yes no =>
    refine (cutShort_condition hev .branch test f).bind fun b => ?_
    cases b
    · exact hev no f
    · exact hev yes f
  | loop p test body => exact cutShort_rounds hev test body f hlimit hquits .null
  | seq p first second => exact cutShort_statements hev f (.seq p first second)
  | call p callee args =>
    exact (hev callee f).bind fun v => (CutShort.refl _).bind fun c =>
      (cutShort_list hev f args).bind fun vs => cutShort_apply hev c vs

end Evaluator

/-- Lower limits cut an evaluation short at most. It quits with the fault of a limit that is in
fact lower. -/
theorem evalWithin_cutShort (quits : Fault → Prop) {rounds rounds' depth depth' : Nat}
    (hr : rounds ≤ rounds') (hrounds : rounds < rounds' → quits .unfinished)
    (hd : depth ≤ depth') (hdepth : depth < depth' → quits (.ofCause .depthExceeded))
    (hstamp : ∀ {fault : Fault} {pos}, quits fault → quits (fault.stamp pos)) (e : Expr) (f : Nat) :
    CutShort quits (evalWithin rounds depth e f) (evalWithin rounds' depth' e f) := by
  induction depth generalizing depth' e f with
  | zero =>
    cases depth' with
    | zero => exact .refl _
    | succ d => exact .throw (hdepth d.succ_pos) _
  | succ depth ih =>
    obtain ⟨d, rfl⟩ : ∃ d, depth' = d + 1 := ⟨depth' - 1, by omega⟩
    have hev (e : Expr) (f : Nat) :=
      ih (Nat.le_of_succ_le_succ hd) (fun h => hdepth (Nat.succ_lt_succ h)) e f
    exact (Evaluator.cutShort_step hev hr hrounds e f).stamp hstamp

/-! ### Endings that no limit has a part in -/

/-- A result that is not one of giving up. -/
def Finished {α : Type} (r : EStateM.Result Fault State α) : Prop :=
  ∀ fault s, r = .error fault s → fault.gaveUp = false

theorem finished_ok {α : Type} (a : α) (s : State) :
    Finished (.ok a s : EStateM.Result Fault State α) := by
  intro fault s' h
  cases h

theorem finished_error_iff {α : Type} {fault : Fault} {s : State} :
    Finished (.error fault s : EStateM.Result Fault State α) ↔ fault.gaveUp = false := by
  simp [Finished]

/-- How the evaluation of an expression ends if the limits are high enough for it to end. -/
def Expr.Ends (e : Expr) (f : Nat) (s : State) (r : EStateM.Result Fault State Value) : Prop :=
  Finished r ∧ ∃ rounds depth, evalWithin rounds depth e f s = r

namespace Expr.Ends

variable {e : Expr} {f : Nat} {s : State} {r r' : EStateM.Result Fault State Value}

/-- From some limits on, evaluation ends so under all limits. -/
theorem eventually (he : e.Ends f s r) : ∃ rounds depth, ∀ rounds' depth', rounds ≤ rounds' →
    depth ≤ depth' → evalWithin rounds' depth' e f s = r := by
  obtain ⟨hfinished, rounds, depth, rfl⟩ := he
  refine ⟨rounds, depth, fun rounds' depth' hr hd => ?_⟩
  have hcut := evalWithin_cutShort (fun fault => fault.gaveUp = true) hr (fun _ => rfl) hd
    (fun _ => by simp [Fault.ofCause, Fault.gaveUp]) (by simp) e f
  exact hcut.eq_of_not_quits fun fault s' hfault => by simp [hfinished fault s' hfault]

theorem unique (he : e.Ends f s r) (he' : e.Ends f s r') : r = r' := by
  obtain ⟨rounds, depth, h⟩ := he.eventually
  obtain ⟨rounds', depth', h'⟩ := he'.eventually
  rw [← h (max rounds rounds') (max depth depth') (by omega) (by omega),
    h' (max rounds rounds') (max depth depth') (by omega) (by omega)]

end Expr.Ends

end Scriptlet
