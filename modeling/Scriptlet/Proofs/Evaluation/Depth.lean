import Scriptlet.Proofs.Evaluation.Failure
import Scriptlet.Proofs.Evaluation.Limits

/-! How deep evaluations may nest, with no limit to how often loops go round. Main statement: to
allow more changes nothing about an evaluation that ends within what was allowed, and one that does
not has come to a point that it passes through when more is allowed. -/

namespace Scriptlet

open EvalM

theorem Cause.eq_depthExceeded_of_kind {cause : Cause} (hk : cause.kind = .recursionDepth) :
    cause = .depthExceeded := by
  cases cause with
  | depthExceeded => rfl
  | _ => cases hk

/-- To nest too deep is the fault of no expression, so the error stays without a place. -/
theorem Activation.eq_depthExceeded {a : Activation} {rounds depth : Nat} {fault : Fault}
    {s : State} (hr : a.result rounds depth = .error fault s)
    (hk : fault.kind? = some .recursionDepth) : fault = .ofCause .depthExceeded := by
  induction depth generalizing a fault with
  | zero =>
    cases hr
    rfl
  | succ depth ih =>
    obtain ⟨φ, hstep, rfl⟩ := Activation.result_error_iff.mp hr
    rw [Fault.kind?_stamp] at hk
    rcases Evaluator.step_error_iff.mp hstep with hraise | ⟨b, -, hfails⟩
    · -- an evaluation that fails by itself does not do so because of its depth
      cases φ with
      | error err =>
        rw [← hraise.unplaced] at hraise
        have hkind : err.cause.kind = .recursionDepth := Option.some.inj hk
        exact absurd (Cause.eq_depthExceeded_of_kind hkind) hraise.ne_depthExceeded
      | _ => cases hk
    · rw [ih hfails hk]
      rfl

namespace Expr

/-- How an evaluation ends that may nest `depth` levels deep and go round its loops as often as it
takes. -/
def EndsWithin (depth : Nat) (e : Expr) (f : Nat) (s : State)
    (r : EStateM.Result Fault State Value) : Prop :=
  (∀ s', r ≠ .error .unfinished s') ∧ ∃ rounds, evalWithin rounds depth e f s = r

namespace EndsWithin

variable {depth depth' : Nat} {e : Expr} {f : Nat} {s : State}
  {r r' : EStateM.Result Fault State Value}

/-- How often loops may go round makes no difference once that is often enough. -/
theorem eventually (hr : e.EndsWithin depth f s r) :
    ∃ rounds, ∀ rounds', rounds ≤ rounds' → evalWithin rounds' depth e f s = r := by
  obtain ⟨hfinished, rounds, rfl⟩ := hr
  refine ⟨rounds, fun rounds' hle => ?_⟩
  have hcut := evalWithin_cutShort (· = .unfinished) hle (fun _ => rfl) (Nat.le_refl depth)
    (fun h => absurd h (Nat.lt_irrefl depth)) (by rintro _ pos rfl; rfl) e f
  refine hcut.eq_of_not_quits ?_
  rintro fault s' hs rfl
  exact hfinished s' hs

/-- Two endings, of which one may have been allowed more depth, with one limit for all loops. -/
theorem common (hr : e.EndsWithin depth f s r) (hr' : e.EndsWithin depth' f s r') :
    ∃ rounds, evalWithin rounds depth e f s = r ∧ evalWithin rounds depth' e f s = r' := by
  obtain ⟨n, hn⟩ := hr.eventually
  obtain ⟨n', hn'⟩ := hr'.eventually
  exact ⟨max n n', hn _ (Nat.le_max_left ..), hn' _ (Nat.le_max_right ..)⟩

end EndsWithin

end Expr

/-- More depth cuts nothing short, and less depth does so with the one fault that says so. -/
theorem evalWithin_cutShort_depth {depth depth' : Nat} (hd : depth ≤ depth') (rounds : Nat)
    (e : Expr) (f : Nat) :
    CutShort (fun fault => fault.kind? = some .recursionDepth) (evalWithin rounds depth e f)
      (evalWithin rounds depth' e f) :=
  evalWithin_cutShort (fun fault => fault.kind? = some .recursionDepth) (Nat.le_refl rounds)
    (fun h => absurd h (Nat.lt_irrefl rounds)) hd (fun _ => rfl) (by simp) e f

/-- Evaluation that may nest `depth` levels deep, and evaluation that may nest deeper. If the first
ends with a value or with a fault other than that of nesting too deep, the second ends in the same
way and no other: with the same value or error, the same lines printed, the same frames. If the
first nests too deep, which is an error without a place, then wherever the second ends, it has
printed what the first one did and maybe more, and each frame binds the names that it had then. -/
theorem endsWithin_deeper {depth depth' : Nat} (hd : depth ≤ depth') (e : Expr) (f : Nat)
    (s : State) :
    (∀ r, e.EndsWithin depth f s r →
      (∀ fault s', r = .error fault s' → fault.kind? ≠ some .recursionDepth) →
      ∀ r', e.EndsWithin depth' f s r' ↔ r' = r) ∧
    ∀ fault s', e.EndsWithin depth f s (.error fault s') →
      fault.kind? = some .recursionDepth →
      fault = .ofCause .depthExceeded ∧ ∀ r', e.EndsWithin depth' f s r' →
        s'.printed.toList <+: (finalState r').printed.toList ∧
        ∀ g x, s'.heap.binds g x = true → (finalState r').heap.binds g x = true := by
  refine ⟨fun r hr hkind r' => ⟨fun hr' => ?_, ?_⟩, fun fault s' hr hkind => ⟨?_, fun r' hr' => ?_⟩⟩
  · obtain ⟨rounds, rfl, rfl⟩ := hr.common hr'
    exact (evalWithin_cutShort_depth hd rounds e f).eq_of_not_quits hkind
  · rintro rfl
    obtain ⟨hfinished, rounds, rfl⟩ := hr
    exact ⟨hfinished, rounds, (evalWithin_cutShort_depth hd rounds e f).eq_of_not_quits hkind⟩
  · obtain ⟨-, rounds, hrun⟩ := hr
    exact Activation.eq_depthExceeded (a := ⟨e, f, s⟩) hrun hkind
  · obtain ⟨rounds, hrun, rfl⟩ := hr.common hr'
    have hgrows := (evalWithin_cutShort_depth hd rounds e f).grows_of_error hrun
    exact ⟨hgrows.printed, fun g x => hgrows.heap.binds⟩

/-- A function is called behind a declaration. Four levels are too few for its body, but the
declaration is made and its line printed; five are enough, and so are six. -/
theorem call_given_up_at_four_levels :
    let e : Expr := .seq none (.declare none "x" (.print none (.const none .null)))
      (.call none (.func none [] (.print none (.print none (.const none (.bool true))))) [])
    ∃ s₁ s₂, e.EndsWithin 4 0 (.fresh true) (.error (.ofCause .depthExceeded) s₁) ∧
      e.EndsWithin 5 0 (.fresh true) (.ok (.bool true) s₂) ∧
      s₁.heap.binds 0 "x" = true ∧ s₂.heap.binds 0 "x" = true ∧
      s₁.printed.toList <+: s₂.printed.toList ∧
      ∀ r, e.EndsWithin 6 0 (.fresh true) r ↔ r = .ok (.bool true) s₂ := by
  intro e
  have h₄ : ∃ s₁, evalWithin 0 4 e 0 (.fresh true) = .error (.ofCause .depthExceeded) s₁ ∧
      s₁.heap.binds 0 "x" = true := ⟨_, by with_unfolding_all rfl, by decide +kernel⟩
  have h₅ : ∃ s₂, evalWithin 0 5 e 0 (.fresh true) = .ok (.bool true) s₂ :=
    ⟨_, by with_unfolding_all rfl⟩
  obtain ⟨s₁, hrun₁, hx⟩ := h₄
  obtain ⟨s₂, hrun₂⟩ := h₅
  have hends₁ : e.EndsWithin 4 0 (.fresh true) (.error (.ofCause .depthExceeded) s₁) :=
    ⟨by simp [Fault.ofCause], 0, hrun₁⟩
  have hends₂ : e.EndsWithin 5 0 (.fresh true) (.ok (.bool true) s₂) :=
    ⟨by simp, 0, hrun₂⟩
  obtain ⟨-, hlater⟩ := (endsWithin_deeper (Nat.le_succ 4) e 0 _).2 _ _ hends₁ rfl
  obtain ⟨hprinted, hbinds⟩ := hlater _ hends₂
  exact ⟨s₁, s₂, hends₁, hends₂, hx, hbinds 0 "x" hx, hprinted,
    (endsWithin_deeper (Nat.le_succ 5) e 0 _).1 _ hends₂ (by simp)⟩

end Scriptlet
