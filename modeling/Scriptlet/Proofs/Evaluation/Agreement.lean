import Scriptlet.Proofs.Evaluation.Complete

/-! The evaluator computes exactly what the rules derive, and the rules derive at most one
ending. Limits only decide whether an evaluation is given up, never how it ends. -/

namespace Scriptlet

/-- How an evaluation ended, places aside: what it gave, the heap, and all lines printed. -/
structure Ending where
  outcome : Outcome
  heap : Heap
  printed : List String

/-- The ending that a result shows, unless evaluation was given up. -/
def ending? : EStateM.Result Fault State Value → Option Ending
  | .ok v s => some ⟨.value v, s.heap, s.printed.toList⟩
  | .error fault s =>
    if fault.gaveUp then none else some ⟨.failure fault.unplaced, s.heap, s.printed.toList⟩

theorem Accounts.of_ending? {s : State} {P : Outcome → Heap → List String → Prop}
    {r : EStateM.Result Fault State Value} {ending : Ending} (hr : Accounts s P .value r)
    (he : ending? r = some ending) :
    ∃ lines, ending.printed = s.printed.toList ++ lines ∧ P ending.outcome ending.heap lines := by
  cases r with
  | ok v s' =>
    cases he
    exact hr.2
  | error fault s' =>
    cases hg : fault.gaveUp with
    | true => simp [ending?, hg] at he
    | false =>
      simp only [ending?, hg, Bool.false_eq_true, if_false, Option.some.injEq] at he
      subst he
      exact hr hg

theorem Ends.ending? {x : EvalM Value} {h h' : Heap} {o : Outcome} {lines : List String}
    (hx : Ends x h o h' lines) (s : State) (hs : s.heap = h) :
    Scriptlet.ending? (x s) = some ⟨o, h', s.printed.toList ++ lines⟩ := by
  cases o with
  | value v =>
    obtain ⟨notices, hr⟩ := hx s hs
    simp [Scriptlet.ending?, hr]
  | values vs => exact hx.elim
  | failure why =>
    obtain ⟨fault, notices, hr, hg, hu⟩ := hx s hs
    simp [Scriptlet.ending?, hr, hg, hu]

theorem Evaluates.ending? {e : Expr} {f : Nat} {s : State} {o : Outcome} {h' : Heap}
    {lines : List String} (d : Evaluates (.expr e) f s.heap o h' lines) (hf : s.heap.Holds f) :
    ∃ n, ∀ limits : Limits, n ≤ limits.depth → n ≤ limits.rounds →
      Scriptlet.ending? (limits.eval e f s) = some ⟨o, h', s.printed.toList ++ lines⟩ := by
  obtain ⟨n, hn⟩ := d.done hf
  refine ⟨n, fun limits hd hr => ?_⟩
  exact Ends.ending? (hn limits.rounds limits.depth n hr hd (Nat.le_refl n)) s rfl

/-- In any frame of any ordered heap: an evaluation that some limits let finish ends as the rules
say; what the rules say is how it ends under all limits from some size on; and the rules say one
thing only. -/
theorem eval_iff_evaluates (e : Expr) (f : Nat) (s : State) (hf : s.heap.Holds f) :
    (∀ ending : Ending, (∃ limits : Limits, ending? (limits.eval e f s) = some ending) ↔
      ∃ lines, ending.printed = s.printed.toList ++ lines ∧
        Evaluates (.expr e) f s.heap ending.outcome ending.heap lines) ∧
    (∀ o h' lines, Evaluates (.expr e) f s.heap o h' lines →
      ∃ n, ∀ limits : Limits, n ≤ limits.depth → n ≤ limits.rounds →
        ending? (limits.eval e f s) = some ⟨o, h', s.printed.toList ++ lines⟩) ∧
    ∀ o₁ h₁ l₁ o₂ h₂ l₂, Evaluates (.expr e) f s.heap o₁ h₁ l₁ →
      Evaluates (.expr e) f s.heap o₂ h₂ l₂ → o₁ = o₂ ∧ h₁ = h₂ ∧ l₁ = l₂ := by
  refine ⟨fun ending => ⟨?_, ?_⟩, fun o h' lines d => d.ending? hf, ?_⟩
  · rintro ⟨limits, he⟩
    exact (evalWithin_sound limits.rounds limits.depth e f s hf).of_ending? he
  · obtain ⟨o, h', printed⟩ := ending
    rintro ⟨lines, rfl, d⟩
    obtain ⟨n, hn⟩ := d.ending? hf
    exact ⟨⟨n, n⟩, hn ⟨n, n⟩ (Nat.le_refl n) (Nat.le_refl n)⟩
  · intro o₁ h₁ l₁ o₂ h₂ l₂ d₁ d₂
    obtain ⟨n₁, hn₁⟩ := d₁.ending? hf
    obtain ⟨n₂, hn₂⟩ := d₂.ending? hf
    -- both derivations speak of the run under the larger of their limits
    have he := hn₁ ⟨max n₁ n₂, max n₁ n₂⟩ (Nat.le_max_left ..) (Nat.le_max_left ..)
    rw [hn₂ _ (Nat.le_max_right ..) (Nat.le_max_right ..)] at he
    simpa [eq_comm] using he

/-- A function that is called where it stands assigns to a name that no frame binds, here after a
line was printed: five levels of evaluation compute what the rules derive. -/
theorem evaluates_call_assigning_global :
    let body : Expr :=
      .assign none "y" (.binary none .add (.var none "x") (.const none (.number 1)))
    let e : Expr := .call none (.func none ["x"] body) [.const none (.number 1)]
    let s : State := ⟨⟨#[⟨none, true, []⟩], #[]⟩, #["0"], #[]⟩
    let h' : Heap := ⟨#[⟨none, true, [("y", .number 2)]⟩, ⟨some 0, true, [("x", .number 1)]⟩],
      #[⟨["x"], body, 0⟩]⟩
    s.heap.Holds 0 ∧ Evaluates (.expr e) 0 s.heap (.value (.number 2)) h' [] := by
  intro body e s h'
  have hf : s.heap.Holds 0 := by
    refine ⟨⟨fun {f p} hp => ?_, fun hc => by simp [s] at hc⟩, by decide⟩
    cases f <;> simp [Heap.parent?, s] at hp
  have hrun : ending? ((⟨5, 1⟩ : Limits).eval e 0 s) = some ⟨.value (.number 2), h', ["0"]⟩ := by
    with_unfolding_all rfl
  obtain ⟨lines, hl, d⟩ := ((eval_iff_evaluates e 0 s hf).1 _).mp ⟨_, hrun⟩
  cases List.self_eq_append_right.mp hl
  exact ⟨hf, d⟩

end Scriptlet
