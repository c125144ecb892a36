import Scriptlet.Proofs.Evaluation.Limits
import Scriptlet.Proofs.Expr.Parts

/-! How rows of statements end. Where no limit is met a row ends as its statements do one after
another, and so two rows make one if the second is put behind the first. -/

namespace Scriptlet

open EvalM

/-- The first statement of a row is one level deeper, and so is the second one unless it is what is
left of the row. -/
theorem evalWithin_seq (rounds depth : Nat) (first : Expr) {second : Expr} (f : Nat)
    (hbare : second.isRow = true → second.pos = none) :
    evalWithin rounds (depth + 1) (.seq none first second) f =
      evalWithin rounds depth first f >>= fun _ =>
        evalWithin rounds (if second.isRow then depth + 1 else depth) second f := by
  change stamp none (evalWithin rounds depth first f >>= fun _ =>
    (evalWithin rounds depth).statements f second) = _
  rw [stamp_none]
  cases second with
  | seq pos a b =>
    obtain rfl : pos = none := hbare rfl
    congr 1
    funext _
    exact (stamp_none _).symm
  | _ => rfl

namespace Expr

variable {f : Nat} {s : State} {r : EStateM.Result Fault State Value}

/-- `r` is how two computations end one after the other, the first with a failure or, in a state
from which the second goes on, with a value. -/
def Then (first : EStateM.Result Fault State Value → Prop)
    (second : State → EStateM.Result Fault State Value → Prop)
    (r : EStateM.Result Fault State Value) : Prop :=
  (∃ fault s, first (.error fault s) ∧ r = .error fault s) ∨
    ∃ v s, first (.ok v s) ∧ second s r

theorem then_congr {first first' : EStateM.Result Fault State Value → Prop}
    {second second' : State → EStateM.Result Fault State Value → Prop}
    (hfirst : ∀ r, first r ↔ first' r) (hsecond : ∀ s r, second s r ↔ second' s r) :
    Then first second r ↔ Then first' second' r := by
  simp only [Then, hfirst, hsecond]

theorem then_assoc {first : EStateM.Result Fault State Value → Prop}
    {second third : State → EStateM.Result Fault State Value → Prop} :
    Then (Then first second) third r ↔ Then first (fun s => Then (second s) third) r := by
  constructor
  · rintro (⟨fault, s, ⟨_, _, hfirst, heq⟩ | ⟨v, s₁, hfirst, hsecond⟩, rfl⟩ |
      ⟨v, s, ⟨_, _, hfirst, heq⟩ | ⟨w, s₁, hfirst, hsecond⟩, hthird⟩)
    · cases heq
      exact .inl ⟨fault, s, hfirst, rfl⟩
    · exact .inr ⟨v, s₁, hfirst, .inl ⟨fault, s, hsecond, rfl⟩⟩
    · cases heq
    · exact .inr ⟨w, s₁, hfirst, .inr ⟨v, s, hsecond, hthird⟩⟩
  · rintro (⟨fault, s, hfirst, rfl⟩ | ⟨v, s₁, hfirst, ⟨fault, s, hsecond, rfl⟩ |
      ⟨w, s, hsecond, hthird⟩⟩)
    · exact .inl ⟨fault, s, .inl ⟨fault, s, hfirst, rfl⟩, rfl⟩
    · exact .inl ⟨fault, s, .inr ⟨v, s₁, hfirst, hsecond⟩, rfl⟩
    · exact .inr ⟨w, s, .inr ⟨v, s₁, hfirst, hsecond⟩, hthird⟩

/-- A row ends as its first statement and what is left of it do. -/
theorem ends_seq_iff (first : Expr) {second : Expr}
    (hbare : second.isRow = true → second.pos = none) :
    (Expr.seq none first second).Ends f s r ↔
      Then (first.Ends f s) (second.Ends f) r := by
  constructor
  · rintro ⟨hfinished, rounds, depth, rfl⟩
    cases depth with
    | zero =>
      have hgave : Fault.gaveUp (.error ⟨.depthExceeded, none⟩) = false := hfinished _ _ rfl
      simp [Fault.gaveUp] at hgave
    | succ depth =>
      rw [evalWithin_seq rounds depth first f hbare] at hfinished ⊢
      cases hr : evalWithin rounds depth first f s with
      | error fault s₁ =>
        rw [bind_of_error hr] at hfinished ⊢
        exact .inl ⟨fault, s₁, ⟨finished_error_iff.mpr (finished_error_iff.mp hfinished),
          rounds, depth, hr⟩, rfl⟩
      | ok v s₁ =>
        rw [bind_of_ok hr] at hfinished ⊢
        exact .inr ⟨v, s₁, ⟨finished_ok v s₁, rounds, depth, hr⟩, hfinished, rounds, _, rfl⟩
  · rintro (⟨fault, s₁, hfirst, rfl⟩ | ⟨v, s₁, hfirst, hsecond⟩)
    · obtain ⟨rounds, depth, h⟩ := hfirst.eventually
      refine ⟨hfirst.1, rounds, depth + 1, ?_⟩
      rw [evalWithin_seq rounds depth first f hbare,
        bind_of_error (h rounds depth (Nat.le_refl _) (Nat.le_refl _))]
    · obtain ⟨rounds, depth, h⟩ := hfirst.eventually
      obtain ⟨rounds', depth', h'⟩ := hsecond.eventually
      refine ⟨hsecond.1, max rounds rounds', max depth depth' + 1, ?_⟩
      rw [evalWithin_seq _ _ first f hbare, bind_of_ok (h _ _ (by omega) (by omega))]
      exact h' _ _ (by omega) (by split <;> omega)

theorem pos_sequence_of_isRow {first : Expr} {rest : List Expr} (hfirst : first.isRow = false)
    (hrow : (sequence first rest).isRow = true) : (sequence first rest).pos = none := by
  cases rest with
  | nil => simp [sequence, hfirst] at hrow
  | cons => rfl

/-- Statements behind others are evaluated when these are. -/
theorem ends_sequence_append {first second : Expr} {rest others : List Expr}
    (hstatements : ∀ e ∈ rest, e.isRow = false) (hsecond : second.isRow = false) :
    (sequence first (rest ++ second :: others)).Ends f s r ↔
      Then ((sequence first rest).Ends f s) ((sequence second others).Ends f) r := by
  induction rest generalizing first s r with
  | nil => exact ends_seq_iff first (pos_sequence_of_isRow hsecond)
  | cons next rest ih =>
    obtain ⟨hnext, hrest⟩ := List.forall_mem_cons.mp hstatements
    have hbare {others : List Expr} := @pos_sequence_of_isRow next others hnext
    calc (sequence first (next :: rest ++ second :: others)).Ends f s r
      _ ↔ Then (first.Ends f s) ((sequence next (rest ++ second :: others)).Ends f) r :=
        ends_seq_iff first hbare
      _ ↔ Then (first.Ends f s) (fun s' => Then ((sequence next rest).Ends f s')
            ((sequence second others).Ends f)) r := then_congr (fun _ => .rfl) fun _ _ => ih hrest
      _ ↔ Then (Then (first.Ends f s) ((sequence next rest).Ends f))
            ((sequence second others).Ends f) r := then_assoc.symm
      _ ↔ Then ((sequence first (next :: rest)).Ends f s) ((sequence second others).Ends f) r :=
        then_congr (fun _ => (ends_seq_iff first hbare).symm) fun _ _ => .rfl

end Expr

end Scriptlet
