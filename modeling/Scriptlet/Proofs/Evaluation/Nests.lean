import Scriptlet.Expr.Build
import Scriptlet.Proofs.Evaluation.Depth
import Scriptlet.Proofs.Evaluation.Rows

/-! Rows within rows. However statements are nested, they are evaluated from left to right, so the
nesting makes no difference as long as no row has a position of its own. Nested to the right they
are all on one level: a row goes one level deeper than its statements do, however many they are. -/

namespace Scriptlet

open EvalM

namespace Expr

/-- The statements of rows within rows, from left to right. -/
def leaves : Expr → List Expr
  | .seq _ a b => a.leaves ++ b.leaves
  | e => [e]

/-- None of the rows within rows has a position. -/
def bare : Expr → Bool
  | .seq p a b => p.isNone && a.bare && b.bare
  | _ => true

theorem leaves_ne_nil (e : Expr) : e.leaves ≠ [] := by
  induction e with
  | seq p a b iha ihb => simp [leaves, iha]
  | _ => simp [leaves]

theorem isRow_of_mem_leaves {e leaf : Expr} (h : leaf ∈ e.leaves) : leaf.isRow = false := by
  induction e with
  | seq p a b iha ihb => exact (List.mem_append.mp h).elim iha ihb
  | _ =>
    obtain rfl := List.mem_singleton.mp h
    rfl

theorem pos_of_bare {e : Expr} (h : e.bare = true) (hrow : e.isRow = true) : e.pos = none := by
  cases e with
  | seq p a b => simp_all [bare, pos]
  | _ => cases hrow

/-- Rows within rows end as their statements do, nested to the right. -/
theorem ends_iff_sequence {e : Expr} (hbare : e.bare = true) {first : Expr} {rest : List Expr}
    (hleaves : e.leaves = first :: rest) {f : Nat} {s : State}
    {r : EStateM.Result Fault State Value} :
    e.Ends f s r ↔ (sequence first rest).Ends f s r := by
  induction e generalizing first rest s r with
  | seq p a b iha ihb =>
    obtain ⟨⟨rfl, ha⟩, hb⟩ : (p = none ∧ a.bare = true) ∧ b.bare = true := by
      simpa [bare] using hbare
    obtain ⟨first₁, rest₁, hl₁⟩ := List.exists_cons_of_ne_nil a.leaves_ne_nil
    obtain ⟨first₂, rest₂, hl₂⟩ := List.exists_cons_of_ne_nil b.leaves_ne_nil
    have hrest₁ : ∀ leaf ∈ rest₁, leaf.isRow = false := fun leaf hleaf =>
      isRow_of_mem_leaves (e := a) (by simp [hl₁, hleaf])
    have hfirst₂ : first₂.isRow = false := isRow_of_mem_leaves (e := b) (by simp [hl₂])
    rw [leaves, hl₁, hl₂] at hleaves
    obtain ⟨rfl, rfl⟩ := List.cons.inj hleaves
    calc (Expr.seq none a b).Ends f s r
      _ ↔ Then (a.Ends f s) (b.Ends f) r := ends_seq_iff a (pos_of_bare hb)
      _ ↔ Then ((sequence first₁ rest₁).Ends f s) ((sequence first₂ rest₂).Ends f) r :=
        then_congr (fun _ => iha ha hl₁) fun _ _ => ihb hb hl₂
      _ ↔ (sequence first₁ (rest₁ ++ first₂ :: rest₂)).Ends f s r :=
        (ends_sequence_append hrest₁ hfirst₂).symm
  | _ =>
    cases hleaves
    rfl

end Expr

/-! ### How deep rows are -/

section

variable {rounds depth : Nat} {e : Expr} {f : Nat} {s t : State} {v : Value}

theorem evalWithin_succ_of_ok (h : evalWithin rounds depth e f s = .ok v t) :
    evalWithin rounds (depth + 1) e f s = .ok v t := by
  have hcut := evalWithin_cutShort_depth (Nat.le_succ depth) rounds e f
  exact (hcut.eq_of_not_quits (by simp [h])).trans h

/-- What an expression gives in a row it gives one level deeper by itself. -/
theorem evalWithin_of_statements (h : (evalWithin rounds depth).statements f e s = .ok v t) :
    evalWithin rounds (depth + 1) e f s = .ok v t := by
  cases e with
  | seq p a b => exact stamp_eq_ok_iff.mpr h
  | _ => exact evalWithin_succ_of_ok h

theorem statements_of_evalWithin (h : evalWithin rounds depth e f s = .ok v t) :
    (evalWithin rounds depth).statements f e s = .ok v t := by
  cases e with
  | seq p a b =>
    cases depth with
    | zero => cases h
    | succ depth =>
      have hrow : (evalWithin rounds depth).statements f (.seq p a b) s = .ok v t :=
        stamp_eq_ok_iff.mp h
      have hcut := Evaluator.cutShort_statements
        (evalWithin_cutShort_depth (Nat.le_succ depth) rounds) f (.seq p a b)
      exact (hcut.eq_of_not_quits (by simp [hrow])).trans hrow
  | _ => exact h

end

namespace Expr

/-- Expressions one after another, each of which ends with a value within `depth` levels where those
before it left off. The value is that of the last one. -/
inductive GiveInTurn (depth f : Nat) : List Expr → State → Value → State → Prop where
  | last {e s v t} (he : e.EndsWithin depth f s (.ok v t)) : GiveInTurn depth f [e] s v t
  | next {e es s w s' v t} (he : e.EndsWithin depth f s (.ok w s'))
      (hes : GiveInTurn depth f es s' v t) : GiveInTurn depth f (e :: es) s v t

theorem GiveInTurn.statements {depth f : Nat} {es : List Expr} {s t : State} {v : Value}
    (h : GiveInTurn depth f es s v t) :
    ∃ first rest, es = first :: rest ∧ ∃ rounds, ∀ rounds', rounds ≤ rounds' →
      (evalWithin rounds' depth).statements f (sequence first rest) s = .ok v t := by
  induction h with
  | @last e s v t he =>
    obtain ⟨rounds, hrun⟩ := he.eventually
    exact ⟨e, [], rfl, rounds, fun rounds' hle => statements_of_evalWithin (hrun rounds' hle)⟩
  | @next e es s w s' v t he hes ih =>
    obtain ⟨second, rest, rfl, rounds, hrun⟩ := ih
    obtain ⟨rounds₀, hrun₀⟩ := he.eventually
    refine ⟨e, second :: rest, rfl, max rounds₀ rounds, fun rounds' hle => ?_⟩
    have hfirst := hrun₀ rounds' (Nat.le_trans (Nat.le_max_left ..) hle)
    exact (bind_of_ok hfirst).trans (hrun rounds' (Nat.le_trans (Nat.le_max_right ..) hle))

end Expr

/-- Two expressions that nest the same statements in rows without positions end alike in any frame
and state where no limit is met: with the same value, or the same error at the same place, with the
same lines printed and the same frames. If statements in turn give values within `depth` levels,
nested to the right they give the value of the last one, and nothing else, within one level more. -/
theorem rows_regrouped :
    (∀ a b : Expr, a.bare = true → b.bare = true → a.leaves = b.leaves →
      ∀ f s r, a.Ends f s r ↔ b.Ends f s r) ∧
    ∀ depth f es s v t, Expr.GiveInTurn depth f es s v t →
      ∃ e, Expr.ofStatements es = .ok e ∧ ∀ r, e.EndsWithin (depth + 1) f s r ↔ r = .ok v t := by
  refine ⟨fun a b ha hb hleaves f s r => ?_, fun depth f es s v t h => ?_⟩
  · obtain ⟨first, rest, hl⟩ := List.exists_cons_of_ne_nil b.leaves_ne_nil
    rw [Expr.ends_iff_sequence ha (hleaves.trans hl), Expr.ends_iff_sequence hb hl]
  · obtain ⟨first, rest, rfl, rounds, hrun⟩ := h.statements
    have hends : (Expr.sequence first rest).EndsWithin (depth + 1) f s (.ok v t) :=
      ⟨by simp, rounds, evalWithin_of_statements (hrun rounds (Nat.le_refl _))⟩
    refine ⟨_, rfl, fun r => ⟨fun hr => ?_, ?_⟩⟩
    · obtain ⟨rounds', hr, hv⟩ := hr.common hends
      rw [← hr, hv]
    · rintro rfl
      exact hends

/-- Behind a declaration a division fails at its position, be it nested with what is before it or
with what is behind it. Without the division the three levels of the declaration are four in a
row. -/
theorem division_fails_in_any_nest :
    let declaration : Expr := .declare none "x" (.print none (.const none .null))
    let division : Expr :=
      .binary (some ⟨2, 5⟩) .div (.const none (.number 1)) (.const none (.number 0))
    let last : Expr := .print none (.const none (.bool true))
    let left : Expr := .seq none (.seq none declaration division) last
    let right : Expr := .seq none declaration (.seq none division last)
    let frames : Array Frame := #[⟨none, true, [("x", .null)]⟩]
    let s : State := ⟨⟨frames, #[]⟩, #["null"], #[]⟩
    let t : State := ⟨⟨frames, #[]⟩, #["null", "true"], #[]⟩
    let r : EStateM.Result Fault State Value :=
      .error (.error ⟨.divisionByZero, some (.ofPosition ⟨2, 5⟩)⟩) s
    left.bare = true ∧ right.bare = true ∧ left.leaves = right.leaves ∧
      left.Ends 0 (.fresh true) r ∧ right.Ends 0 (.fresh true) r ∧
      Expr.GiveInTurn 3 0 [declaration, last] (.fresh true) (.bool true) t ∧
      ∃ e, Expr.ofStatements [declaration, last] = .ok e ∧
        e.EndsWithin 4 0 (.fresh true) (.ok (.bool true) t) := by
  intro declaration division last left right frames s t r
  have hleft : left.Ends 0 (.fresh true) r :=
    ⟨finished_error_iff.mpr rfl, 0, 5, by with_unfolding_all rfl⟩
  have hfirst : declaration.EndsWithin 3 0 (.fresh true) (.ok .null s) :=
    ⟨by simp, 0, by with_unfolding_all rfl⟩
  have hlast : last.EndsWithin 3 0 s (.ok (.bool true) t) :=
    ⟨by simp, 0, by with_unfolding_all rfl⟩
  have hturn := Expr.GiveInTurn.next hfirst (.last hlast)
  obtain ⟨e, he, hends⟩ := rows_regrouped.2 3 0 _ _ _ _ hturn
  exact ⟨rfl, rfl, rfl, hleft, (rows_regrouped.1 left right rfl rfl rfl 0 _ r).mp hleft, hturn,
    e, he, (hends _).mpr rfl⟩

end Scriptlet
