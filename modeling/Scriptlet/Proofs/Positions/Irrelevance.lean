import Scriptlet.Proofs.Positions.Erasure
import Scriptlet.Proofs.Strictness.Override

/-! Positions have no influence. Expressions that are equal up to positions are evaluated in the
same way, also where closures are around whose code is equal up to positions only. What comes out
differs in positions at most: those in the code of closures, and the place of an error. -/

namespace Scriptlet

open EvalM

/-! ### What differs in positions only -/

/-- Closures that differ in the positions of their code at most. -/
structure Closure.Alike (c d : Closure) : Prop where
  params : c.params = d.params
  body : c.body.alike d.body = true
  frame : c.frame = d.frame

/-- States that differ in positions at most. They have the same frames with the same variables, and
closures with the same numbers are alike. -/
structure State.Alike (s t : State) : Prop where
  frames : s.heap.frames = t.heap.frames
  closures (id : Nat) : Option.Rel Closure.Alike s.heap.closures[id]? t.heap.closures[id]?
  printed : s.printed = t.printed
  notices : s.notices = t.notices

/-- Endings that differ in positions at most: one value, or faults that are the same without their
places. -/
inductive ResultsAlike :
    EStateM.Result Fault State Value → EStateM.Result Fault State Value → Prop where
  | value {s t} (v : Value) (hs : s.Alike t) : ResultsAlike (.ok v s) (.ok v t)
  | fault {φ ψ s t} (hfault : φ.unplaced = ψ.unplaced) (hs : s.Alike t) :
      ResultsAlike (.error φ s) (.error ψ t)

/-! ### The same without positions -/

theorem Closure.alike_iff {c d : Closure} :
    c.Alike d ↔ c.relocate .drop = d.relocate .drop := by
  obtain ⟨params, body, frame⟩ := c
  obtain ⟨params', body', frame'⟩ := d
  simp only [Closure.relocate, Closure.mk.injEq]
  constructor
  · rintro ⟨hp, hb, hf⟩
    exact ⟨hp, Expr.alike_iff.mp hb, hf⟩
  · rintro ⟨hp, hb, hf⟩
    exact ⟨hp, Expr.alike_iff.mpr hb, hf⟩

theorem Closure.rel_alike_iff {c? d? : Option Closure} :
    Option.Rel Closure.Alike c? d? ↔ c?.map (relocate .drop) = d?.map (relocate .drop) := by
  cases c? <;> cases d? <;> simp [Closure.alike_iff]

theorem State.alike_iff {s t : State} : s.Alike t ↔ s.relocate .drop = t.relocate .drop := by
  obtain ⟨⟨frames, closures⟩, printed, notices⟩ := s
  obtain ⟨⟨frames', closures'⟩, printed', notices'⟩ := t
  have hclosures : closures.map (Closure.relocate .drop) = closures'.map (Closure.relocate .drop) ↔
      ∀ id : Nat, Option.Rel Closure.Alike closures[id]? closures'[id]? := by
    simp only [Closure.rel_alike_iff, ← Array.getElem?_map]
    exact ⟨fun h id => by rw [h], Array.ext_getElem?⟩
  simp only [State.relocate, Heap.relocate, State.mk.injEq, Heap.mk.injEq, hclosures]
  constructor
  · intro h
    exact ⟨⟨h.frames, h.closures⟩, h.printed, h.notices⟩
  · rintro ⟨⟨hf, hc⟩, hp, hn⟩
    exact ⟨hf, hc, hp, hn⟩

theorem State.Alike.refl (s : State) : s.Alike s := State.alike_iff.mpr rfl

theorem Fault.unplaced_relocate (g : Relocation) (fault : Fault) :
    (fault.relocate g).unplaced = fault.unplaced := by
  cases fault <;> rfl

theorem ResultsAlike.of_relocate {x y : EStateM.Result Fault State Value}
    (h : relocateResult .drop x = relocateResult .drop y) : ResultsAlike x y := by
  cases x <;> cases y <;> simp only [relocateResult, EStateM.Result.ok.injEq, reduceCtorEq,
    EStateM.Result.error.injEq] at h
  case ok.ok v s w t =>
    obtain ⟨rfl, hs⟩ := h
    exact .value v (State.alike_iff.mpr hs)
  case error.error φ s ψ t =>
    obtain ⟨hfault, hs⟩ := h
    refine .fault ?_ (State.alike_iff.mpr hs)
    rw [← φ.unplaced_relocate .drop, hfault, ψ.unplaced_relocate]

/-! ### Calls -/

section

variable (g : Relocation) (limits : Limits) (strict : Option Bool) (e : Expr) (s : State)

theorem State.override_relocate (f : Nat) :
    (s.relocate g).override f strict = (s.override f strict).relocate g := by
  cases strict <;> rfl

theorem Limits.evalIn_relocate (f : Nat) :
    limits.evalIn f strict (e.relocate g) (s.relocate g) =
      relocateResult g (limits.evalIn f strict e s) := by
  have hrun : limits.eval (e.relocate g) f ((s.override f strict).relocate g) =
      relocateResult g (limits.eval e f (s.override f strict)) := evalWithin_relocate ..
  rw [evalIn, evalIn, withStrict_eq, withStrict_eq, s.override_relocate, hrun]
  cases limits.eval e f (s.override f strict) with
  | ok v s' => exact congrArg (EStateM.Result.ok v) (State.override_relocate ..)
  | error φ s' => exact congrArg (EStateM.Result.error _) (State.override_relocate ..)

theorem Limits.evalFresh_relocate (strict : Bool) :
    limits.evalFresh strict (e.relocate g) (s.relocate g) =
      relocateResult g (limits.evalFresh strict e s) := by
  rw [limits.evalFresh_apply, limits.evalFresh_apply]
  exact evalWithin_relocate g limits.rounds limits.depth e s.heap.frames.size
    { s with heap := s.heap.pushFrame none (some strict) }

end

/-- Expressions that are equal up to positions, in states that differ in positions at most: in every
frame, be it made strict or lax for the call or left as it is, and in a new environment, they give
the same value or fail with the same cause. They print the same and leave frames with the same
variables, and closures that are alike. -/
theorem eval_alike (limits : Limits) {a b : Expr} (hab : a.alike b = true) {s t : State}
    (hst : s.Alike t) :
    (∀ f strict, ResultsAlike (limits.evalIn f strict a s) (limits.evalIn f strict b t)) ∧
      ∀ strict, ResultsAlike (limits.evalFresh strict a s) (limits.evalFresh strict b t) := by
  have hcode : a.relocate .drop = b.relocate .drop := Expr.alike_iff.mp hab
  have hstate := State.alike_iff.mp hst
  refine ⟨fun f strict => .of_relocate ?_, fun strict => .of_relocate ?_⟩
  · rw [← limits.evalIn_relocate, ← limits.evalIn_relocate, hcode, hstate]
  · rw [← limits.evalFresh_relocate, ← limits.evalFresh_relocate, hcode, hstate]

/-- A function that prints null and then divides by its argument, once with positions and once
without. The call fails after the line was printed, and is placed only where there is a position. In
a new environment there is no such function, with positions or without. -/
theorem division_alike_without_position :
    let body (p : Option Position) : Expr := .seq none (.print p (.const p .null))
      (.binary p .div (.const p (.number 1)) (.var p "x"))
    let s (p : Option Position) : State :=
      ⟨⟨#[⟨none, true, [("f", .closure 0)]⟩], #[⟨["x"], body p, 0⟩]⟩, #[], #[]⟩
    let e (p : Option Position) : Expr := .call p (.var p "f") [.const p (.number 0)]
    let limits : Limits := ⟨4, 0⟩
    let run (p : Option Position) := limits.evalIn 0 (some false) (e p) (s p)
    let here : Position := ⟨2, 5⟩
    (e (some here)).alike (e none) = true ∧ (s (some here)).Alike (s none) ∧
      ResultsAlike (run (some here)) (run none) ∧
      (∃ s', run (some here) = .error (.error ⟨.divisionByZero, some (.ofPosition here)⟩) s') ∧
      (∃ s', run none = .error (.error ⟨.divisionByZero, none⟩) s') ∧
      (finalState (run none)).printed = #["null"] ∧
      ResultsAlike (limits.evalFresh true (e (some here)) .empty)
        (limits.evalFresh true (e none) .empty) := by
  intro body s e limits run here
  have he : (e (some here)).alike (e none) = true := by decide +kernel
  have hs : (s (some here)).Alike (s none) := State.alike_iff.mpr (by with_unfolding_all rfl)
  exact ⟨he, hs, (eval_alike limits he hs).1 0 (some false), ⟨_, by with_unfolding_all rfl⟩,
    ⟨_, by with_unfolding_all rfl⟩, by decide +kernel, (eval_alike limits he (.refl .empty)).2 true⟩

end Scriptlet
