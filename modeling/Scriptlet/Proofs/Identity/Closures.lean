import Scriptlet.Proofs.Heap.Binding
import Scriptlet.Proofs.Identity.Histories

/-! The identity of closures. A closure is known by its number, and a number that was given once is
never given again; what the number stands for never changes. Main statement: equality tells closures
apart by the evaluations that made them, in any state that environments can come to. -/

namespace Scriptlet

open EvalM Evaluator

/-! ### Equality -/

namespace Heap

/-- The operator finds the values equal. -/
def Same (h : Heap) (v w : Value) : Prop := Operator.eq.apply h v w = .ok (.bool true)

/-- The operator finds the values different. -/
def Differ (h : Heap) (v w : Value) : Prop := Operator.eq.apply h v w = .ok (.bool false)

theorem same_iff {h : Heap} {v w : Value} : h.Same v w ↔ v = w := by
  simp [Same, Operator.apply]

theorem differ_iff {h : Heap} {v w : Value} : h.Differ v w ↔ v ≠ w := by
  simp [Differ, Operator.apply]

theorem same_equivalence (h : Heap) : Equivalence h.Same where
  refl _ := same_iff.mpr rfl
  symm hvw := same_iff.mpr (same_iff.mp hvw).symm
  trans hvw hwu := same_iff.mpr ((same_iff.mp hvw).trans (same_iff.mp hwu))

theorem same_or_differ (h : Heap) (v w : Value) : h.Same v w ∨ h.Differ v w := by
  rw [same_iff, differ_iff]
  exact Decidable.em (v = w)

end Heap

/-! ### Where a value goes -/

section Steps

variable {rounds depth : Nat} {e : Expr} {f : Nat} {s s₁ : State} {v : Value}
  (hv : evalWithin rounds depth e f s = .ok v s₁) (pos : Option Position)
include hv

/-- A value is given, something is done with it, and it is given on. -/
theorem stamp_of_then {k : Value → EvalM Unit} {t : State} (ht : k v s₁ = .ok () t) :
    stamp pos (evalWithin rounds depth e f >>= fun v => k v >>= fun _ => pure v) s = .ok v t := by
  rw [stamp_eq, bind_of_ok hv, bind_of_ok ht]
  rfl

theorem evalWithin_declare {x : String} (hb : s₁.heap.binds f x = false) :
    ∃ t, evalWithin rounds (depth + 1) (.declare pos x e) f s = .ok v t ∧
      t.heap = s₁.heap.put f x v := by
  obtain ⟨t, ht, hheap⟩ : ∃ t, EvalM.declare f x v s₁ = .ok () t ∧
      t.heap = s₁.heap.put f x v := by
    rw [declare_eq, if_neg (by simp [hb])]
    exact ⟨_, rfl, rfl⟩
  exact ⟨t, stamp_of_then hv pos ht, hheap⟩

theorem evalWithin_assign (x : String) :
    ∃ t, evalWithin rounds (depth + 1) (.assign pos x e) f s = .ok v t ∧
      t.heap = s₁.heap.assign f x v :=
  ⟨_, stamp_of_then hv pos (assign_eq f x v s₁), rfl⟩

theorem evalWithin_print (hw : v.writable = true) :
    ∃ t, evalWithin rounds (depth + 1) (.print pos e) f s = .ok v t ∧ t.heap = s₁.heap := by
  obtain ⟨t, ht, hheap⟩ : ∃ t, EvalM.print v s₁ = .ok () t ∧ t.heap = s₁.heap := by
    rw [print_eq, if_pos hw]
    exact ⟨_, rfl, rfl⟩
  exact ⟨t, stamp_of_then hv pos ht, hheap⟩

end Steps

theorem evalWithin_var {rounds depth : Nat} {pos : Option Position} {x : String} {f : Nat}
    {s : State} {v : Value} (hx : s.heap.resolve? f x = some v) :
    evalWithin rounds (depth + 1) (.var pos x) f s = .ok v s := by
  change stamp pos (EvalM.read f x) s = _
  rw [stamp_eq, read_eq, hx]

theorem evalWithin_call {rounds depth : Nat} {pos : Option Position} {callee : Expr}
    {args : List Expr} {f g : Nat} {s s₁ s₂ t : State} {c : Closure} {vs : List Value} {v : Value}
    (ha : (evalWithin rounds depth).Applies ⟨.call pos callee args, f, s⟩ c vs s₁)
    (he : enter c vs s₁ = .ok g s₂) (hv : evalWithin rounds depth c.body g s₂ = .ok v t) :
    evalWithin rounds (depth + 1) (.call pos callee args) f s = .ok v t := by
  cases ha with
  | call hcallee hc hvs =>
    change stamp pos (evalWithin rounds depth callee f >>= fun w => Evaluator.callee w >>= fun c =>
      (evalWithin rounds depth).list f args >>= (evalWithin rounds depth).apply c) s = _
    rw [stamp_eq, bind_of_ok hcallee, bind_of_ok (callee_of_some hc), bind_of_ok hvs, apply_eq,
      bind_of_ok he, hv]

namespace Heap.Declares

variable {f : Nat} {vars : List (String × Value)} {h h' : Heap}

theorem get?_of_get? {repeated : Option String} (hd : Declares f vars h repeated h')
    (hf : f < h.frames.size) {x : String} {v : Value} (hx : h.get? f x = some v) :
    h'.get? f x = some v := by
  induction hd with
  | done | repeated => exact hx
  | @next name _ _ _ _ _ hb _ ih =>
    have hne : x ≠ name := by
      rintro rfl
      rw [binds_of_get? hx] at hb
      cases hb
    refine ih (by simpa using hf) ?_
    rw [get?_put hf, if_neg (fun h => hne h.2), hx]

/-- Names that were all declared have the values that they were declared with. -/
theorem get?_of_mem (hd : Declares f vars h none h') (hf : f < h.frames.size) {x : String}
    {v : Value} (hx : (x, v) ∈ vars) : h'.get? f x = some v := by
  generalize hr : none = repeated at hd
  induction hd with
  | done => cases hx
  | repeated => cases hr
  | next _ hd ih =>
    rcases List.mem_cons.mp hx with heq | hx
    · cases heq
      exact hd.get?_of_get? (by simpa using hf) (by simp [get?_put hf])
    · exact ih (by simpa using hf) hx hr

end Heap.Declares

/-- In the frame of a call each parameter stands for its argument. -/
theorem Evaluator.resolve?_of_enter {c : Closure} {vs : List Value} {s t : State} {g : Nat}
    (he : enter c vs s = .ok g t) {i : Nat} {x : String} {v : Value}
    (hx : c.params[i]? = some x) (hv : vs[i]? = some v) : t.heap.resolve? g x = some v := by
  by_cases ha : vs.length = c.params.length
  case neg =>
    rw [enter_of_arity ha] at he
    cases he
  obtain ⟨repeated, h', hd⟩ := Heap.Declares.total s.heap.frames.size (c.params.zip vs)
    (s.heap.pushFrame (some c.frame) none)
  obtain ⟨notices, hrun⟩ := hd.enter ha
  rw [he] at hrun
  cases repeated with
  | some x => cases hrun
  | none =>
    cases hrun
    have hmem : (x, v) ∈ c.params.zip vs :=
      List.mem_of_getElem? (by rw [List.getElem?_zip_eq_some]; exact ⟨hx, hv⟩)
    exact Heap.resolve?_of_get? (hd.get?_of_mem (by simp [Heap.pushFrame]) hmem)

/-- What is done with a value leaves it the value that it is. Declaring, assigning and printing it
give that value, and the name that it was declared or assigned to stands for it then; reading gives
what a name stands for. A parameter stands for its argument, and a call gives what its body does. -/
structure State.Carries (s : State) (v : Value) : Prop where
  declared {rounds depth pos x e f s₁} : s.heap.Hosts e f →
    evalWithin rounds depth e f s = .ok v s₁ → s₁.heap.binds f x = false →
    ∃ t, evalWithin rounds (depth + 1) (.declare pos x e) f s = .ok v t ∧
      t.heap.resolve? f x = some v
  assigned {rounds depth pos x e f s₁} : s.heap.Hosts e f →
    evalWithin rounds depth e f s = .ok v s₁ →
    ∃ t, evalWithin rounds (depth + 1) (.assign pos x e) f s = .ok v t ∧
      t.heap.resolve? f x = some v
  printed {rounds depth pos e f s₁} : evalWithin rounds depth e f s = .ok v s₁ →
    ∃ t, evalWithin rounds (depth + 1) (.print pos e) f s = .ok v t ∧ t.heap = s₁.heap
  read {rounds depth pos x f} : s.heap.resolve? f x = some v →
    evalWithin rounds (depth + 1) (.var pos x) f s = .ok v s
  passed {c vs g t} {i : Nat} {x} : enter c vs s = .ok g t → c.params[i]? = some x →
    vs[i]? = some v → t.heap.resolve? g x = some v
  returned {rounds depth pos callee args f c vs s₁ g s₂ t} :
    (evalWithin rounds depth).Applies ⟨.call pos callee args, f, s⟩ c vs s₁ →
    enter c vs s₁ = .ok g s₂ → evalWithin rounds depth c.body g s₂ = .ok v t →
    evalWithin rounds (depth + 1) (.call pos callee args) f s = .ok v t

theorem Heap.WellFormed.carries {s : State} (hs : s.heap.WellFormed) {v : Value}
    (hw : v.writable = true) : s.Carries v where
  declared {rounds depth pos x e f s₁} he hv hb := by
    obtain ⟨-, hgrows, -⟩ := hs.eval_ok he hv
    obtain ⟨t, ht, hheap⟩ := evalWithin_declare hv pos hb
    refine ⟨t, ht, resolve?_of_get? ?_⟩
    rw [hheap, get?_put (Nat.lt_of_lt_of_le he.frame_lt hgrows.size_le), if_pos ⟨rfl, rfl⟩]
  assigned {rounds depth pos x e f s₁} he hv := by
    obtain ⟨hs₁, hgrows, -⟩ := hs.eval_ok he hv
    obtain ⟨t, ht, hheap⟩ := evalWithin_assign hv pos x
    refine ⟨t, ht, ?_⟩
    rw [hheap]
    exact resolve?_assign ⟨hs₁.ordered, Nat.lt_of_lt_of_le he.frame_lt hgrows.size_le⟩ x v
  printed hv := evalWithin_print hv _ hw
  read hx := evalWithin_var hx
  passed he hx hv := resolve?_of_enter he hx hv
  returned ha he hv := evalWithin_call ha he hv

/-! ### New closures -/

theorem Heap.Has.ne_new {h : Heap} {v : Value} (hv : h.Has v) : .closure h.closures.size ≠ v := by
  rintro rfl
  exact absurd (hv _ rfl) (Nat.lt_irrefl _)

/-- A value that a call gave is there as long as anything is done. -/
theorem State.Leads.has_of_evalIn {s₀ t₀ s : State} (hs₀ : s₀.Reachable) {e : Expr} {g : Nat}
    (he : s₀.heap.Hosts e g) {strict : Option Bool} {limits : Limits} {w : Value}
    (hr : limits.evalIn g strict e s₀ = .ok w t₀) (hst : t₀.Leads s) : s.heap.Has w := by
  have hcall := hs₀.wellFormed.evalIn he strict limits
  rw [hr] at hcall
  exact (hs₀.wellFormed.has_of_evalIn he hr).evolve (hst.evolves hcall.wellFormed)

/-- In any state that environments can come to, equality of values is as follows. It is an
equivalence relation that is always decided, and never holds between values of different kinds.
Closures that are equal are one closure, with the same parameters, body and captured frame, and it
is that closure in all states to come. Evaluating a function gives a closure that differs from all
values that are bound in any frame then, and from all that evaluations gave before, those of the
same function in the same frame among them. Whatever is done with a closure leaves it that closure,
which is equal to itself. -/
theorem closure_identity {s : State} (hs : s.Reachable) :
    (Equivalence s.heap.Same ∧ (∀ v w, s.heap.Same v w ∨ s.heap.Differ v w) ∧
      ∀ v w, s.heap.Same v w → v.typeName = w.typeName) ∧
    (∀ i j, s.heap.Has (.closure i) → s.heap.Same (.closure i) (.closure j) →
      ∃ c, s.heap.closures[i]? = some c ∧ s.heap.closures[j]? = some c ∧
        ∀ t, s.Leads t → t.heap.closures[i]? = some c) ∧
    (∀ rounds depth pos params body f, ∃ v t,
      evalWithin rounds (depth + 1) (.func pos params body) f s = .ok v t ∧
      t.heap.closure? v = some ⟨params, body, f⟩ ∧
      (∀ g x w, (x, w) ∈ t.heap.vars g → t.heap.Differ v w) ∧
      ∀ s₀ e g strict limits w t₀, s₀.Reachable → s₀.heap.Hosts e g →
        Limits.evalIn limits g strict e s₀ = .ok w t₀ → t₀.Leads s → t.heap.Differ v w) ∧
    ∀ id, s.Carries (.closure id) := by
  have hh := hs.wellFormed
  refine ⟨⟨s.heap.same_equivalence, s.heap.same_or_differ, ?_⟩, ?_, ?_, fun id => hh.carries rfl⟩
  · intro v w hvw
    rw [Heap.same_iff.mp hvw]
  · intro i j hi hij
    cases Heap.same_iff.mp hij
    have hc := Array.getElem?_eq_getElem (hi i rfl)
    exact ⟨_, hc, hc, fun t ht => (ht.evolves hh).closures hc⟩
  · intro rounds depth pos params body f
    refine ⟨.closure s.heap.closures.size, _, rfl, ?_, fun g x w hx => ?_, ?_⟩
    · simp [Heap.closure?, Heap.pushClosure]
    · have hw : s.heap.Has w := by
        rintro id rfl
        exact hh.bound hx
      exact Heap.differ_iff.mpr hw.ne_new
    · intro s₀ e g strict limits w t₀ hs₀ he hr hst
      exact Heap.differ_iff.mpr (hst.has_of_evalIn hs₀ he hr).ne_new

/-- A function is declared in a new environment. The same function, evaluated in the same frame
again, is another closure. -/
theorem function_evaluated_again_differs :
    let function : Expr := .func none ["x"] (.var none "x")
    let s₀ := finalState (newFrame none (some true) .empty)
    let s := finalState ((⟨2, 0⟩ : Limits).evalIn 0 none (.declare none "f" function) s₀)
    s.Reachable ∧ ∃ t, evalWithin 0 1 function 0 s = .ok (.closure 1) t ∧
      ("f", .closure 0) ∈ t.heap.vars 0 ∧ t.heap.Differ (.closure 1) (.closure 0) := by
  intro function s₀ s
  have hhosts : s₀.heap.Hosts (.declare none "f" function) 0 := by
    refine ⟨by decide, ?_⟩
    rintro id ⟨pos, hpos⟩
    simp [function, Expr.all] at hpos
  have hs₀ : s₀.Reachable := .tail .refl (.environment (by simp) (some true))
  have hs : s.Reachable := .tail hs₀ (.eval hhosts none ⟨2, 0⟩)
  obtain ⟨v, t, hr, -, hnew, -⟩ := (closure_identity hs).2.2.1 0 0 none ["x"] (.var none "x") 0
  obtain ⟨t', hr', hbound⟩ : ∃ t', evalWithin 0 1 function 0 s = .ok (.closure 1) t' ∧
      ("f", .closure 0) ∈ t'.heap.vars 0 := ⟨_, by with_unfolding_all rfl, by decide +kernel⟩
  cases hr'.symm.trans hr
  exact ⟨hs, t, hr, hbound, hnew 0 "f" _ hbound⟩

end Scriptlet
