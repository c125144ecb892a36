import Scriptlet.Proofs.Evaluation.Growth
import Scriptlet.Proofs.Expr.Parts

/-! What happens while an expression is evaluated. To evaluate it is to begin further evaluations,
of its parts and of the bodies of the functions it calls, and each of these begins in a frame and
a state that depend on those before it. -/

namespace Scriptlet

open EvalM

/-- An evaluation that has begun: of an expression, in a frame, in a state. -/
structure Activation where
  expr : Expr
  frame : Nat
  state : State

namespace Expr

/-- The statements of a row. What is no row stands for itself. -/
def row : Expr → List Expr
  | .seq _ first second => first :: second.row
  | e => [e]

/-- The parts that are evaluated first, one after another and come what may. -/
def operands : Expr → List Expr
  | .print _ a | .declare _ _ a | .assign _ _ a | .cond _ a _ _ | .call _ a _ => [a]
  | .binary _ _ a b => [a, b]
  | .seq p a b => (Expr.seq p a b).row
  | .const .. | .var .. | .loop .. | .func .. | .foreign _ => []

end Expr

namespace Evaluator

variable (ev : Evaluator) (limit : Nat)

/-- A loop goes round so often and comes to its test again. -/
inductive Rounds (test body : Expr) (f : Nat) (s : State) : Nat → State → Prop where
  | start : Rounds test body f s 0 s
  | again {n s₁ s₂ v s₃} (hr : Rounds test body f s n s₁) (ht : ev test f s₁ = .ok (.bool true) s₂)
      (hb : ev body f s₂ = .ok v s₃) : Rounds test body f s (n + 1) s₃

/-- A call is about to be made, of a closure with arguments. -/
inductive Applies : Activation → Closure → List Value → State → Prop where
  | call {p callee args f s v s₁ c vs s₂} (hv : ev callee f s = .ok v s₁)
      (hc : s₁.heap.closure? v = some c) (hvs : ev.list f args s₁ = .ok vs s₂) :
      Applies ⟨.call p callee args, f, s⟩ c vs s₂

/-- One evaluation begins another. -/
inductive Calls : Activation → Activation → Prop where
  | operand {e before part after f s vs s'} (he : e.operands = before ++ part :: after)
      (hvs : ev.list f before s = .ok vs s') : Calls ⟨e, f, s⟩ ⟨part, f, s'⟩
  | branch {p test yes no f s b s'} (ht : ev test f s = .ok (.bool b) s') :
      Calls ⟨.cond p test yes no, f, s⟩ ⟨if b then yes else no, f, s'⟩
  | test {p test body f s n s'} (hn : n < limit) (hr : ev.Rounds test body f s n s') :
      Calls ⟨.loop p test body, f, s⟩ ⟨test, f, s'⟩
  | body {p test body f s n s₁ s₂} (hn : n < limit) (hr : ev.Rounds test body f s n s₁)
      (ht : ev test f s₁ = .ok (.bool true) s₂) : Calls ⟨.loop p test body, f, s⟩ ⟨body, f, s₂⟩
  | argument {p callee before arg after f s v s₁ c vs s₂} (hv : ev callee f s = .ok v s₁)
      (hc : s₁.heap.closure? v = some c) (hvs : ev.list f before s₁ = .ok vs s₂) :
      Calls ⟨.call p callee (before ++ arg :: after), f, s⟩ ⟨arg, f, s₂⟩
  | entry {a c vs s f s'} (ha : ev.Applies a c vs s) (he : enter c vs s = .ok f s') :
      Calls a ⟨c.body, f, s'⟩

/-- An evaluation fails by itself, not because one that it began fails. -/
inductive Raises : Activation → Fault → State → Prop where
  | unbound {p x f s} (hx : s.heap.resolve? f x = none) (hs : s.heap.strict f = true) :
      Raises ⟨.var p x, f, s⟩ (.ofCause (.unboundVariable x)) s
  | unwritable {p a f s v s'} (hv : ev a f s = .ok v s') (hw : v.writable = false) :
      Raises ⟨.print p a, f, s⟩ .numberTooLong s'
  | refused {p op l r f s a s₁ b s₂ cause} (ha : ev l f s = .ok a s₁) (hb : ev r f s₁ = .ok b s₂)
      (hr : op.Refuses s₂.heap a b cause) : Raises ⟨.binary p op l r, f, s⟩ (.ofCause cause) s₂
  | condition {p test yes no f s v s'} (ht : ev test f s = .ok v s') (hv : ∀ b, v ≠ .bool b) :
      Raises ⟨.cond p test yes no, f, s⟩ (.about s'.heap v (.invalidCondition .branch)) s'
  | loopCondition {p test body f s n s₁ v s₂} (hn : n < limit)
      (hr : ev.Rounds test body f s n s₁) (ht : ev test f s₁ = .ok v s₂) (hv : ∀ b, v ≠ .bool b) :
      Raises ⟨.loop p test body, f, s⟩ (.about s₂.heap v (.invalidCondition .loop)) s₂
  | unfinished {p test body f s s'} (hr : ev.Rounds test body f s limit s') :
      Raises ⟨.loop p test body, f, s⟩ .unfinished s'
  | duplicate {p x init f s v s'} (hv : ev init f s = .ok v s') (hb : s'.heap.binds f x = true) :
      Raises ⟨.declare p x init, f, s⟩ (.ofCause (.duplicateDeclaration x)) s'
  | notCallable {p callee args f s v s'} (hv : ev callee f s = .ok v s')
      (hc : s'.heap.closure? v = none) :
      Raises ⟨.call p callee args, f, s⟩ (.about s'.heap v .notCallable) s'
  | entry {a c vs s fault s'} (ha : ev.Applies a c vs s) (he : enter c vs s = .error fault s') :
      Raises a fault s'
  | foreign {type f s} : Raises ⟨.foreign type, f, s⟩ (.ofCause (.unknownNode type)) s

variable {ev} {limit}

theorem list_cons_ok {e : Expr} {es : List Expr} {f : Nat} {s s₁ s₂ : State} {v : Value}
    {vs : List Value} (hv : ev e f s = .ok v s₁) (hvs : ev.list f es s₁ = .ok vs s₂) :
    ev.list f (e :: es) s = .ok (v :: vs) s₂ := by
  rw [list, bind_of_ok hv, bind_of_ok hvs]
  rfl

theorem Calls.first {e part : Expr} {after : List Expr} {f : Nat} {s : State}
    (he : e.operands = part :: after) : ev.Calls limit ⟨e, f, s⟩ ⟨part, f, s⟩ :=
  @operand ev limit e [] part after f s [] s he rfl

theorem Calls.second {e first part : Expr} {after : List Expr} {f : Nat} {s s' : State} {v : Value}
    (he : e.operands = first :: part :: after) (hv : ev first f s = .ok v s') :
    ev.Calls limit ⟨e, f, s⟩ ⟨part, f, s'⟩ :=
  @operand ev limit e [first] part after f s [v] s' he (list_cons_ok hv rfl)

theorem condition_of_ne {construct : Conditional} {test : Expr} {f : Nat} {s s' : State}
    {v : Value} (ht : ev test f s = .ok v s') (hv : ∀ b, v ≠ .bool b) :
    ev.condition construct test f s =
      .error (.about s'.heap v (.invalidCondition construct)) s' := by
  rw [condition, bind_of_ok ht, ← complain_eq]
  split
  · exact absurd rfl (hv _)
  · rfl

theorem condition_eq_ok_iff {construct : Conditional} {test : Expr} {f : Nat} {s s' : State}
    {b : Bool} :
    ev.condition construct test f s = .ok b s' ↔ ev test f s = .ok (.bool b) s' := by
  refine ⟨fun hc => ?_, fun ht => ?_⟩
  · cases hr : ev test f s with
    | error fault s₁ =>
      rw [condition, bind_of_error hr] at hc
      cases hc
    | ok v s₁ =>
      by_cases hv : ∃ b, v = .bool b
      · obtain ⟨b', rfl⟩ := hv
        rw [condition, bind_of_ok hr] at hc
        cases hc
        rfl
      · rw [condition_of_ne hr fun b hb => hv ⟨b, hb⟩] at hc
        cases hc
  · rw [condition, bind_of_ok ht]
    rfl

end Evaluator

/-- The evaluations that are begun, at any depth, while one that may go `depth` levels deep is
carried out. Each has its own number of levels left. -/
inductive Within (rounds depth : Nat) (root : Activation) : Nat → Activation → Prop where
  | root : Within rounds depth root depth root
  | call {d a b} (ha : Within rounds depth root (d + 1) a)
      (hb : (evalWithin rounds d).Calls rounds a b) : Within rounds depth root d b

/-- The result of an evaluation. -/
def Activation.result (a : Activation) (rounds depth : Nat) : EStateM.Result Fault State Value :=
  evalWithin rounds depth a.expr a.frame a.state

/-- The states through which an evaluation goes: where it or one within it begins and where it
ends, and between them as the parameters of a call become variables one after another. -/
inductive Passes (rounds depth : Nat) (root : Activation) : State → Prop where
  | start {d a} (ha : Within rounds depth root d a) : Passes rounds depth root a.state
  | finish {d a} (ha : Within rounds depth root d a) :
      Passes rounds depth root (finalState (a.result rounds d))
  | binding {d a c vs s} (ha : Within rounds depth root (d + 1) a)
      (hc : (evalWithin rounds d).Applies a c vs s) (n : Nat) :
      Passes rounds depth root (finalState (declareAll s.heap.frames.size
        ((c.params.zip vs).take n) { s with heap := s.heap.pushFrame (some c.frame) none }))

end Scriptlet
