import Scriptlet.Evaluation.State
import Scriptlet.Operation

/-! Evaluation of expressions. One step evaluates an expression with the help of an evaluator
for the expressions it needs; the evaluator is that step taken as deep as a limit allows. -/

namespace Scriptlet

/-- How deep evaluations may nest, and how often one loop may go round. -/
structure Limits where
  depth : Nat
  rounds : Nat
deriving DecidableEq, Repr

/-- An evaluator takes an expression and the frame in which to evaluate it. -/
abbrev Evaluator := Expr → Nat → EvalM Value

namespace Evaluator

open EvalM

variable (ev : Evaluator)

/-- The condition of a construct, which has to be a boolean. -/
def condition (construct : Conditional) (test : Expr) (f : Nat) : EvalM Bool := do
  match ← ev test f with
  | .bool b => return b
  | v => fail (.invalidCondition construct (← describe v))

/-- Goes round a loop at most so often. The value is that of the last round, or `last`. -/
def rounds (test body : Expr) (f : Nat) : Nat → Value → EvalM Value
  | 0, _ => throw .unfinished
  | n + 1, last => do
    if ← ev.condition .loop test f then
      let v ← ev body f
      rounds test body f n v
    else return last

/-- Evaluates statements in a row. The row itself is one level deep, however long it is. -/
def statements (f : Nat) : Expr → EvalM Value
  | .seq _ first second => do
    let _ ← ev first f
    statements f second
  | e => ev e f

/-- Evaluates expressions from left to right. -/
def list (f : Nat) : List Expr → EvalM (List Value)
  | [] => return []
  | e :: rest => do
    let v ← ev e f
    let vs ← list f rest
    return v :: vs

/-- Calls a closure: its body runs in a new frame under the captured one, whose variables are
the parameters. -/
def apply (c : Closure) (args : List Value) : EvalM Value :=
  if args.length ≠ c.params.length then fail (.arityMismatch c.params.length args.length)
  else do
    let f ← newFrame (some c.frame) none
    declareAll f (c.params.zip args)
    let h ← getHeap
    notify (.applied c.text args.length (h.depth f))
    ev c.body f

/-- The closure that a value stands for. -/
def callee (v : Value) : EvalM Closure := do
  match (← getHeap).closure? v with
  | some c => return c
  | none => fail (.notCallable (← describe v))

/-- Evaluates an expression, leaving the expressions it needs to an evaluator. -/
def step (limit : Nat) : Evaluator
  | .const _ v, _ => return v
  | .var _ name, f => read f name
  | .print _ arg, f => do
    let v ← ev arg f
    print v
    return v
  | .binary _ op left right, f => do
    let a ← ev left f
    let b ← ev right f
    ofExcept (op.apply (← getHeap) a b)
  | .cond _ test yes no, f => do
    if ← ev.condition .branch test f then ev yes f else ev no f
  | .loop _ test body, f => ev.rounds test body f limit .null
  | .seq pos first second, f => ev.statements f (.seq pos first second)
  | .declare _ name init, f => do
    let v ← ev init f
    declare f name v
    return v
  | .assign _ name rhs, f => do
    let v ← ev rhs f
    assign f name v
    return v
  | .func _ params body, f => newClosure ⟨params, body, f⟩
  | .call _ function args, f => do
    let c ← callee (← ev function f)
    let vs ← ev.list f args
    ev.apply c vs
  | .foreign type, _ => fail (.unknownNode type)

end Evaluator

/-- Evaluates an expression, at most `depth` evaluations deep. An error takes the place of the
innermost expression that has one. -/
def evalWithin (rounds : Nat) : Nat → Evaluator
  | 0, _, _ => EvalM.fail .depthExceeded
  | depth + 1, e, f => EvalM.stamp e.pos (Evaluator.step (evalWithin rounds depth) rounds e f)

namespace Limits

/-- Limits that programs hardly meet unless they never end. -/
def standard : Limits := ⟨4000, Nat.pow 2 62⟩

/-- The evaluator within given limits. -/
def eval (limits : Limits) : Evaluator := evalWithin limits.rounds limits.depth

/-- Evaluates an expression in a frame of the heap, if asked with that frame strict or lax for
this time. -/
def evalIn (limits : Limits) (f : Nat) (strict : Option Bool) (e : Expr) : EvalM Value :=
  EvalM.withStrict f strict (limits.eval e f)

/-- Evaluates an expression in a new global frame. -/
def evalFresh (limits : Limits) (strict : Bool) (e : Expr) : EvalM Value := do
  let f ← EvalM.newFrame none (some strict)
  limits.eval e f

end Limits

end Scriptlet
