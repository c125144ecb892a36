import Scriptlet.Proofs.Evaluation.Sound
import Scriptlet.Proofs.Heap.Scope

/-! Computations beside a map of states. A map that keeps the frames where they hang, with their
variables, commutes with whatever is done to the heap without asking how strict a frame is or what
code a closure has. -/

namespace Scriptlet

open EvalM

/-- A map of heaps and of faults that computations on frames take no notice of. -/
structure StateMap where
  heap : Heap → Heap
  fault : Fault → Fault
  size_frames (h) : (heap h).frames.size = h.frames.size
  parent? (h f) : (heap h).parent? f = h.parent? f
  binds (h f x) : (heap h).binds f x = h.binds f x
  get? (h f x) : (heap h).get? f x = h.get? f x
  text (h v) : (heap h).text v = h.text v
  put (h f x v) : (heap h).put f x v = heap (h.put f x v)
  pushFrame (h p) : (heap h).pushFrame (some p) none = heap (h.pushFrame (some p) none)
  unplaced {φ} : φ.unplaced = φ → fault φ = φ

namespace StateMap

variable (m : StateMap)

attribute [simp] size_frames parent? binds get? text put pushFrame

section Heap

variable (h : Heap) (f : Nat) (x : String) (v : Value)

@[simp] theorem chain : (m.heap h).chain f = h.chain f := Heap.chain_congr (m.parent? h) f

@[simp] theorem depth : (m.heap h).depth f = h.depth f := by simp [Heap.depth]

@[simp] theorem global : (m.heap h).global f = h.global f := by simp [Heap.global]

@[simp] theorem owner? : (m.heap h).owner? f x = h.owner? f x := by simp [Heap.owner?]

@[simp] theorem resolve? : (m.heap h).resolve? f x = h.resolve? f x := by simp [Heap.resolve?]

@[simp] theorem shadows : (m.heap h).shadows f x = h.shadows f x := by simp [Heap.shadows]

@[simp] theorem describe : (m.heap h).describe v = h.describe v := by simp [Heap.describe]

@[simp] theorem assign : (m.heap h).assign f x v = m.heap (h.assign f x v) := by
  simp [Heap.assign]

end Heap

def state (s : State) : State := { s with heap := m.heap s.heap }

/-- The same ending, in the state that the map gives. -/
def result {α : Type} : EStateM.Result Fault State α → EStateM.Result Fault State α
  | .ok a s => .ok a (m.state s)
  | .error fault s => .error (m.fault fault) (m.state s)

/-- A computation that ends in the same way in the states that the map gives. -/
def Keeps {α : Type} (x : EvalM α) : Prop := ∀ s, x (m.state s) = m.result (x s)

variable {m}

namespace Keeps

theorem bind {α β : Type} {x : EvalM α} {k : α → EvalM β} (hx : m.Keeps x)
    (hk : ∀ a, m.Keeps (k a)) : m.Keeps (x >>= k) := by
  intro s
  have hmap := hx s
  cases hr : x s with
  | ok a s' =>
    rw [hr] at hmap
    rw [bind_of_ok hr, bind_of_ok hmap, hk]
  | error fault s' =>
    rw [hr] at hmap
    rw [bind_of_error hr, bind_of_error hmap]
    rfl

theorem fail {α : Type} (cause : Cause) : m.Keeps (fail cause : EvalM α) :=
  fun s => congrArg (EStateM.Result.error · (m.state s)) (m.unplaced rfl).symm

theorem print (v : Value) : m.Keeps (print v) := by
  intro s
  rw [print_eq, print_eq]
  split
  · simp [state, result]
  · rw [result, m.unplaced rfl]

theorem declare (f : Nat) (name : String) (v : Value) : m.Keeps (declare f name v) := by
  intro s
  rw [declare_eq, declare_eq]
  simp only [state, binds, shadows, put]
  split
  · rw [result, m.unplaced rfl]
    rfl
  · rfl

theorem assign (f : Nat) (name : String) (v : Value) : m.Keeps (EvalM.assign f name v) := by
  intro s
  rw [assign_eq, assign_eq]
  simp only [state, owner?, StateMap.assign, result]

theorem declareAll (f : Nat) (vars : List (String × Value)) : m.Keeps (declareAll f vars) := by
  induction vars with
  | nil => exact fun _ => rfl
  | cons var rest ih => exact (Keeps.declare f var.1 var.2).bind fun _ => ih

theorem newFrame (p : Nat) : m.Keeps (newFrame (some p) none) := by
  intro s
  rw [newFrame_eq, newFrame_eq]
  simp only [state, size_frames, pushFrame, result]

/-- The depth of the frame, which the log shows, is the same too. -/
theorem enter (c : Closure) (args : List Value) : m.Keeps (Evaluator.enter c args) := by
  unfold Evaluator.enter
  split
  case isTrue => exact Keeps.fail _
  case isFalse =>
    refine (Keeps.newFrame c.frame).bind fun f => ?_
    refine (Keeps.declareAll f _).bind fun _ => ?_
    intro s
    rw [getHeap_bind, getHeap_bind]
    simp only [state, depth]
    rfl

end Keeps

end StateMap

end Scriptlet
