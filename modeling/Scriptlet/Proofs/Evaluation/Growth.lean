import Scriptlet.Proofs.Evaluation.Primitive

/-! States only grow. Whatever a computation does and however it ends, printed lines stay printed,
and every frame stays where it hangs, as strict as it was, with the names that it bound in their
order. -/

namespace Scriptlet

/-- What may become of a frame: more names are bound in it. -/
structure Frame.Grows (f f' : Frame) : Prop where
  parent : f'.parent = f.parent
  strict : f'.strict = f.strict
  names : f.names <+: f'.names

namespace Frame.Grows

theorem refl (f : Frame) : f.Grows f := ⟨rfl, rfl, List.prefix_rfl⟩

theorem trans {f f' f'' : Frame} (h : f.Grows f') (h' : f'.Grows f'') : f.Grows f'' :=
  ⟨h'.parent.trans h.parent, h'.strict.trans h.strict, h.names.trans h'.names⟩

theorem put (f : Frame) (name : String) (v : Value) : f.Grows (f.put name v) where
  parent := f.put_parent name v
  strict := f.put_strict name v
  names := by
    rw [names_put]
    split
    · exact List.prefix_rfl
    · exact List.prefix_append ..

end Frame.Grows

/-- What may become of a heap: its frames grow, its closures stay, and more of both are made. -/
structure Heap.Grows (h h' : Heap) : Prop where
  frames {g : Nat} {frame : Frame} : h.frames[g]? = some frame →
    ∃ frame', h'.frames[g]? = some frame' ∧ frame.Grows frame'
  closures {id : Nat} {c : Closure} : h.closures[id]? = some c → h'.closures[id]? = some c

namespace Heap.Grows

variable {h h' h'' : Heap}

theorem refl (h : Heap) : h.Grows h := ⟨fun hg => ⟨_, hg, .refl _⟩, id⟩

theorem trans (hh : h.Grows h') (hh' : h'.Grows h'') : h.Grows h'' where
  frames hg := by
    obtain ⟨frame', hg', hle⟩ := hh.frames hg
    obtain ⟨frame'', hg'', hle'⟩ := hh'.frames hg'
    exact ⟨frame'', hg'', hle.trans hle'⟩
  closures hc := hh'.closures (hh.closures hc)

theorem put (h : Heap) (f : Nat) (name : String) (v : Value) : h.Grows (h.put f name v) where
  frames {g frame} hg := by
    rw [frames_put, hg]
    split
    · exact ⟨_, rfl, .put frame name v⟩
    · exact ⟨frame, rfl, .refl frame⟩
  closures := id

theorem pushFrame (h : Heap) (parent : Option Nat) (strict : Option Bool) :
    h.Grows (h.pushFrame parent strict) where
  frames {g frame} hg := by
    have hlt := (Array.getElem?_eq_some_iff.mp hg).1
    refine ⟨frame, ?_, .refl frame⟩
    rw [Heap.pushFrame, Array.getElem?_push, if_neg (by omega), hg]
  closures := id

theorem pushClosure (h : Heap) (c : Closure) : h.Grows (h.pushClosure c) where
  frames hg := ⟨_, hg, .refl _⟩
  closures {id d} hd := by
    have hlt := (Array.getElem?_eq_some_iff.mp hd).1
    rw [Heap.pushClosure, Array.getElem?_push, if_neg (by omega), hd]

theorem size_le (hh : h.Grows h') : h.frames.size ≤ h'.frames.size := by
  refine Nat.le_of_not_lt fun hlt => ?_
  obtain ⟨frame, hg, -⟩ := hh.frames (Array.getElem?_eq_getElem hlt)
  simp at hg

theorem closures_size_le (hh : h.Grows h') : h.closures.size ≤ h'.closures.size := by
  refine Nat.le_of_not_lt fun hlt => ?_
  have hc := hh.closures (Array.getElem?_eq_getElem hlt)
  simp at hc

theorem parent?_eq (hh : h.Grows h') {g : Nat} (hg : g < h.frames.size) :
    h'.parent? g = h.parent? g := by
  have hframe := Array.getElem?_eq_getElem hg
  obtain ⟨frame', hg', hle⟩ := hh.frames hframe
  simp [parent?, hg', hframe, hle.parent]

theorem strict_eq (hh : h.Grows h') {g : Nat} (hg : g < h.frames.size) :
    h'.strict g = h.strict g := by
  have hframe := Array.getElem?_eq_getElem hg
  obtain ⟨frame', hg', hle⟩ := hh.frames hframe
  simp [Heap.strict, hg', hframe, hle.strict]

theorem binds (hh : h.Grows h') {g : Nat} {name : String} (hb : h.binds g name = true) :
    h'.binds g name = true := by
  unfold Heap.binds at hb ⊢
  cases hg : h.frames[g]? with
  | none => simp [hg] at hb
  | some frame =>
    obtain ⟨frame', hg', hle⟩ := hh.frames hg
    simp only [hg, hg', Option.any_some, Frame.binds, List.contains_iff_mem] at hb ⊢
    exact hle.names.subset hb

end Heap.Grows

theorem Heap.Declares.grows {f : Nat} {vars : List (String × Value)} {h h' : Heap}
    {repeated : Option String} (hd : Heap.Declares f vars h repeated h') : h.Grows h' := by
  induction hd with
  | done h | repeated => exact .refl _
  | next _ _ ih => exact (Heap.Grows.put _ _ _ _).trans ih

structure State.Grows (s s' : State) : Prop where
  heap : s.heap.Grows s'.heap
  printed : s.printed.toList <+: s'.printed.toList

theorem State.Grows.refl (s : State) : s.Grows s := ⟨.refl _, List.prefix_rfl⟩

theorem State.Grows.trans {s s' s'' : State} (h : s.Grows s') (h' : s'.Grows s'') : s.Grows s'' :=
  ⟨h.heap.trans h'.heap, h.printed.trans h'.printed⟩

/-- A computation that only ever lets states grow. -/
class EvalM.Growing {α : Type} (x : EvalM α) : Prop where
  grows (s : State) : s.Grows (finalState (x s))

namespace EvalM

variable {α β : Type}

instance (a : α) : Growing (pure a) := ⟨.refl⟩

instance (fault : Fault) : Growing (throw fault : EvalM α) := ⟨.refl⟩

instance (cause : Cause) : Growing (fail cause : EvalM α) := ⟨.refl⟩

instance growing_bind (x : EvalM α) (k : α → EvalM β) [hx : Growing x]
    [hk : ∀ a, Growing (k a)] : Growing (x >>= k) where
  grows s := by
    have hle := hx.grows s
    cases hr : x s with
    | ok a s' =>
      rw [hr] at hle
      rw [bind_of_ok hr]
      exact hle.trans ((hk a).grows s')
    | error fault s' =>
      rw [hr] at hle
      rwa [bind_of_error hr]

instance (c : Prop) [Decidable c] (x y : EvalM α) [hx : Growing x] [hy : Growing y] :
    Growing (if c then x else y) := by
  split
  · exact hx
  · exact hy

instance (pos : Option Position) (x : EvalM α) [hx : Growing x] : Growing (stamp pos x) where
  grows s := by
    have hle := hx.grows s
    rw [stamp_eq]
    cases hr : x s <;> rwa [hr] at hle

instance : Growing getHeap := ⟨.refl⟩

instance (n : Notice) : Growing (notify n) := ⟨fun _ => ⟨.refl _, List.prefix_rfl⟩⟩

instance (result : Except Cause α) : Growing (ofExcept result) := by
  cases result <;> exact ⟨.refl⟩

instance (v : Value) : Growing (describe v) :=
  inferInstanceAs (Growing (getHeap >>= fun h =>
    if v.writable then pure (h.describe v) else throw .numberTooLong))

instance (v : Value) : Growing (print v) where
  grows s := by
    rw [print_eq]
    split
    · exact ⟨.refl _, by simp [finalState]⟩
    · exact .refl s

instance (parent : Option Nat) (strict : Option Bool) : Growing (newFrame parent strict) :=
  ⟨fun s => ⟨.pushFrame s.heap parent strict, List.prefix_rfl⟩⟩

instance (c : Closure) : Growing (newClosure c) :=
  ⟨fun s => ⟨.pushClosure s.heap c, List.prefix_rfl⟩⟩

instance (f : Nat) (name : String) : Growing (read f name) where
  grows s := by
    rw [read_eq]
    split
    · exact .refl s
    · split <;> exact .refl s

instance (f : Nat) (name : String) (v : Value) : Growing (declare f name v) where
  grows s := by
    rw [declare_eq]
    split
    · exact .refl s
    · exact ⟨.put s.heap f name v, List.prefix_rfl⟩

instance (f : Nat) (name : String) (v : Value) : Growing (assign f name v) :=
  ⟨fun s => by rw [assign_eq]; exact ⟨.put s.heap _ name v, List.prefix_rfl⟩⟩

instance (f : Nat) (vars : List (String × Value)) : Growing (declareAll f vars) := by
  induction vars with
  | nil => exact ⟨.refl⟩
  | cons var rest ih =>
    exact inferInstanceAs (Growing (declare f var.1 var.2 >>= fun _ => declareAll f rest))

end EvalM

namespace Evaluator

open EvalM

variable (ev : Evaluator) [hev : ∀ e f, Growing (ev e f)]

instance (construct : Conditional) (test : Expr) (f : Nat) :
    Growing (ev.condition construct test f) := by
  refine @growing_bind _ _ _ _ (hev test f) fun v => ?_
  split <;> infer_instance

instance (test body : Expr) (f n : Nat) (last : Value) :
    Growing (ev.rounds test body f n last) := by
  induction n generalizing last with
  | zero => exact ⟨.refl⟩
  | succ n ih =>
    unfold rounds
    infer_instance

instance (f : Nat) (e : Expr) : Growing (ev.statements f e) := by
  induction e with
  | seq _ first second _ ih =>
    exact inferInstanceAs (Growing (ev first f >>= fun _ => ev.statements f second))
  | _ => exact hev _ f

instance (f : Nat) (es : List Expr) : Growing (ev.list f es) := by
  induction es with
  | nil => exact ⟨.refl⟩
  | cons e rest ih =>
    unfold list
    infer_instance

instance (v : Value) : Growing (callee v) := by
  refine @growing_bind _ _ getHeap _ inferInstance fun h => ?_
  split <;> infer_instance

instance (c : Closure) (args : List Value) : Growing (ev.apply c args) := by
  unfold apply
  infer_instance

instance (limit : Nat) (e : Expr) (f : Nat) : Growing (ev.step limit e f) := by
  cases e <;> rw [step] <;> infer_instance

end Evaluator

/-- Evaluation only lets states grow, however deep it goes and however it ends. -/
instance evalWithin_growing (rounds depth : Nat) (e : Expr) (f : Nat) :
    EvalM.Growing (evalWithin rounds depth e f) := by
  induction depth generalizing e f with
  | zero => exact ⟨.refl⟩
  | succ depth ih =>
    exact inferInstanceAs (EvalM.Growing
      (EvalM.stamp e.pos (Evaluator.step (evalWithin rounds depth) rounds e f)))

end Scriptlet
