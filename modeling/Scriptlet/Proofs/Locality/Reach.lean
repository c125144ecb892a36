import Scriptlet.Proofs.Evaluation.Primitive
import Scriptlet.Proofs.Heap.WellFormed

/-! What an expression can reach from a frame: the frames around it, the closures bound in them
or embedded in code, and the frames that those closures captured. -/

namespace Scriptlet

/-- Something in a heap. -/
inductive Ref where
  | frame (f : Nat)
  | closure (id : Nat)

namespace Heap

/-- What can be reached from an expression and the frame in which it is evaluated. -/
inductive Reaches (h : Heap) (e : Expr) (f : Nat) : Ref → Prop where
  | here : Reaches h e f (.frame f)
  | parent {g p} (hg : Reaches h e f (.frame g)) (hp : h.parent? g = some p) :
      Reaches h e f (.frame p)
  | bound {g x id} (hg : Reaches h e f (.frame g)) (hx : (x, .closure id) ∈ h.vars g) :
      Reaches h e f (.closure id)
  | embedded {id} (he : e.Embeds id) : Reaches h e f (.closure id)
  | body {id c id'} (hc : Reaches h e f (.closure id)) (hid : h.closures[id]? = some c)
      (he : c.body.Embeds id') : Reaches h e f (.closure id')
  | captured {id c} (hc : Reaches h e f (.closure id)) (hid : h.closures[id]? = some c) :
      Reaches h e f (.frame c.frame)

/-- A closed heap that has the frame and the closures embedded in the expression. -/
structure Admits (h : Heap) (e : Expr) (f : Nat) : Prop where
  closed : h.Closed
  frame_lt : f < h.frames.size
  embedded {id} : e.Embeds id → id < h.closures.size

/-- What can be reached exists. -/
theorem Reaches.exists {h : Heap} {e : Expr} {f : Nat} (hh : h.Admits e f) {r : Ref}
    (hr : h.Reaches e f r) :
    match r with
    | .frame g => g < h.frames.size
    | .closure id => id < h.closures.size := by
  induction hr with
  | here => exact hh.frame_lt
  | parent _ hp _ => exact Nat.lt_trans (hh.closed.ordered.parent_lt hp) (lt_size_of_parent hp)
  | bound _ hx _ => exact hh.closed.bound hx
  | embedded he => exact hh.embedded he
  | body _ hid he _ => exact hh.closed.body hid he
  | captured _ hid _ => exact hh.closed.ordered.captured_lt hid

/-- A second heap with the same frames in number that agrees on all that can be reached in the
first one. -/
structure Agrees (k h : Heap) (e : Expr) (f : Nat) : Prop where
  size : k.frames.size = h.frames.size
  frames {g} : h.Reaches e f (.frame g) → k.frames[g]? = h.frames[g]?
  closures {id} : h.Reaches e f (.closure id) → k.closures[id]? = h.closures[id]?

theorem Agrees.refl (h : Heap) (e : Expr) (f : Nat) : h.Agrees h e f :=
  ⟨rfl, fun _ => rfl, fun _ => rfl⟩

/-- Both heaps have the closures that can be reached. -/
theorem Agrees.reached {h k : Heap} {e : Expr} {f : Nat} (hk : k.Agrees h e f)
    (hh : h.Admits e f) {id : Nat} (hid : h.Reaches e f (.closure id)) :
    id < h.closures.size ∧ id < k.closures.size := by
  have hlt : id < h.closures.size := hid.exists hh
  have heq := hk.closures hid
  rw [Array.getElem?_eq_getElem hlt] at heq
  exact ⟨hlt, (Array.getElem?_eq_some_iff.mp heq).1⟩

/-- A frame of a later heap that could be reached before, or that did not exist. -/
def Accessible (h : Heap) (e : Expr) (f : Nat) (h' : Heap) (g : Nat) : Prop :=
  h.Reaches e f (.frame g) ∨ h.frames.size ≤ g ∧ g < h'.frames.size

/-- A value that is no closure, or a closure that captured an accessible frame. -/
def RefersWithin (h : Heap) (e : Expr) (f : Nat) (h' : Heap) (v : Value) : Prop :=
  ∀ id, v = .closure id → ∃ c, h'.closures[id]? = some c ∧ h.Accessible e f h' c.frame

/-- How a heap may differ from an earlier one: frames that could not be reached are as they were,
and those that can be accessed refer to such frames only. -/
structure ChangedWithin (h : Heap) (e : Expr) (f : Nat) (h' : Heap) : Prop where
  unreachable {g} : g < h.frames.size → ¬ h.Reaches e f (.frame g) → h'.frames[g]? = h.frames[g]?
  bindings {g var} : h.Accessible e f h' g → var ∈ h'.vars g → h.RefersWithin e f h' var.2

end Heap

/-! ### Numbers of closures

The closures that an evaluation makes are numbered from the count of those that exist, so the same
closure may have different numbers in two heaps. -/

/-- The number in a heap that began with `m` closures of what is number `id` in one that began
with `n`. -/
def renumber (n m id : Nat) : Nat := if id < n then id else id - n + m

def Value.renumber (n m : Nat) : Value → Value
  | .closure id => .closure (Scriptlet.renumber n m id)
  | v => v

def Frame.renumber (n m : Nat) : Frame → Frame := Frame.map id (Value.renumber n m)

/-- States that look the same after evaluation of an expression in a frame of two others: the same
lines were printed, and as many frames made. The accessible frames are the same, and so are the
closures that could be reached or were made, up to the numbers of the latter. -/
structure LooksSame (s t : State) (e : Expr) (f : Nat) (s' t' : State) : Prop where
  printed : ∃ lines, s'.printed.toList = s.printed.toList ++ lines ∧
    t'.printed.toList = t.printed.toList ++ lines
  size : t'.heap.frames.size = s'.heap.frames.size
  frames {g} : s.heap.Accessible e f s'.heap g → t'.heap.frames[g]? =
    s'.heap.frames[g]?.map (Frame.renumber s.heap.closures.size t.heap.closures.size)
  closures {id} : (s.heap.Reaches e f (.closure id) ∨ s.heap.closures.size ≤ id) →
    id < s'.heap.closures.size →
    t'.heap.closures[renumber s.heap.closures.size t.heap.closures.size id]? =
      s'.heap.closures[id]?

/-- Results that look the same: the same value up to the numbers of closures that were made, or
the same fault. -/
inductive ResultsLookSame (s t : State) (e : Expr) (f : Nat) :
    EStateM.Result Fault State Value → EStateM.Result Fault State Value → Prop where
  | value (v : Value) {s' t' : State} (hs : LooksSame s t e f s' t') :
      ResultsLookSame s t e f (.ok v s')
        (.ok (v.renumber s.heap.closures.size t.heap.closures.size) t')
  | fault (φ : Fault) {s' t' : State} (hs : LooksSame s t e f s' t') :
      ResultsLookSame s t e f (.error φ s') (.error φ t')

end Scriptlet
