import Scriptlet.Proofs.Evaluation.Lockstep
import Scriptlet.Proofs.Heap.Frame

/-! Renaming a parameter of a function: what it does to a program, and what it may do to what
evaluation of the program gives, leaves behind and shows. -/

namespace Scriptlet

/-- One name in the place of another. -/
structure Renaming where
  old : String
  new : String

namespace Renaming

variable (ρ : Renaming)

def name (x : String) : String := if x = ρ.old then ρ.new else x

mutual

/-- The expression with the name replaced wherever it is read, written or bound. -/
def expr : Expr → Expr
  | .const p v => .const p v
  | .var p x => .var p (ρ.name x)
  | .print p a => .print p (expr a)
  | .binary p op a b => .binary p op (expr a) (expr b)
  | .cond p a b c => .cond p (expr a) (expr b) (expr c)
  | .loop p a b => .loop p (expr a) (expr b)
  | .seq p a b => .seq p (expr a) (expr b)
  | .declare p x a => .declare p (ρ.name x) (expr a)
  | .assign p x a => .assign p (ρ.name x) (expr a)
  | .func p xs a => .func p (xs.map ρ.name) (expr a)
  | .call p a as => .call p (expr a) (exprs as)
  | .foreign type => .foreign type

def exprs : List Expr → List Expr
  | [] => []
  | e :: es => expr e :: exprs es

end

/-- The second program is the first one but for a single function, one that has the old name as
a parameter: there the name is replaced in the list of parameters and all through the body. -/
inductive OfParameter : Expr → Expr → Prop where
  | here {p xs body} (hx : ρ.old ∈ xs) :
      OfParameter (.func p xs body) (.func p (xs.map ρ.name) (ρ.expr body))
  | print {p a a'} : OfParameter a a' → OfParameter (.print p a) (.print p a')
  | left {p op a a' b} : OfParameter a a' → OfParameter (.binary p op a b) (.binary p op a' b)
  | right {p op a b b'} : OfParameter b b' → OfParameter (.binary p op a b) (.binary p op a b')
  | test {p a a' b c} : OfParameter a a' → OfParameter (.cond p a b c) (.cond p a' b c)
  | yes {p a b b' c} : OfParameter b b' → OfParameter (.cond p a b c) (.cond p a b' c)
  | no {p a b c c'} : OfParameter c c' → OfParameter (.cond p a b c) (.cond p a b c')
  | loopTest {p a a' b} : OfParameter a a' → OfParameter (.loop p a b) (.loop p a' b)
  | loopBody {p a b b'} : OfParameter b b' → OfParameter (.loop p a b) (.loop p a b')
  | first {p a a' b} : OfParameter a a' → OfParameter (.seq p a b) (.seq p a' b)
  | second {p a b b'} : OfParameter b b' → OfParameter (.seq p a b) (.seq p a b')
  | init {p x a a'} : OfParameter a a' → OfParameter (.declare p x a) (.declare p x a')
  | rhs {p x a a'} : OfParameter a a' → OfParameter (.assign p x a) (.assign p x a')
  | body {p xs a a'} : OfParameter a a' → OfParameter (.func p xs a) (.func p xs a')
  | callee {p a a' as} : OfParameter a a' → OfParameter (.call p a as) (.call p a' as)
  | arg {p a before b b' after} : OfParameter b b' →
      OfParameter (.call p a (before ++ b :: after)) (.call p a (before ++ b' :: after))

/-- The frame with the name replaced among the names it binds. -/
def frame : Frame → Frame := Frame.map ρ.name id

/-! ### What may differ -/

/-- Texts that are equal, or those of a closure and of the closure with its parameters renamed. -/
inductive Texts : String → String → Prop where
  | same (text : String) : Texts text text
  | closure {c c' : Closure} (hc : c'.params = c.params.map ρ.name) : Texts c.text c'.text

/-- Causes that say the same in the old name and in the new one: the parameter was declared
again, or a closure stood where it does not belong. -/
inductive Causes : Cause → Cause → Prop where
  | declaredAgain : Causes (.duplicateDeclaration ρ.old) (.duplicateDeclaration ρ.new)
  | described {cause : String → Cause} (hc : Cause.Describing cause) {text text' : String}
      (ht : ρ.Texts text text') :
      Causes (cause ("FwClosure" ++ " " ++ text)) (cause ("FwClosure" ++ " " ++ text'))

/-- Faults that are equal, or at the same place and with causes that say the same. -/
inductive Faults : Fault → Fault → Prop where
  | same (fault : Fault) : Faults fault fault
  | error {cause cause' : Cause} (hc : ρ.Causes cause cause') (place : Option Place) :
      Faults (.error ⟨cause, place⟩) (.error ⟨cause', place⟩)

/-- Closures that captured the same frame, made by functions that are equal, that differ in the
renamed function only, or that stand inside of it and are renamed all through. -/
def Closures (c c' : Closure) : Prop :=
  c'.frame = c.frame ∧
    (c'.params = c.params ∧ (c'.body = c.body ∨ ρ.OfParameter c.body c'.body) ∨
      c'.params = c.params.map ρ.name ∧ c'.body = ρ.expr c.body)

/-- States that show the same. Frame for frame the bindings are equal or equal up to the name,
and those of the first frame, which is global, are equal. -/
structure States (s t : State) : Prop where
  global : t.heap.frames[0]? = s.heap.frames[0]?
  frames : List.Forall₂ (fun f f' => f' = f ∨ f' = ρ.frame f) s.heap.frames.toList
    t.heap.frames.toList
  closures : List.Forall₂ ρ.Closures s.heap.closures.toList t.heap.closures.toList
  printed : List.Forall₂ ρ.Texts s.printed.toList t.printed.toList

/-- Results that are the same value, or faults of one kind that say the same, with states that
show the same. -/
inductive Results : EStateM.Result Fault State Value → EStateM.Result Fault State Value → Prop where
  | value (v : Value) {s t : State} (hs : ρ.States s t) : Results (.ok v s) (.ok v t)
  | fault {φ ψ : Fault} {s t : State} (hk : ψ.kind? = φ.kind?) (hf : ρ.Faults φ ψ)
      (hs : ρ.States s t) : Results (.error φ s) (.error ψ t)

variable {ρ}

theorem Causes.kind_eq {cause cause' : Cause} (h : ρ.Causes cause cause') :
    cause'.kind = cause.kind := by
  cases h with
  | declaredAgain => rfl
  | described hc _ => cases hc <;> rfl

theorem Faults.kind?_eq {φ ψ : Fault} (h : ρ.Faults φ ψ) : ψ.kind? = φ.kind? := by
  cases h with
  | same => rfl
  | error hc _ => exact congrArg some hc.kind_eq

theorem Faults.stamp {φ ψ : Fault} (h : ρ.Faults φ ψ) (pos : Option Position) :
    ρ.Faults (φ.stamp pos) (ψ.stamp pos) := by
  cases h with
  | same fault => exact .same _
  | @error cause cause' hc place =>
    have hd : cause ≠ .depthExceeded ∧ cause' ≠ .depthExceeded := by
      cases hc with
      | declaredAgain => simp
      | described hc _ => cases hc <;> simp
    cases place with
    | none => simpa [Fault.stamp, Error.stamp, hd.1, hd.2] using Faults.error hc _
    | some place => exact .error hc (some place)

theorem exprs_eq_map (es : List Expr) : ρ.exprs es = es.map ρ.expr := by
  induction es with
  | nil => rfl
  | cons e es ih => rw [exprs, ih, List.map_cons]

theorem pos_expr (e : Expr) : (ρ.expr e).pos = e.pos := by
  cases e <;> simp [expr, Expr.pos]

theorem OfParameter.pos_eq {e e' : Expr} (h : ρ.OfParameter e e') : e'.pos = e.pos := by
  cases h <;> rfl

/-! ### Names in a frame -/

/-- In a frame that does not bind the new name, no two names become one. -/
theorem name_iff {f : Frame} (hf : f.binds ρ.new = false) {x : String} (hx : x ≠ ρ.new) :
    ∀ y ∈ f.names, ρ.name y = ρ.name x ↔ y = x := by
  intro y hy
  have hnew : y ≠ ρ.new := by
    rintro rfl
    simp [Frame.binds, hy] at hf
  unfold name
  grind

theorem binds_frame {f : Frame} (hf : f.binds ρ.new = false) {x : String} (hx : x ≠ ρ.new) :
    (ρ.frame f).binds (ρ.name x) = f.binds x :=
  Frame.binds_map (name_iff hf hx)

theorem get?_frame {f : Frame} (hf : f.binds ρ.new = false) {x : String} (hx : x ≠ ρ.new) :
    (ρ.frame f).get? (ρ.name x) = f.get? x := by
  rw [frame, Frame.get?_map (name_iff hf hx), Option.map_id_fun, id]

theorem put_frame {f : Frame} (hf : f.binds ρ.new = false) {x : String} (hx : x ≠ ρ.new)
    (v : Value) : (ρ.frame f).put (ρ.name x) v = ρ.frame (f.put x v) :=
  Frame.put_map (name_iff hf hx) v

end Renaming

end Scriptlet
