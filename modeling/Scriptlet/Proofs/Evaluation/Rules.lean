import Scriptlet.Evaluation.State
import Scriptlet.Operation
import Scriptlet.Proofs.Heap.Scope

/-! The rules of evaluation, construct by construct. A rule says what an expression gives in a
frame of a heap, the heap it leaves and the lines it prints. The rules do not invoke the
evaluator: names are found by walking outward, rows of statements and loops unroll one step at a
time, and nothing bounds how deep or how long an evaluation goes. -/

namespace Scriptlet

/-- What can be evaluated: one expression, several from left to right, or what is left of a loop
whose last round gave `last`. -/
inductive Task where
  | expr (e : Expr)
  | list (es : List Expr)
  | loop (test body : Expr) (last : Value)

/-- What an evaluation gives. A fault stands here without its place. -/
inductive Outcome where
  | value (v : Value)
  | values (vs : List Value)
  | failure (why : Fault)

/-- The fault of an error that has no place yet. -/
def Fault.ofCause (cause : Cause) : Fault := .error ⟨cause, none⟩

/-- The fault that names a value. A number with too many digits cannot be named. -/
def Fault.about (h : Heap) (v : Value) (cause : String → Cause) : Fault :=
  if v.writable then .ofCause (cause (h.describe v)) else .numberTooLong

namespace Operator

/-- What an operator makes of two operands. -/
inductive Computes : Operator → Value → Value → Value → Prop where
  | add (a b : Int) : Computes .add (.number a) (.number b) (.number (a + b))
  | sub (a b : Int) : Computes .sub (.number a) (.number b) (.number (a - b))
  | mul (a b : Int) : Computes .mul (.number a) (.number b) (.number (a * b))
  | div (a b : Int) (hb : b ≠ 0) : Computes .div (.number a) (.number b) (.number (a.tdiv b))
  | mod (a b : Int) (hb : b ≠ 0) : Computes .mod (.number a) (.number b) (.number (a.tmod b))
  | eq (v w : Value) : Computes .eq v w (.bool (v = w))
  | ge (a b : Int) : Computes .ge (.number a) (.number b) (.bool (b ≤ a))
  | gt (a b : Int) : Computes .gt (.number a) (.number b) (.bool (b < a))
  | le (a b : Int) : Computes .le (.number a) (.number b) (.bool (a ≤ b))
  | lt (a b : Int) : Computes .lt (.number a) (.number b) (.bool (a < b))

/-- Why an operator refuses two operands. A left operand that is no number comes first. -/
inductive Refuses (h : Heap) : Operator → Value → Value → Cause → Prop where
  | left {op v w} (hop : op ≠ .eq) (hv : ∀ n, v ≠ .number n) :
      Refuses h op v w (.typeMismatch op (h.describe v))
  | right {op n w} (hop : op ≠ .eq) (hw : ∀ m, w ≠ .number m) :
      Refuses h op (.number n) w (.typeMismatch op (h.describe w))
  | division (a : Int) : Refuses h .div (.number a) (.number 0) .divisionByZero
  | modulo (a : Int) : Refuses h .mod (.number a) (.number 0) .moduloByZero

end Operator

/-- Names become variables of a frame one after another, up to the first that it binds. -/
inductive Heap.Declares (f : Nat) : List (String × Value) → Heap → Option String → Heap → Prop where
  | done (h) : Declares f [] h none h
  | next {name v rest h repeated h'} (hb : h.binds f name = false) :
      Declares f rest (h.put f name v) repeated h' →
      Declares f ((name, v) :: rest) h repeated h'
  | repeated {name v rest h} (hb : h.binds f name = true) :
      Declares f ((name, v) :: rest) h (some name) h

/-- `Evaluates task f h outcome h' lines`: in the frame `f` of the heap `h` the task gives the
outcome, leaves the heap `h'` and prints the lines. -/
inductive Evaluates : Task → Nat → Heap → Outcome → Heap → List String → Prop where
  | const {pos v f h} : Evaluates (.expr (.const pos v)) f h (.value v) h []
  | bound {pos name f g v h} (hn : h.Nearest name f g) (hv : h.get? g name = some v) :
      Evaluates (.expr (.var pos name)) f h (.value v) h []
  | unboundLax {pos name f g h} (hu : h.Unbound name f g) (hs : h.strict f = false) :
      Evaluates (.expr (.var pos name)) f h (.value .null) h []
  | unboundStrict {pos name f g h} (hu : h.Unbound name f g) (hs : h.strict f = true) :
      Evaluates (.expr (.var pos name)) f h (.failure (.ofCause (.unboundVariable name))) h []
  | print {pos arg f h v h₁ l₁} (hv : v.writable = true) :
      Evaluates (.expr arg) f h (.value v) h₁ l₁ →
      Evaluates (.expr (.print pos arg)) f h (.value v) h₁ (l₁ ++ [h₁.text v])
  | printTooLong {pos arg f h v h₁ l₁} (hv : v.writable = false) :
      Evaluates (.expr arg) f h (.value v) h₁ l₁ →
      Evaluates (.expr (.print pos arg)) f h (.failure .numberTooLong) h₁ l₁
  | printFails {pos arg f h why h₁ l₁} :
      Evaluates (.expr arg) f h (.failure why) h₁ l₁ →
      Evaluates (.expr (.print pos arg)) f h (.failure why) h₁ l₁
  | binary {pos op left right f h a h₁ l₁ b h₂ l₂ v} (hc : op.Computes a b v) :
      Evaluates (.expr left) f h (.value a) h₁ l₁ →
      Evaluates (.expr right) f h₁ (.value b) h₂ l₂ →
      Evaluates (.expr (.binary pos op left right)) f h (.value v) h₂ (l₁ ++ l₂)
  | binaryRefused {pos op left right f h a h₁ l₁ b h₂ l₂ cause}
      (hr : op.Refuses h₂ a b cause) :
      Evaluates (.expr left) f h (.value a) h₁ l₁ →
      Evaluates (.expr right) f h₁ (.value b) h₂ l₂ →
      Evaluates (.expr (.binary pos op left right)) f h (.failure (.ofCause cause)) h₂ (l₁ ++ l₂)
  | leftFails {pos op left right f h why h₁ l₁} :
      Evaluates (.expr left) f h (.failure why) h₁ l₁ →
      Evaluates (.expr (.binary pos op left right)) f h (.failure why) h₁ l₁
  | rightFails {pos op left right f h a h₁ l₁ why h₂ l₂} :
      Evaluates (.expr left) f h (.value a) h₁ l₁ →
      Evaluates (.expr right) f h₁ (.failure why) h₂ l₂ →
      Evaluates (.expr (.binary pos op left right)) f h (.failure why) h₂ (l₁ ++ l₂)
  | condYes {pos test yes no f h h₁ l₁ o h₂ l₂} :
      Evaluates (.expr test) f h (.value (.bool true)) h₁ l₁ →
      Evaluates (.expr yes) f h₁ o h₂ l₂ →
      Evaluates (.expr (.cond pos test yes no)) f h o h₂ (l₁ ++ l₂)
  | condNo {pos test yes no f h h₁ l₁ o h₂ l₂} :
      Evaluates (.expr test) f h (.value (.bool false)) h₁ l₁ →
      Evaluates (.expr no) f h₁ o h₂ l₂ →
      Evaluates (.expr (.cond pos test yes no)) f h o h₂ (l₁ ++ l₂)
  | condInvalid {pos test yes no f h v h₁ l₁} (hv : ∀ b, v ≠ .bool b) :
      Evaluates (.expr test) f h (.value v) h₁ l₁ →
      Evaluates (.expr (.cond pos test yes no)) f h
        (.failure (.about h₁ v (.invalidCondition .branch))) h₁ l₁
  | condFails {pos test yes no f h why h₁ l₁} :
      Evaluates (.expr test) f h (.failure why) h₁ l₁ →
      Evaluates (.expr (.cond pos test yes no)) f h (.failure why) h₁ l₁
  -- a loop that has not gone round yet has null as its running value
  | loop {pos test body f h o h₁ l₁} :
      Evaluates (.loop test body .null) f h o h₁ l₁ →
      Evaluates (.expr (.loop pos test body)) f h o h₁ l₁
  | loopEnds {test body last f h h₁ l₁} :
      Evaluates (.expr test) f h (.value (.bool false)) h₁ l₁ →
      Evaluates (.loop test body last) f h (.value last) h₁ l₁
  | loopRound {test body last f h h₁ l₁ v h₂ l₂ o h₃ l₃} :
      Evaluates (.expr test) f h (.value (.bool true)) h₁ l₁ →
      Evaluates (.expr body) f h₁ (.value v) h₂ l₂ →
      Evaluates (.loop test body v) f h₂ o h₃ l₃ →
      Evaluates (.loop test body last) f h o h₃ (l₁ ++ (l₂ ++ l₃))
  | loopInvalid {test body last f h v h₁ l₁} (hv : ∀ b, v ≠ .bool b) :
      Evaluates (.expr test) f h (.value v) h₁ l₁ →
      Evaluates (.loop test body last) f h
        (.failure (.about h₁ v (.invalidCondition .loop))) h₁ l₁
  | loopTestFails {test body last f h why h₁ l₁} :
      Evaluates (.expr test) f h (.failure why) h₁ l₁ →
      Evaluates (.loop test body last) f h (.failure why) h₁ l₁
  | loopBodyFails {test body last f h h₁ l₁ why h₂ l₂} :
      Evaluates (.expr test) f h (.value (.bool true)) h₁ l₁ →
      Evaluates (.expr body) f h₁ (.failure why) h₂ l₂ →
      Evaluates (.loop test body last) f h (.failure why) h₂ (l₁ ++ l₂)
  | seq {pos first second f h v h₁ l₁ o h₂ l₂} :
      Evaluates (.expr first) f h (.value v) h₁ l₁ →
      Evaluates (.expr second) f h₁ o h₂ l₂ →
      Evaluates (.expr (.seq pos first second)) f h o h₂ (l₁ ++ l₂)
  | seqFails {pos first second f h why h₁ l₁} :
      Evaluates (.expr first) f h (.failure why) h₁ l₁ →
      Evaluates (.expr (.seq pos first second)) f h (.failure why) h₁ l₁
  | declare {pos name init f h v h₁ l₁} (hb : h₁.binds f name = false) :
      Evaluates (.expr init) f h (.value v) h₁ l₁ →
      Evaluates (.expr (.declare pos name init)) f h (.value v) (h₁.put f name v) l₁
  | declareDuplicate {pos name init f h v h₁ l₁} (hb : h₁.binds f name = true) :
      Evaluates (.expr init) f h (.value v) h₁ l₁ →
      Evaluates (.expr (.declare pos name init)) f h
        (.failure (.ofCause (.duplicateDeclaration name))) h₁ l₁
  | declareFails {pos name init f h why h₁ l₁} :
      Evaluates (.expr init) f h (.failure why) h₁ l₁ →
      Evaluates (.expr (.declare pos name init)) f h (.failure why) h₁ l₁
  | assign {pos name rhs f g h v h₁ l₁} (hn : h₁.Nearest name f g) :
      Evaluates (.expr rhs) f h (.value v) h₁ l₁ →
      Evaluates (.expr (.assign pos name rhs)) f h (.value v) (h₁.put g name v) l₁
  | assignGlobal {pos name rhs f g h v h₁ l₁} (hu : h₁.Unbound name f g) :
      Evaluates (.expr rhs) f h (.value v) h₁ l₁ →
      Evaluates (.expr (.assign pos name rhs)) f h (.value v) (h₁.put g name v) l₁
  | assignFails {pos name rhs f h why h₁ l₁} :
      Evaluates (.expr rhs) f h (.failure why) h₁ l₁ →
      Evaluates (.expr (.assign pos name rhs)) f h (.failure why) h₁ l₁
  | func {pos params body f h} :
      Evaluates (.expr (.func pos params body)) f h (.value (.closure h.closures.size))
        (h.pushClosure ⟨params, body, f⟩) []
  | call {pos callee args f h v h₁ l₁ c vs h₂ l₂ h₃ o h₄ l₃} (hc : h₁.closure? v = some c)
      (hlen : vs.length = c.params.length)
      (hd : Heap.Declares h₂.frames.size (c.params.zip vs) (h₂.pushFrame (some c.frame) none)
        none h₃) :
      Evaluates (.expr callee) f h (.value v) h₁ l₁ →
      Evaluates (.list args) f h₁ (.values vs) h₂ l₂ →
      Evaluates (.expr c.body) h₂.frames.size h₃ o h₄ l₃ →
      Evaluates (.expr (.call pos callee args)) f h o h₄ (l₁ ++ (l₂ ++ l₃))
  | calleeFails {pos callee args f h why h₁ l₁} :
      Evaluates (.expr callee) f h (.failure why) h₁ l₁ →
      Evaluates (.expr (.call pos callee args)) f h (.failure why) h₁ l₁
  | notCallable {pos callee args f h v h₁ l₁} (hc : h₁.closure? v = none) :
      Evaluates (.expr callee) f h (.value v) h₁ l₁ →
      Evaluates (.expr (.call pos callee args)) f h
        (.failure (.about h₁ v .notCallable)) h₁ l₁
  | argumentFails {pos callee args f h v h₁ l₁ c why h₂ l₂} (hc : h₁.closure? v = some c) :
      Evaluates (.expr callee) f h (.value v) h₁ l₁ →
      Evaluates (.list args) f h₁ (.failure why) h₂ l₂ →
      Evaluates (.expr (.call pos callee args)) f h (.failure why) h₂ (l₁ ++ l₂)
  | arityMismatch {pos callee args f h v h₁ l₁ c vs h₂ l₂} (hc : h₁.closure? v = some c)
      (hlen : vs.length ≠ c.params.length) :
      Evaluates (.expr callee) f h (.value v) h₁ l₁ →
      Evaluates (.list args) f h₁ (.values vs) h₂ l₂ →
      Evaluates (.expr (.call pos callee args)) f h
        (.failure (.ofCause (.arityMismatch c.params.length vs.length))) h₂ (l₁ ++ l₂)
  | parameterRepeated {pos callee args f h v h₁ l₁ c vs h₂ l₂ name h₃}
      (hc : h₁.closure? v = some c) (hlen : vs.length = c.params.length)
      (hd : Heap.Declares h₂.frames.size (c.params.zip vs) (h₂.pushFrame (some c.frame) none)
        (some name) h₃) :
      Evaluates (.expr callee) f h (.value v) h₁ l₁ →
      Evaluates (.list args) f h₁ (.values vs) h₂ l₂ →
      Evaluates (.expr (.call pos callee args)) f h
        (.failure (.ofCause (.duplicateDeclaration name))) h₃ (l₁ ++ l₂)
  | foreign {type f h} :
      Evaluates (.expr (.foreign type)) f h (.failure (.ofCause (.unknownNode type))) h []
  | nil {f h} : Evaluates (.list []) f h (.values []) h []
  | cons {e es f h v h₁ l₁ vs h₂ l₂} :
      Evaluates (.expr e) f h (.value v) h₁ l₁ →
      Evaluates (.list es) f h₁ (.values vs) h₂ l₂ →
      Evaluates (.list (e :: es)) f h (.values (v :: vs)) h₂ (l₁ ++ l₂)
  | headFails {e es f h why h₁ l₁} :
      Evaluates (.expr e) f h (.failure why) h₁ l₁ →
      Evaluates (.list (e :: es)) f h (.failure why) h₁ l₁
  | tailFails {e es f h v h₁ l₁ why h₂ l₂} :
      Evaluates (.expr e) f h (.value v) h₁ l₁ →
      Evaluates (.list es) f h₁ (.failure why) h₂ l₂ →
      Evaluates (.list (e :: es)) f h (.failure why) h₂ (l₁ ++ l₂)

end Scriptlet
