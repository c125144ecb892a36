import Scriptlet.Proofs.Evaluation.Code
import Scriptlet.Proofs.Evaluation.Failure

/-! Where errors are placed. When an error is raised, a whole stack of nodes is being evaluated. The
innermost one of them that has a position gives it to the error, with one exception: a row of
statements is walked through by one evaluation, so what is left of a row at some point gets no turn
of its own. -/

namespace Scriptlet

open EvalM

namespace Expr

theorem operands_of_isRow {e : Expr} (he : e.isRow = true) : e.operands = e.row := by
  cases e with
  | seq => rfl
  | _ => cases he

theorem row_of_not_isRow {e : Expr} (he : e.isRow = false) : e.row = [e] := by
  cases e with
  | seq => cases he
  | _ => rfl

end Expr

/-- A node that is being evaluated. Its evaluation was begun, or it is what is left of a row of
statements at the point that the evaluation of the row has come to. -/
inductive Stack.Entry where
  | begun (e : Expr)
  | rest (e : Expr)

namespace Stack.Entry

def expr : Stack.Entry → Expr
  | .begun e | .rest e => e

/-- The position that an error can take from the node. -/
def stamp : Stack.Entry → Option Position
  | .begun e => e.pos
  | .rest _ => none

end Stack.Entry

/-- The nodes that are being evaluated, the innermost one first, at some point of an evaluation that
may go `depth` levels deep. A node is being evaluated while one of its parts is, or the body of a
function that it calls. The innermost one comes with its frame and with the state in which it is
begun, and with the levels that are left. -/
inductive Stack (rounds depth : Nat) (root : Activation) :
    List Stack.Entry → Nat → Activation → Prop where
  | root : Stack rounds depth root [.begun root.expr] depth root
  | call {es d a b} (ha : Stack rounds depth root es (d + 1) a) (hrow : a.expr.isRow = false)
      (hb : (evalWithin rounds d).Calls rounds a b) :
      Stack rounds depth root (.begun b.expr :: es) d b
  | first {es d p e₁ e₂ f s} (ha : Stack rounds depth root es (d + 1) ⟨.seq p e₁ e₂, f, s⟩) :
      Stack rounds depth root (.begun e₁ :: es) d ⟨e₁, f, s⟩
  | second {es d p e₁ e₂ f s v s'}
      (ha : Stack rounds depth root es (d + 1) ⟨.seq p e₁ e₂, f, s⟩)
      (he : evalWithin rounds d e₁ f s = .ok v s') (hrow : e₂.isRow = false) :
      Stack rounds depth root (.begun e₂ :: es) d ⟨e₂, f, s'⟩
  | rest {es d p e₁ e₂ f s v s'}
      (ha : Stack rounds depth root es (d + 1) ⟨.seq p e₁ e₂, f, s⟩)
      (he : evalWithin rounds d e₁ f s = .ok v s') (hrow : e₂.isRow = true) :
      Stack rounds depth root (.rest e₂ :: es) (d + 1) ⟨e₂, f, s'⟩

variable {rounds depth d : Nat} {root a : Activation} {es : List Stack.Entry}

/-! ### Stacks and evaluations -/

/-- A statement of a row that is being evaluated. -/
theorem Stack.statement {e part : Expr} {before after : List Expr} {f : Nat} {s s' : State}
    {vs : List Value} (hs : Stack rounds depth root es (d + 1) ⟨e, f, s⟩) (hrow : e.isRow = true)
    (he : e.row = before ++ part :: after)
    (hvs : (evalWithin rounds d).list f before s = .ok vs s') :
    ∃ es', Stack rounds depth root es' d ⟨part, f, s'⟩ := by
  induction e generalizing es before s vs with
  | seq p first second _ ih =>
    cases before with
    | nil =>
      obtain ⟨rfl, -⟩ := List.cons.inj he
      cases hvs
      exact ⟨_, hs.first⟩
    | cons x before =>
      obtain ⟨rfl, hrest⟩ : first = x ∧ second.row = before ++ part :: after := List.cons.inj he
      obtain ⟨v, s₁, hv, hvs⟩ := bind_eq_ok_iff.mp hvs
      obtain ⟨ws, s₂, hws, hpure⟩ := bind_eq_ok_iff.mp hvs
      cases hpure
      cases hsecond : second.isRow with
      | true => exact ih (hs.rest hv hsecond) hsecond hrest hws
      | false =>
        rw [Expr.row_of_not_isRow hsecond, List.singleton_eq_append_iff] at hrest
        obtain ⟨rfl, hpart⟩ | ⟨-, hpart⟩ := hrest
        · cases hpart
          cases hws
          exact ⟨_, hs.second hv hsecond⟩
        · cases hpart
  | _ => cases hrow

/-- Every evaluation that is begun stands on a stack. -/
theorem Within.exists_stack (ha : Within rounds depth root d a) :
    ∃ es, Stack rounds depth root es d a := by
  induction ha with
  | root => exact ⟨_, .root⟩
  | @call d a b _ hb ih =>
    obtain ⟨es, hs⟩ := ih
    cases hrow : a.expr.isRow with
    | false => exact ⟨_, hs.call hrow hb⟩
    | true =>
      cases hb with
      | operand he hvs => exact hs.statement hrow (by rwa [Expr.operands_of_isRow hrow] at he) hvs
      | entry happ => cases happ; cases hrow
      | _ => cases hrow

/-- What stands on top of a stack is an evaluation that is begun, or what is left of a row whose
evaluation is begun. -/
structure Reached (rounds depth : Nat) (root : Activation) (d : Nat) (a : Activation) : Prop where
  begun : a.expr.isRow = false → Within rounds depth root d a
  row {d'} : d = d' + 1 → a.expr.isRow = true → ∃ b before vs,
    Within rounds depth root (d' + 1) b ∧ b.frame = a.frame ∧
    b.expr.operands = before ++ a.expr.row ∧
    (evalWithin rounds d').list b.frame before b.state = .ok vs a.state

theorem Within.reached (ha : Within rounds depth root d a) : Reached rounds depth root d a where
  begun _ := ha
  row {d'} hd hrow := by
    subst hd
    exact ⟨a, [], [], ha, rfl, Expr.operands_of_isRow hrow, rfl⟩

theorem Evaluator.list_concat {ev : Evaluator} {es : List Expr} {e : Expr} {f : Nat}
    {s s₁ s₂ : State} {vs : List Value} {v : Value} (hes : ev.list f es s = .ok vs s₁)
    (he : ev e f s₁ = .ok v s₂) : ev.list f (es ++ [e]) s = .ok (vs ++ [v]) s₂ := by
  induction es generalizing s vs with
  | nil =>
    cases hes
    exact list_cons_ok he rfl
  | cons x es ih =>
    obtain ⟨w, s', hx, hes⟩ := bind_eq_ok_iff.mp hes
    obtain ⟨ws, s'', hws, hpure⟩ := bind_eq_ok_iff.mp hes
    cases hpure
    exact list_cons_ok hx (ih hws)

theorem Stack.reached (hs : Stack rounds depth root es d a) : Reached rounds depth root d a := by
  induction hs with
  | root => exact Within.root.reached
  | call _ hrow hb ih => exact ((ih.begun hrow).call hb).reached
  | first _ ih =>
    obtain ⟨b, before, vs, hb, rfl, hrow, hvs⟩ := ih.row rfl rfl
    exact (hb.call (.operand hrow hvs)).reached
  | second _ he hrow ih =>
    obtain ⟨b, before, vs, hb, rfl, hops, hvs⟩ := ih.row rfl rfl
    rw [Expr.row, Expr.row_of_not_isRow hrow, ← List.singleton_append, ← List.append_assoc] at hops
    exact (hb.call (.operand hops (Evaluator.list_concat hvs he))).reached
  | rest _ he hrow ih =>
    refine ⟨fun hnot => by simp [hrow] at hnot, fun hd _ => ?_⟩
    cases hd
    obtain ⟨b, before, vs, hb, rfl, hops, hvs⟩ := ih.row rfl rfl
    refine ⟨b, before ++ [_], vs ++ [_], hb, rfl, ?_, Evaluator.list_concat hvs he⟩
    rw [hops, Expr.row, List.append_assoc, List.singleton_append]

/-! ### What a stack does to a fault -/

/-- A fault that goes through a stack, from the innermost node outward. -/
def Fault.through (fault : Fault) (es : List Stack.Entry) : Fault :=
  es.foldl (fun φ entry => φ.stamp entry.stamp) fault

/-- When what stands on top of a stack fails, the whole evaluation does. -/
theorem Stack.result_error {fault : Fault} {s : State}
    (hs : Stack rounds depth root es (d + 1) a)
    (hr : Evaluator.step (evalWithin rounds d) rounds a.expr a.frame a.state = .error fault s) :
    root.result rounds depth = .error (fault.through es) s := by
  generalize hd : d + 1 = levels at hs
  induction hs generalizing d fault with
  | root =>
    subst hd
    exact Activation.result_error_iff.mpr ⟨fault, hr, rfl⟩
  | call _ _ hb ih =>
    subst hd
    have hbegun := Activation.result_error_iff.mpr ⟨fault, hr, rfl⟩
    exact ih (hb.step_error hbegun) rfl
  | first _ ih =>
    subst hd
    have hbegun := Activation.result_error_iff.mpr ⟨fault, hr, rfl⟩
    exact ih (Evaluator.Calls.step_error (.first rfl) hbegun) rfl
  | @second _ _ p e₁ e₂ _ _ _ _ _ he hrow ih =>
    subst hd
    have hbegun := Activation.result_error_iff.mpr ⟨fault, hr, rfl⟩
    have hops : (Expr.seq p e₁ e₂).operands = [e₁, e₂] := by
      rw [Expr.operands, Expr.row, Expr.row_of_not_isRow hrow]
    exact ih (Evaluator.Calls.step_error (.second hops he) hbegun) rfl
  | @rest _ d' p e₁ e₂ f s₀ _ _ _ he hrow ih =>
    cases hd
    have hstep : Evaluator.step (evalWithin rounds d') rounds (.seq p e₁ e₂) f s₀ =
        .error fault s := by
      rw [Evaluator.step, Evaluator.statements, bind_of_ok he]
      cases e₂ with
      | seq => exact hr
      | _ => cases hrow
    rw [ih hstep rfl]
    simp [Fault.through, Stack.Entry.stamp, Fault.stamp_none]

/-! ### Where errors are placed -/

/-- The position of the innermost node that has one. -/
def innermost (es : List Stack.Entry) : Option Position := es.findSome? (·.expr.pos)

/-- The position of the innermost node that has one and whose evaluation was begun. -/
def innermostBegun (es : List Stack.Entry) : Option Position := es.findSome? Stack.Entry.stamp

@[simp] theorem innermost_cons (entry : Stack.Entry) (es : List Stack.Entry) :
    innermost (entry :: es) = entry.expr.pos.or (innermost es) := by
  rw [innermost, List.findSome?_cons]
  cases entry.expr.pos <;> rfl

@[simp] theorem innermostBegun_cons (entry : Stack.Entry) (es : List Stack.Entry) :
    innermostBegun (entry :: es) = entry.stamp.or (innermostBegun es) := by
  rw [innermostBegun, List.findSome?_cons]
  cases entry.stamp <;> rfl

theorem Fault.Settled.through {fault : Fault} (hfault : fault.Settled) (es : List Stack.Entry) :
    fault.through es = fault := by
  induction es with
  | nil => rfl
  | cons entry es ih =>
    rw [Fault.through, List.foldl_cons, hfault]
    exact ih

/-- The innermost node with a turn of its own places an error, once and for all. -/
theorem Fault.through_ofCause {cause : Cause} (hcause : cause ≠ .depthExceeded)
    (es : List Stack.Entry) :
    (Fault.ofCause cause).through es =
      .error ⟨cause, (innermostBegun es).map .ofPosition⟩ := by
  induction es with
  | nil => rfl
  | cons entry es ih =>
    rw [Fault.through, List.foldl_cons, innermostBegun_cons]
    cases entry.stamp with
    | none =>
      rw [Fault.stamp_none]
      exact ih
    | some pos =>
      rw [Fault.stamp_ofCause hcause]
      exact (Fault.settled_placed cause _).through es

/-- An error is placed by the innermost node that has a position and a turn of its own. -/
theorem Stack.places {cause : Cause} {s : State} (hs : Stack rounds depth root es (d + 1) a)
    (hr : (evalWithin rounds d).Raises rounds a (.ofCause cause) s) :
    root.result rounds depth =
      .error (.error ⟨cause, (innermostBegun es).map .ofPosition⟩) s := by
  rw [hs.result_error hr.step_error, Fault.through_ofCause hr.ne_depthExceeded]

namespace Expr

/-- What is left of a row behind its first statement has no position, unless it is no row. -/
def bareRest : Expr → Bool
  | .seq _ _ second => !second.isRow || second.pos.isNone
  | _ => true

def BareRests (e : Expr) : Prop := ∀ node ∈ e.all, node.bareRest = true

instance (e : Expr) : Decidable e.BareRests :=
  inferInstanceAs (Decidable (∀ node ∈ e.all, node.bareRest = true))

theorem BareRests.part {e part : Expr} (he : e.BareRests) (hp : part ∈ e.parts) :
    part.BareRests := fun node hmem => he node (all_subset_of_part hp hmem)

theorem BareRests.pos_eq_none {pos : Option Position} {first second : Expr}
    (he : (Expr.seq pos first second).BareRests) (hrow : second.isRow = true) :
    second.pos = none := by
  simpa [bareRest, hrow] using he _ (mem_all_self _)

end Expr

section

variable (hroot : root.expr.BareRests) (hheap : root.state.heap.MadeFrom Expr.BareRests)
include hroot hheap

theorem Stack.bareRests (hs : Stack rounds depth root es d a) : a.expr.BareRests := by
  induction hs with
  | root => exact hroot
  | call ha hrow hb _ => exact ((ha.reached.begun hrow).call hb).code .part hroot hheap
  | first _ ih | second _ _ _ ih | rest _ _ _ ih => exact ih.part (by simp [Expr.parts])

/-- Where what is left of a row never has a position, nothing is passed over. -/
theorem Stack.innermostBegun_eq (hs : Stack rounds depth root es d a) :
    innermostBegun es = innermost es := by
  induction hs with
  | root => rfl
  | call _ _ _ ih | first _ ih | second _ _ _ ih =>
    rw [innermostBegun_cons, innermost_cons, ih]
    rfl
  | rest ha _ hrow ih =>
    have hpos := (ha.bareRests hroot hheap).pos_eq_none hrow
    rw [innermostBegun_cons, innermost_cons, ih, Stack.Entry.expr, hpos, Stack.Entry.stamp]

end

/-- Evaluation fails with an error that is not about depth exactly when some node on a stack fails
by itself. The error then has the position of the innermost node of the stack that has one, what is
left of a row not counted. Where no such rest has a position, that is the innermost node of all. -/
theorem eval_error_iff_stack (limits : Limits) (e : Expr) (f : Nat) (s : State) :
    (∀ cause place s', cause.kind ≠ .recursionDepth →
      (limits.eval e f s = .error (.error ⟨cause, place⟩) s' ↔
        ∃ es d a, Stack limits.rounds limits.depth ⟨e, f, s⟩ es (d + 1) a ∧
          (evalWithin limits.rounds d).Raises limits.rounds a (.ofCause cause) s' ∧
          place = (innermostBegun es).map .ofPosition)) ∧
    (e.BareRests → s.heap.MadeFrom Expr.BareRests → ∀ es d a,
      Stack limits.rounds limits.depth ⟨e, f, s⟩ es d a → innermostBegun es = innermost es) := by
  refine ⟨fun cause place s' hkind => ⟨fun hfails => ?_, ?_⟩,
    fun he hheap es d a hs => hs.innermostBegun_eq he hheap⟩
  · have hresult : Activation.result ⟨e, f, s⟩ limits.rounds limits.depth =
        .error (.error ⟨cause, place⟩) s' := hfails
    obtain hdepth | ⟨d, a, ha, hraise⟩ := Activation.exists_raises hresult
    · exact absurd (Option.some.inj hdepth) hkind
    · obtain ⟨es, hs⟩ := ha.exists_stack
      -- the stack settles the place, and there is one result only
      have hplaces := hresult.symm.trans (hs.places hraise)
      cases hplaces
      exact ⟨es, d, a, hs, hraise, rfl⟩
  · rintro ⟨es, d, a, hs, hraise, rfl⟩
    exact hs.places hraise

/-- A division by zero in a function whose code has no positions is placed at the call. -/
theorem division_placed_at_call :
    let body : Expr := .seq none (.declare none "m" (.var none "n"))
      (.seq none (.binary none .div (.const none (.number 1)) (.var none "n")) (.const none .null))
    let e : Expr := .declare (some ⟨1, 1⟩) "m"
      (.call (some ⟨2, 3⟩) (.func none ["n"] body) [.const none (.number 0)])
    let s : State := .fresh true
    Cause.kind .divisionByZero ≠ .recursionDepth ∧ e.BareRests ∧
      s.heap.MadeFrom Expr.BareRests ∧
      ∃ s', (⟨5, 0⟩ : Limits).eval e 0 s =
        .error (.error ⟨.divisionByZero, some (.ofPosition ⟨2, 3⟩)⟩) s' ∧
      ∃ es d a, Stack 0 5 ⟨e, 0, s⟩ es (d + 1) a ∧
        (evalWithin 0 d).Raises 0 a (.ofCause .divisionByZero) s' ∧
        innermost es = some ⟨2, 3⟩ := by
  intro body e s
  have hkind : Cause.kind .divisionByZero ≠ .recursionDepth := by decide
  have he : e.BareRests := by decide +kernel
  have hheap : s.heap.MadeFrom Expr.BareRests := fun hc => by cases hc
  obtain ⟨s', hfails⟩ : ∃ s', (⟨5, 0⟩ : Limits).eval e 0 s =
      .error (.error ⟨.divisionByZero, some (.ofPosition ⟨2, 3⟩)⟩) s' :=
    ⟨_, by with_unfolding_all rfl⟩
  obtain ⟨hplaced, hall⟩ := eval_error_iff_stack ⟨5, 0⟩ e 0 s
  obtain ⟨es, d, a, hs, hraise, hplace⟩ := (hplaced _ _ _ hkind).mp hfails
  rw [hall he hheap _ _ _ hs] at hplace
  obtain ⟨⟨line, column⟩, hinner, hpos⟩ := Option.map_eq_some_iff.mp hplace.symm
  cases hpos
  exact ⟨hkind, he, hheap, s', hfails, es, d, a, hs, hraise, hinner⟩

/-- What is left of a row gives its position to no error, even if it is the innermost node that has
one: this division by zero in the second statement is placed nowhere. -/
theorem rest_of_row_places_nothing :
    let division : Expr := .binary none .div (.const none (.number 1)) (.const none (.number 0))
    let e : Expr := .seq none (.const none .null)
      (.seq (some ⟨2, 1⟩) division (.const none .null))
    let s : State := .fresh false
    (∃ es d a, Stack 0 3 ⟨e, 0, s⟩ es (d + 1) a ∧
      (evalWithin 0 d).Raises 0 a (.ofCause .divisionByZero) s ∧
      innermost es = some ⟨2, 1⟩) ∧
    (⟨3, 0⟩ : Limits).eval e 0 s = .error (.error ⟨.divisionByZero, none⟩) s := by
  intro division e s
  have hstack := (@Stack.root 0 3 ⟨e, 0, s⟩).rest rfl rfl
  exact ⟨⟨_, 1, _, hstack.first, .refused rfl rfl (.division 1), rfl⟩, rfl⟩

end Scriptlet
