import Scriptlet.Program
import Scriptlet.Proofs.Evaluation.Rules

/-! What the computations that evaluation is made of do to a state, one equation for each. -/

namespace Scriptlet

/-- The state in which a computation ended. -/
def finalState {α : Type} : EStateM.Result Fault State α → State
  | .ok _ s | .error _ s => s

/-- The kind of an error of the language. -/
def Fault.kind? : Fault → Option Kind
  | .error e => some e.kind
  | _ => none

@[simp] theorem Fault.kind?_stamp (fault : Fault) (pos : Option Position) :
    (fault.stamp pos).kind? = fault.kind? := by
  cases fault with
  | error e =>
    simp only [stamp, kind?, Error.stamp]
    split <;> rfl
  | _ => rfl

theorem Fault.stamp_none (fault : Fault) : fault.stamp none = fault := by
  cases fault with
  | error e =>
    obtain ⟨cause, place⟩ := e
    cases place with
    | none => simp [stamp, Error.stamp]
    | some place => rfl
  | _ => rfl

namespace EvalM

theorem bind_of_ok {α β : Type} {x : EvalM α} {k : α → EvalM β} {s s' : State} {a : α}
    (h : x s = .ok a s') : (x >>= k) s = k a s' := by
  change EStateM.bind x k s = _
  simp only [EStateM.bind, h]

theorem bind_of_error {α β : Type} {x : EvalM α} {k : α → EvalM β} {s s' : State}
    {fault : Fault} (h : x s = .error fault s') : (x >>= k) s = .error fault s' := by
  change EStateM.bind x k s = _
  simp only [EStateM.bind, h]

theorem bind_eq_ok_iff {α β : Type} {x : EvalM α} {k : α → EvalM β} {s s' : State} {b : β} :
    (x >>= k) s = .ok b s' ↔ ∃ a s₁, x s = .ok a s₁ ∧ k a s₁ = .ok b s' := by
  cases hr : x s with
  | ok a s₁ => simp [bind_of_ok hr, and_assoc]
  | error fault s₁ => simp [bind_of_error hr]

theorem bind_eq_error_iff {α β : Type} {x : EvalM α} {k : α → EvalM β} {s s' : State}
    {fault : Fault} :
    (x >>= k) s = .error fault s' ↔
      x s = .error fault s' ∨ ∃ a s₁, x s = .ok a s₁ ∧ k a s₁ = .error fault s' := by
  cases hr : x s with
  | ok a s₁ => simp [bind_of_ok hr, and_assoc]
  | error fault s₁ => simp [bind_of_error hr]

theorem getHeap_bind {α : Type} (k : Heap → EvalM α) (s : State) :
    (getHeap >>= k) s = k s.heap s := rfl

theorem fail_eq {α : Type} (cause : Cause) (s : State) :
    (fail cause : EvalM α) s = .error (.error ⟨cause, none⟩) s := rfl

theorem resolve_eq (f : Nat) (name : String) (instead : Option Value) (s : State) :
    resolve f name instead s = match (s.heap.resolve? f name).or instead with
      | some v => .ok v s
      | none => .error (.error ⟨.unboundVariable name, none⟩) s := by
  change (match (s.heap.resolve? f name).or instead with
    | some v => pure v
    | none => fail (.unboundVariable name) : EvalM Value) s = _
  cases (s.heap.resolve? f name).or instead <;> rfl

theorem read_eq (f : Nat) (name : String) (s : State) :
    read f name s = match s.heap.resolve? f name with
      | some v => .ok v s
      | none =>
        if s.heap.strict f then .error (.error ⟨.unboundVariable name, none⟩) s
        else .ok .null s := by
  change resolve f name (if s.heap.strict f then none else some .null) s = _
  rw [resolve_eq]
  cases s.heap.resolve? f name with
  | some v => rfl
  | none => cases s.heap.strict f <;> rfl

theorem textOf_eq (v : Value) (s : State) :
    textOf v s = if v.writable then .ok (s.heap.text v) s else .error .numberTooLong s := by
  change (if v.writable then pure (s.heap.text v) else throw .numberTooLong : EvalM String) s = _
  cases v.writable <;> rfl

theorem describe_eq (v : Value) (s : State) :
    describe v s =
      if v.writable then .ok (s.heap.describe v) s else .error .numberTooLong s := by
  change (if v.writable then pure (s.heap.describe v) else throw .numberTooLong :
    EvalM String) s = _
  cases v.writable <;> rfl

theorem complain_eq {α : Type} (v : Value) (cause : String → Cause) (s : State) :
    (do fail (cause (← describe v)) : EvalM α) s = .error (.about s.heap v cause) s := by
  have he := describe_eq v s
  unfold Fault.about
  split
  · rw [if_pos ‹_›] at he
    rw [bind_of_ok he]
    rfl
  · rw [if_neg ‹_›] at he
    rw [bind_of_error he]

theorem print_eq (v : Value) (s : State) :
    print v s =
      if v.writable then .ok () { s with printed := s.printed.push (s.heap.text v) }
      else .error .numberTooLong s := by
  change ((if v.writable then pure (s.heap.text v) else throw .numberTooLong) >>=
    fun line => modify fun s => { s with printed := s.printed.push line } : EvalM Unit) s = _
  cases v.writable <;> rfl

theorem newFrame_eq (parent : Option Nat) (strict : Option Bool) (s : State) :
    newFrame parent strict s =
      .ok s.heap.frames.size { s with heap := s.heap.pushFrame parent strict } := rfl

theorem newClosure_eq (c : Closure) (s : State) :
    newClosure c s =
      .ok (.closure s.heap.closures.size) { s with heap := s.heap.pushClosure c } := rfl

theorem declare_eq (f : Nat) (name : String) (v : Value) (s : State) :
    declare f name v s =
      if s.heap.binds f name then .error (.error ⟨.duplicateDeclaration name, none⟩) s
      else .ok () ⟨s.heap.put f name v, s.printed,
        if s.heap.shadows f name then s.notices.push (.shadowed name) else s.notices⟩ := by
  change (if s.heap.binds f name then fail (.duplicateDeclaration name)
    else do
      if (← getHeap).shadows f name then notify (.shadowed name)
      modifyHeap (·.put f name v) : EvalM Unit) s = _
  cases s.heap.binds f name with
  | true => rfl
  | false =>
    change (if s.heap.shadows f name then
        notify (.shadowed name) >>= fun _ => modifyHeap (·.put f name v)
      else modifyHeap (·.put f name v) : EvalM Unit) s = _
    cases s.heap.shadows f name <;> rfl

theorem assign_eq (f : Nat) (name : String) (v : Value) (s : State) :
    assign f name v s = .ok () ⟨s.heap.assign f name v, s.printed,
      if (s.heap.owner? f name).isNone then s.notices.push (.globalCreated name)
      else s.notices⟩ := by
  change (if (s.heap.owner? f name).isNone then
      notify (.globalCreated name) >>= fun _ => modifyHeap (·.assign f name v)
    else modifyHeap (·.assign f name v) : EvalM Unit) s = _
  cases (s.heap.owner? f name).isNone <;> rfl

theorem stamp_eq {α : Type} (pos : Option Position) (x : EvalM α) (s : State) :
    stamp pos x s = match x s with
      | .ok a s' => .ok a s'
      | .error fault s' => .error (fault.stamp pos) s' := rfl

/-- An expression without a position leaves all faults as they are. -/
theorem stamp_none {α : Type} (x : EvalM α) : stamp none x = x := by
  funext s
  rw [stamp_eq]
  cases x s with
  | ok a s' => rfl
  | error fault s' => exact congrArg (EStateM.Result.error · s') fault.stamp_none

theorem stamp_eq_ok_iff {α : Type} {pos : Option Position} {x : EvalM α} {s s' : State} {a : α} :
    stamp pos x s = .ok a s' ↔ x s = .ok a s' := by
  rw [stamp_eq]
  cases x s <;> simp

theorem finalState_stamp {α : Type} (pos : Option Position) (x : EvalM α) (s : State) :
    finalState (stamp pos x s) = finalState (x s) := by
  rw [stamp_eq]
  cases x s <;> rfl

theorem callee_of_some {v : Value} {c : Closure} {s : State} (h : s.heap.closure? v = some c) :
    Evaluator.callee v s = .ok c s := by
  rw [Evaluator.callee, getHeap_bind, h]
  rfl

theorem callee_of_none {v : Value} {s : State} (h : s.heap.closure? v = none) :
    Evaluator.callee v s = (do fail (.notCallable (← describe v)) : EvalM Closure) s := by
  rw [Evaluator.callee, getHeap_bind, h]

theorem callee_eq_ok_iff {v : Value} {c : Closure} {s s' : State} :
    Evaluator.callee v s = .ok c s' ↔ s.heap.closure? v = some c ∧ s' = s := by
  cases hc : s.heap.closure? v with
  | none => simp [callee_of_none hc, complain_eq]
  | some d => simp [callee_of_some hc, eq_comm]

end EvalM

/-! ### Operators and parameters as the rules have them -/

namespace Operator

theorem Computes.apply {op : Operator} {a b v : Value} (hc : op.Computes a b v) (h : Heap) :
    op.apply h a b = .ok v := by
  cases hc with
  | div a b hb =>
    change (quotient a b).map Value.number = _
    simp [quotient, Number.quotient?_of_ne_zero a hb, Except.map]
  | mod a b hb =>
    change (remainder a b).map Value.number = _
    simp [remainder, Number.remainder?_of_ne_zero a hb, Except.map]
  | _ => rfl

theorem Refuses.apply {h : Heap} {op : Operator} {a b : Value} {cause : Cause}
    (hr : op.Refuses h a b cause) : op.apply h a b = .error cause := by
  cases hr with
  | left hop hv =>
    rw [Operator.apply, if_neg hop]
    cases a with
    | number n => exact absurd rfl (hv n)
    | _ => rfl
  | right hop hw =>
    rw [Operator.apply, if_neg hop]
    cases b with
    | number n => exact absurd rfl (hw n)
    | _ => rfl
  | division a => rfl
  | modulo a => rfl

theorem Refuses.ne_depthExceeded {h : Heap} {op : Operator} {a b : Value} {cause : Cause}
    (hr : op.Refuses h a b cause) : cause ≠ .depthExceeded := by
  cases hr <;> simp

theorem computes_or_refuses (h : Heap) (op : Operator) (a b : Value) :
    (∃ v, op.Computes a b v) ∨ ∃ cause, op.Refuses h a b cause := by
  by_cases hop : op = .eq
  · subst hop
    exact .inl ⟨_, .eq a b⟩
  cases a with
  | bool | null | closure => exact .inr ⟨_, .left hop (by simp)⟩
  | number n =>
    cases b with
    | bool | null | closure => exact .inr ⟨_, .right hop (by simp)⟩
    | number m =>
      by_cases hm : m = 0
      · subst hm
        cases op with
        | div => exact .inr ⟨_, .division n⟩
        | mod => exact .inr ⟨_, .modulo n⟩
        | _ => exact .inl ⟨_, by constructor⟩
      · cases op with
        | div => exact .inl ⟨_, .div n m hm⟩
        | mod => exact .inl ⟨_, .mod n m hm⟩
        | _ => exact .inl ⟨_, by constructor⟩

theorem computes_of_apply {h : Heap} {op : Operator} {a b v : Value}
    (ha : op.apply h a b = .ok v) : op.Computes a b v := by
  rcases computes_or_refuses h op a b with ⟨w, hc⟩ | ⟨cause, hr⟩
  · rw [hc.apply h] at ha
    cases ha
    exact hc
  · rw [hr.apply] at ha
    cases ha

theorem refuses_of_apply {h : Heap} {op : Operator} {a b : Value} {cause : Cause}
    (ha : op.apply h a b = .error cause) : op.Refuses h a b cause := by
  rcases computes_or_refuses h op a b with ⟨w, hc⟩ | ⟨cause', hr⟩
  · rw [hc.apply h] at ha
    cases ha
  · rw [hr.apply] at ha
    cases ha
    exact hr

end Operator

namespace Heap.Declares

variable {f : Nat} {vars : List (String × Value)} {h h' : Heap} {repeated : Option String}

theorem total (f : Nat) (vars : List (String × Value)) (h : Heap) :
    ∃ repeated h', Declares f vars h repeated h' := by
  induction vars generalizing h with
  | nil => exact ⟨none, h, .done h⟩
  | cons var rest ih =>
    obtain ⟨name, v⟩ := var
    cases hb : h.binds f name with
    | true => exact ⟨some name, h, .repeated hb⟩
    | false =>
      obtain ⟨repeated, h', hd⟩ := ih (h.put f name v)
      exact ⟨repeated, h', .next hb hd⟩

theorem follows (hd : Declares f vars h repeated h') (ho : h.Ordered) : h'.Follows h := by
  induction hd with
  | done => exact ⟨ho, Nat.le_refl _⟩
  | next _ _ ih => exact (ih (ho.put_follows _ _ _).ordered).trans (ho.put_follows _ _ _)
  | repeated => exact ⟨ho, Nat.le_refl _⟩

/-- The frame that a call makes, with the parameters that could be bound in it. -/
theorem follows_call {p : Nat} (hp : h.Holds p)
    (hd : Declares h.frames.size vars (h.pushFrame (some p) none) repeated h') :
    h'.Follows h ∧ h'.Holds h.frames.size := by
  have hpush := hp.pushFrame_follows none
  have hh := hd.follows hpush.ordered
  refine ⟨hh.trans hpush, hh.holds ⟨hpush.ordered, ?_⟩⟩
  simp [Heap.pushFrame]

theorem size_eq (hd : Declares f vars h repeated h') : h'.frames.size = h.frames.size := by
  induction hd with
  | done | repeated => rfl
  | next _ _ ih => rw [ih, size_frames_put]

theorem closures_eq (hd : Declares f vars h repeated h') : h'.closures = h.closures := by
  induction hd with
  | done | repeated => rfl
  | next _ _ ih => rw [ih, closures_put]

theorem frames_of_ne (hd : Declares f vars h repeated h') {g : Nat} (hg : f ≠ g) :
    h'.frames[g]? = h.frames[g]? := by
  induction hd with
  | done | repeated => rfl
  | next _ _ ih => rw [ih, frames_put, if_neg hg]

theorem parent?_eq (hd : Declares f vars h repeated h') (g : Nat) :
    h'.parent? g = h.parent? g := by
  induction hd with
  | done | repeated => rfl
  | next _ _ ih => rw [ih, parent?_put]

theorem binds_of_binds (hd : Declares f vars h repeated h') (hf : f < h.frames.size) {g : Nat}
    {name : String} (hb : h.binds g name = true) : h'.binds g name = true := by
  induction hd with
  | done | repeated => exact hb
  | next _ _ ih => exact ih (by simpa using hf) (by rw [binds_put _ _ hf, hb, Bool.or_true])

/-- Names that were all declared are all bound. -/
theorem binds_of_mem (hd : Declares f vars h none h') (hf : f < h.frames.size)
    {var : String × Value} (hvar : var ∈ vars) : h'.binds f var.1 = true := by
  generalize hr : none = repeated at hd
  induction hd with
  | done => cases hvar
  | repeated => cases hr
  | next _ hd ih =>
    rcases List.mem_cons.mp hvar with rfl | hvar
    · exact hd.binds_of_binds (by simpa using hf) (by simp [binds_put _ _ hf])
    · exact ih (by simpa using hf) hvar hr

/-- What declaring a list of names does to a state. -/
theorem declareAll (hd : Declares f vars h repeated h') (s : State) (hs : s.heap = h) :
    ∃ notices, EvalM.declareAll f vars s = match repeated with
      | none => .ok () ⟨h', s.printed, notices⟩
      | some name => .error (.ofCause (.duplicateDeclaration name)) ⟨h', s.printed, notices⟩ := by
  induction hd generalizing s with
  | done h =>
    subst hs
    exact ⟨s.notices, rfl⟩
  | @next name v rest h repeated h' hb _ ih =>
    subst hs
    have he := EvalM.declare_eq f name v s
    rw [if_neg (by simp [hb])] at he
    obtain ⟨notices, hn⟩ := ih ⟨s.heap.put f name v, s.printed,
      if s.heap.shadows f name then s.notices.push (.shadowed name) else s.notices⟩ rfl
    refine ⟨notices, ?_⟩
    rw [EvalM.declareAll, EvalM.bind_of_ok he, hn]
  | @repeated name v rest h hb =>
    subst hs
    have he := EvalM.declare_eq f name v s
    rw [if_pos hb] at he
    refine ⟨s.notices, ?_⟩
    rw [EvalM.declareAll, EvalM.bind_of_error he]
    rfl

end Heap.Declares

/-! ### Calls -/

open EvalM

/-- The first part of a call: the frame in which the body runs. -/
def Evaluator.enter (c : Closure) (args : List Value) : EvalM Nat :=
  if args.length ≠ c.params.length then fail (.arityMismatch c.params.length args.length)
  else do
    let f ← newFrame (some c.frame) none
    declareAll f (c.params.zip args)
    let h ← getHeap
    notify (.applied c.text args.length (h.depth f))
    return f

theorem Evaluator.apply_eq (ev : Evaluator) (c : Closure) (args : List Value) :
    ev.apply c args = enter c args >>= ev c.body := by
  unfold apply enter
  split
  · rfl
  · simp only [bind_assoc, pure_bind]

theorem Evaluator.enter_of_arity {c : Closure} {args : List Value}
    (ha : args.length ≠ c.params.length) :
    enter c args = fail (.arityMismatch c.params.length args.length) :=
  if_pos ha

/-- A frame is entered when all parameters could be bound in it. -/
theorem Heap.Declares.enter {c : Closure} {args : List Value} {s : State}
    {repeated : Option String} {h' : Heap} (ha : args.length = c.params.length)
    (hd : Heap.Declares s.heap.frames.size (c.params.zip args)
      (s.heap.pushFrame (some c.frame) none) repeated h') :
    ∃ notices, Evaluator.enter c args s = match repeated with
      | none => .ok s.heap.frames.size ⟨h', s.printed, notices⟩
      | some x => .error (.ofCause (.duplicateDeclaration x)) ⟨h', s.printed, notices⟩ := by
  unfold Evaluator.enter
  rw [if_neg (by simp [ha]), bind_of_ok (newFrame_eq (some c.frame) none s)]
  obtain ⟨notices, hall⟩ :=
    hd.declareAll { s with heap := s.heap.pushFrame (some c.frame) none } rfl
  cases repeated with
  | none =>
    rw [bind_of_ok hall]
    exact ⟨_, rfl⟩
  | some x =>
    rw [bind_of_error hall]
    exact ⟨_, rfl⟩

/-! ### New environments and program texts -/

/-- One frame that is global, and nothing in it. -/
def State.fresh (strict : Bool) : State := ⟨Heap.empty.pushFrame none (some strict), #[], #[]⟩

theorem Limits.evalFresh_apply (limits : Limits) (strict : Bool) (e : Expr) (s : State) :
    limits.evalFresh strict e s =
      limits.eval e s.heap.frames.size { s with heap := s.heap.pushFrame none (some strict) } :=
  bind_of_ok (newFrame_eq none (some strict) s)

theorem Limits.evalFresh_eq (limits : Limits) (strict : Bool) (e : Expr) :
    limits.evalFresh strict e .empty = limits.eval e 0 (.fresh strict) :=
  limits.evalFresh_apply strict e .empty

namespace Program

variable {source : String}

theorem runIn_of_ok {e : Expr} (hp : parse source = .ok e) (limits : Limits) (f : Nat)
    (strict : Option Bool) : runIn limits f strict source = limits.evalIn f strict e := by
  rw [runIn, parseM, hp]
  exact pure_bind e _

theorem runIn_of_error {fault : Fault} (hp : parse source = .error fault) (limits : Limits)
    (f : Nat) (strict : Option Bool) (s : State) :
    runIn limits f strict source s = .error fault s := by
  rw [runIn, parseM, hp]
  rfl

theorem runFresh_of_ok {e : Expr} (hp : parse source = .ok e) (limits : Limits) (strict : Bool) :
    runFresh limits strict source = limits.evalFresh strict e := by
  rw [runFresh, parseM, hp]
  exact pure_bind e _

end Program

end Scriptlet
