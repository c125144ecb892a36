import Scriptlet.Proofs.Evaluation.Activation

/-! Invariants of evaluation. What everything that touches the heap keeps is so wherever an
evaluation begins or ends, whatever it is part of and whether it gives a value or fails. -/

namespace Scriptlet

open EvalM

/-- What is kept while an expression is evaluated. It grows from stage to stage; `codes` is about
expressions with the frames to evaluate them in, and `enters` about the calls that are made. -/
structure Invariant where
  Stage : Type
  le : Stage → Stage → Prop
  heaps : Stage → Heap → Prop
  values : Stage → Value → Prop
  codes : Stage → Expr → Nat → Prop
  closures : Stage → Closure → Prop
  enters : Closure → List Value → State → Prop

namespace Invariant

variable (I : Invariant) {α β : Type}

/-- The heap is kept at some later stage. A value is as `Q` says, and a failure as `E` says. -/
def Ends (w : I.Stage) (Q : I.Stage → α → Prop) (E : Fault → State → Prop) :
    EStateM.Result Fault State α → Prop
  | .ok a s => ∃ w', I.le w w' ∧ I.heaps w' s.heap ∧ Q w' a
  | .error fault s => (∃ w', I.le w w' ∧ I.heaps w' s.heap) ∧ E fault s

/-- An evaluation that keeps what it finds. -/
def Sound (E : Fault → State → Prop) (ev : Evaluator) (a : Activation) : Prop :=
  ∀ w, I.heaps w a.state.heap → I.codes w a.expr a.frame →
    I.Ends w I.values E (ev a.expr a.frame a.state)

/-- What it takes to be an invariant, one law for everything that reads or writes the heap. -/
structure Laws : Prop where
  le_refl (w) : I.le w w
  le_trans {w₁ w₂ w₃} : I.le w₁ w₂ → I.le w₂ w₃ → I.le w₁ w₃
  values_mono {w w' v} : I.le w w' → I.values w v → I.values w' v
  codes_mono {w w' e f} : I.le w w' → I.codes w e f → I.codes w' e f
  closures_mono {w w' c} : I.le w w' → I.closures w c → I.closures w' c
  part {w e f part} : I.codes w e f → part ∈ e.ownParts → I.codes w part f
  const {w p v f} : I.codes w (.const p v) f → I.values w v
  plain {w v} : (∀ id, v ≠ .closure id) → I.values w v
  closure {w h v c} : I.heaps w h → I.values w v → h.closure? v = some c → I.closures w c
  read {w h p x f v} : I.heaps w h → I.codes w (.var p x) f → h.resolve? f x = some v →
    I.values w v
  declare {w h p x e f v} : I.heaps w h → I.codes w (.declare p x e) f → I.values w v →
    h.binds f x = false → ∃ w', I.le w w' ∧ I.heaps w' (h.put f x v)
  assign {w h p x e f v} : I.heaps w h → I.codes w (.assign p x e) f → I.values w v →
    ∃ w', I.le w w' ∧ I.heaps w' (h.assign f x v)
  func {w h p xs b f} : I.heaps w h → I.codes w (.func p xs b) f →
    ∃ w', I.le w w' ∧ I.heaps w' (h.pushClosure ⟨xs, b, f⟩) ∧
      I.values w' (.closure h.closures.size)
  enter {w c vs s repeated h'} : I.heaps w s.heap → I.closures w c → (∀ v ∈ vs, I.values w v) →
    I.enters c vs s → vs.length = c.params.length →
    Heap.Declares s.heap.frames.size (c.params.zip vs)
      (s.heap.pushFrame (some c.frame) none) repeated h' →
    ∃ w', I.le w w' ∧ I.heaps w' h' ∧ (repeated = none → I.codes w' c.body s.heap.frames.size)

variable {I} {w : I.Stage} {Q : I.Stage → α → Prop} {R : I.Stage → β → Prop}
  {E : Fault → State → Prop}

/-! ### Computations -/

theorem Laws.later (hI : I.Laws) {w' : I.Stage} (hw : I.le w w')
    {r : EStateM.Result Fault State α} (hr : I.Ends w' Q E r) : I.Ends w Q E r := by
  cases r with
  | ok a s =>
    obtain ⟨w'', hw', hrest⟩ := hr
    exact ⟨w'', hI.le_trans hw hw', hrest⟩
  | error fault s =>
    obtain ⟨⟨w'', hw', hs⟩, hfault⟩ := hr
    exact ⟨⟨w'', hI.le_trans hw hw', hs⟩, hfault⟩

theorem Ends.of_ok {r : EStateM.Result Fault State α} {a : α} {s : State} (hr : I.Ends w Q E r)
    (h : r = .ok a s) : ∃ w', I.le w w' ∧ I.heaps w' s.heap ∧ Q w' a := by
  subst h
  exact hr

theorem Ends.final {r : EStateM.Result Fault State α} (hr : I.Ends w Q E r) :
    ∃ w', I.le w w' ∧ I.heaps w' (finalState r).heap := by
  cases r with
  | ok a s =>
    obtain ⟨w', hw, hs, -⟩ := hr
    exact ⟨w', hw, hs⟩
  | error fault s => exact hr.1

theorem Laws.ok (hI : I.Laws) {s : State} {a : α} (hs : I.heaps w s.heap) (hQ : Q w a) :
    I.Ends w Q E (.ok a s) :=
  ⟨w, hI.le_refl w, hs, hQ⟩

theorem Laws.error (hI : I.Laws) {s : State} {fault : Fault} (hs : I.heaps w s.heap)
    (hE : E fault s) : I.Ends w Q E (.error fault s) :=
  ⟨⟨w, hI.le_refl w, hs⟩, hE⟩

theorem Laws.bind (hI : I.Laws) {x : EvalM α} {k : α → EvalM β} {s : State}
    (hx : I.Ends w Q E (x s))
    (hk : ∀ {w' a s'}, I.le w w' → x s = .ok a s' → I.heaps w' s'.heap → Q w' a →
      I.Ends w' R E (k a s')) : I.Ends w R E ((x >>= k) s) := by
  cases hr : x s with
  | ok a s' =>
    obtain ⟨w', hw, hs', hQ⟩ := hx.of_ok hr
    rw [bind_of_ok hr]
    exact hI.later hw (hk hw hr hs' hQ)
  | error fault s' =>
    rw [hr] at hx
    rw [bind_of_error hr]
    exact hx

theorem Ends.stamp {x : EvalM α} {s : State} {E' : Fault → State → Prop} {pos : Option Position}
    (hx : I.Ends w Q E (x s)) (hE : ∀ {fault s}, E fault s → E' (fault.stamp pos) s) :
    I.Ends w Q E' (stamp pos x s) := by
  rw [stamp_eq]
  cases hr : x s with
  | ok a s' => rwa [hr] at hx
  | error fault s' =>
    rw [hr] at hx
    exact ⟨hx.1, hE hx.2⟩

/-! ### Expressions from left to right -/

section Step

variable {ev : Evaluator} {f : Nat}

/-- Each of the expressions keeps what it finds, evaluated where those before it leave off. -/
def Along (I : Invariant) (E : Fault → State → Prop) (ev : Evaluator) (f : Nat) (es : List Expr)
    (s : State) : Prop :=
  ∀ {before part after vs s'}, es = before ++ part :: after → ev.list f before s = .ok vs s' →
    I.Sound E ev ⟨part, f, s'⟩

theorem Along.head {e : Expr} {es : List Expr} {s : State} (h : I.Along E ev f (e :: es) s) :
    I.Sound E ev ⟨e, f, s⟩ :=
  @h [] e es [] s rfl rfl

theorem Along.tail {e : Expr} {es : List Expr} {s s' : State} {v : Value}
    (h : I.Along E ev f (e :: es) s) (hv : ev e f s = .ok v s') : I.Along E ev f es s' :=
  fun hes hvs => h (congrArg (e :: ·) hes) (Evaluator.list_cons_ok hv hvs)

theorem Along.before {before after : List Expr} {s : State}
    (h : I.Along E ev f (before ++ after) s) : I.Along E ev f before s :=
  fun hes hvs => h (by rw [hes, List.append_assoc, List.cons_append]) hvs

theorem Laws.list (hI : I.Laws) {es : List Expr} {s : State} (hs : I.heaps w s.heap)
    (hes : ∀ e ∈ es, I.codes w e f) (hev : I.Along E ev f es s) :
    I.Ends w (fun w' vs => ∀ v ∈ vs, I.values w' v) E (ev.list f es s) := by
  induction es generalizing w s with
  | nil => exact hI.ok hs (by simp)
  | cons e es ih =>
    obtain ⟨he, hes⟩ := List.forall_mem_cons.mp hes
    refine hI.bind (hev.head _ hs he) fun hw hr hs' hv => ?_
    have hrest := ih hs' (fun e' he' => hI.codes_mono hw (hes e' he')) (hev.tail hr)
    refine hI.bind hrest fun hw' _ hs'' hvs => ?_
    exact hI.ok hs'' (List.forall_mem_cons.mpr ⟨hI.values_mono hw' hv, hvs⟩)

/-- Where the evaluations of some expressions have come to one of them. -/
theorem Laws.list_before (hI : I.Laws) {before after : List Expr} {part : Expr} {s s' : State}
    {vs : List Value} (hs : I.heaps w s.heap)
    (hes : ∀ e ∈ before ++ part :: after, I.codes w e f)
    (hev : I.Along E ev f (before ++ part :: after) s) (hvs : ev.list f before s = .ok vs s') :
    ∃ w', I.le w w' ∧ I.heaps w' s'.heap ∧ I.codes w' part f := by
  have hrun := hI.list hs (fun e he => hes e (by simp [he])) hev.before
  obtain ⟨w', hw, hs', -⟩ := hrun.of_ok hvs
  exact ⟨w', hw, hs', hI.codes_mono hw (hes part (by simp))⟩

theorem Laws.operands (hI : I.Laws) {e : Expr} (he : I.codes w e f) :
    ∀ part ∈ e.operands, I.codes w part f := by
  have hrow : ∀ part ∈ e.row, I.codes w part f := by
    induction e with
    | seq p first second _ ih =>
      refine List.forall_mem_cons.mpr ⟨hI.part he (by simp), ih (hI.part he (by simp))⟩
    | _ => exact List.forall_mem_singleton.mpr he
  cases e with
  | seq => exact hrow
  | const | var | loop | func | foreign => simp [Expr.operands]
  | _ => exact fun part hp => hI.part he (by revert hp; simp +contextual [Expr.operands])

theorem Laws.statements (hI : I.Laws) {e : Expr} {s : State} (hs : I.heaps w s.heap)
    (he : I.codes w e f) (hev : I.Along E ev f e.row s) :
    I.Ends w I.values E (ev.statements f e s) := by
  induction e generalizing w s with
  | seq p first second _ ih =>
    have hpart {part : Expr} (hp : part ∈ (Expr.seq p first second).ownParts) :=
      hI.part he hp
    refine hI.bind (hev.head _ hs (hpart (by simp))) fun hw hr hs' _ => ?_
    exact ih hs' (hI.codes_mono hw (hpart (by simp))) (hev.tail hr)
  | _ => exact hev.head _ hs he

theorem Sound.condition {test : Expr} {s : State} (hev : I.Sound E ev ⟨test, f, s⟩)
    (construct : Conditional) (hs : I.heaps w s.heap) (ht : I.codes w test f)
    (hE : ∀ {v s'}, ev test f s = .ok v s' → (∀ b, v ≠ .bool b) →
      E (.about s'.heap v (.invalidCondition construct)) s') :
    I.Ends w (fun _ _ => True) E (ev.condition construct test f s) := by
  have hrun := hev w hs ht
  cases hr : ev test f s with
  | error fault s' =>
    rw [Evaluator.condition, bind_of_error hr]
    rwa [hr] at hrun
  | ok v s' =>
    obtain ⟨w', hw, hs', -⟩ := hrun.of_ok hr
    by_cases hv : ∃ b, v = .bool b
    · obtain ⟨b, rfl⟩ := hv
      rw [Evaluator.condition_eq_ok_iff.mpr hr]
      exact ⟨w', hw, hs', trivial⟩
    · have hne : ∀ b, v ≠ .bool b := fun b hb => hv ⟨b, hb⟩
      rw [Evaluator.condition_of_ne hr hne]
      exact ⟨⟨w', hw, hs'⟩, hE hr hne⟩

section Loop

variable {p : Option Position} {test body : Expr} {limit : Nat} {s₀ : State}
  (hcalls : ∀ {b}, ev.Calls limit ⟨.loop p test body, f, s₀⟩ b → I.Sound E ev b)
include hcalls

/-- The rounds that are left of a loop that has gone round `k` times. -/
theorem Laws.rounds (hI : I.Laws)
    (hraises : ∀ {fault s'}, ev.Raises limit ⟨.loop p test body, f, s₀⟩ fault s' → E fault s')
    {k n : Nat} {s : State} (hr : ev.Rounds test body f s₀ k s) (hn : k + n = limit)
    (hs : I.heaps w s.heap) (ht : I.codes w test f) (hb : I.codes w body f) {last : Value}
    (hlast : I.values w last) : I.Ends w I.values E (ev.rounds test body f n last s) := by
  induction n generalizing k s w last with
  | zero =>
    subst hn
    exact hI.error hs (hraises (.unfinished hr))
  | succ n ih =>
    have hk : k < limit := by omega
    have hcond := (hcalls (.test hk hr)).condition .loop hs ht
      fun hv hne => hraises (.loopCondition hk hr hv hne)
    refine hI.bind hcond fun {w' goes s₁} hw hrun hs₁ _ => ?_
    have htest := Evaluator.condition_eq_ok_iff.mp hrun
    cases goes with
    | false => exact hI.ok hs₁ (hI.values_mono hw hlast)
    | true =>
      have hbody := hcalls (.body hk hr htest) w' hs₁ (hI.codes_mono hw hb)
      refine hI.bind hbody fun hw' hrun' hs₂ hv => ?_
      have hle := hI.le_trans hw hw'
      exact ih (.again hr htest hrun') (by omega) hs₂ (hI.codes_mono hle ht)
        (hI.codes_mono hle hb) hv

/-- Where a loop comes to its test again. -/
theorem Laws.rounds_before (hI : I.Laws) {k : Nat} {s : State}
    (hr : ev.Rounds test body f s₀ k s) (hk : k ≤ limit) (hs : I.heaps w s₀.heap)
    (ht : I.codes w test f) (hb : I.codes w body f) : ∃ w', I.le w w' ∧ I.heaps w' s.heap := by
  induction hr with
  | start => exact ⟨w, hI.le_refl w, hs⟩
  | @again n s₁ s₂ v s₃ hr htest hbody ih =>
    obtain ⟨w₁, hw₁, hs₁⟩ := ih (by omega)
    have htested := hcalls (.test (by omega) hr) w₁ hs₁ (hI.codes_mono hw₁ ht)
    obtain ⟨w₂, hw₂, hs₂, -⟩ := htested.of_ok htest
    have hle := hI.le_trans hw₁ hw₂
    have hround := hcalls (.body (by omega) hr htest) w₂ hs₂ (hI.codes_mono hle hb)
    obtain ⟨w₃, hw₃, hs₃, -⟩ := hround.of_ok hbody
    exact ⟨w₃, hI.le_trans hle hw₃, hs₃⟩

end Loop

theorem Laws.callee (hI : I.Laws) {v : Value} {s : State} (hs : I.heaps w s.heap)
    (hv : I.values w v)
    (hE : s.heap.closure? v = none → E (.about s.heap v .notCallable) s) :
    I.Ends w I.closures E (Evaluator.callee v s) := by
  cases hc : s.heap.closure? v with
  | none =>
    rw [callee_of_none hc, complain_eq]
    exact hI.error hs (hE hc)
  | some c =>
    rw [callee_of_some hc]
    exact hI.ok hs (hI.closure hs hv hc)

theorem Laws.enters (hI : I.Laws) {c : Closure} {vs : List Value} {s : State}
    (hs : I.heaps w s.heap) (hc : I.closures w c) (hvs : ∀ v ∈ vs, I.values w v)
    (hen : I.enters c vs s)
    (hE : ∀ {fault s'}, Evaluator.enter c vs s = .error fault s' → E fault s') :
    I.Ends w (fun w' g => I.codes w' c.body g) E (Evaluator.enter c vs s) := by
  by_cases ha : vs.length = c.params.length
  case neg =>
    have hrun := Evaluator.enter_of_arity ha
    rw [hrun]
    exact hI.error hs (hE (by rw [hrun]; rfl))
  obtain ⟨repeated, h', hd⟩ := Heap.Declares.total s.heap.frames.size (c.params.zip vs)
    (s.heap.pushFrame (some c.frame) none)
  obtain ⟨notices, hrun⟩ := hd.enter ha
  obtain ⟨w', hw, hh', hcode⟩ := hI.enter hs hc hvs hen ha hd
  cases repeated with
  | none =>
    rw [hrun]
    exact ⟨w', hw, hh', hcode rfl⟩
  | some x =>
    have hfault := hE hrun
    rw [hrun]
    exact ⟨⟨w', hw, hh'⟩, hfault⟩

section Call

variable {p : Option Position} {callee : Expr} {args : List Expr} {limit : Nat} {s : State}
  (hcalls : ∀ {b}, ev.Calls limit ⟨.call p callee args, f, s⟩ b → I.Sound E ev b)
include hcalls

theorem along_args {v : Value} {s₁ : State} {c : Closure} (hv : ev callee f s = .ok v s₁)
    (hc : s₁.heap.closure? v = some c) : I.Along E ev f args s₁ := by
  rintro before arg after vs s₂ rfl hvs
  exact hcalls (.argument hv hc hvs)

theorem Laws.call (hI : I.Laws)
    (hraises : ∀ {fault s'}, ev.Raises limit ⟨.call p callee args, f, s⟩ fault s' → E fault s')
    (henters : ∀ {c vs s'}, ev.Applies ⟨.call p callee args, f, s⟩ c vs s' → I.enters c vs s')
    (hs : I.heaps w s.heap) (he : I.codes w (.call p callee args) f) :
    I.Ends w I.values E (ev.step limit (.call p callee args) f s) := by
  refine hI.bind (hcalls (.first rfl) w hs (hI.part he (by simp))) fun {_ v s₁} hw hr hs₁ hv => ?_
  refine hI.bind (hI.callee hs₁ hv fun hc => hraises (.notCallable hr hc)) ?_
  intro w₂ c s₂ hw' hr' hs₂ hclosure
  obtain ⟨hc, rfl⟩ := callee_eq_ok_iff.mp hr'
  have hcodes : ∀ arg ∈ args, I.codes w₂ arg f := fun arg harg =>
    hI.codes_mono (hI.le_trans hw hw') (hI.part he (by simp [harg]))
  refine hI.bind (hI.list hs₂ hcodes (along_args hcalls hr hc)) fun hw'' hr'' hs₃ hvs => ?_
  have happ : ev.Applies ⟨.call p callee args, f, s⟩ c _ _ := .call hr hc hr''
  rw [Evaluator.apply_eq]
  refine hI.bind (hI.enters hs₃ (hI.closures_mono hw'' hclosure) hvs (henters happ)
    fun hfault => hraises (.entry happ hfault)) fun _ hentry hs₄ hcode => ?_
  exact hcalls (.entry happ hentry) _ hs₄ hcode

end Call

/-- One step keeps what the evaluations that it begins keep. -/
theorem Laws.step (hI : I.Laws) {limit : Nat} {a : Activation}
    (hcalls : ∀ {b}, ev.Calls limit a b → I.Sound E ev b)
    (hraises : ∀ {fault s'}, ev.Raises limit a fault s' → E fault s')
    (henters : ∀ {c vs s}, ev.Applies a c vs s → I.enters c vs s) :
    I.Sound E (ev.step limit) a := by
  intro w hs he
  obtain ⟨e, f, s⟩ := a
  have hpart {part : Expr} (hp : part ∈ e.ownParts) : I.codes w part f := hI.part he hp
  have hfirst {part : Expr} {after : List Expr} (ho : e.operands = part :: after) :
      I.Sound E ev ⟨part, f, s⟩ := hcalls (.first ho)
  cases e with
  | const p v => exact hI.ok hs (hI.const he)
  | var p x =>
    change I.Ends w I.values E (EvalM.read f x s)
    rw [read_eq]
    split
    case h_1 v hx => exact hI.ok hs (hI.read hs he hx)
    case h_2 hx =>
      split
      case isTrue hstrict => exact hI.error hs (hraises (.unbound hx hstrict))
      case isFalse => exact hI.ok hs (hI.plain (by simp))
  | print p arg =>
    refine hI.bind (hfirst rfl w hs (hpart (by simp))) ?_
    intro w' v s' hw hr hs' hv
    have hprint : I.Ends w' (fun _ _ => True) E (print v s') := by
      rw [print_eq]
      split
      case isTrue => exact hI.ok hs' trivial
      case isFalse hwr => exact hI.error hs' (hraises (.unwritable hr (by simpa using hwr)))
    exact hI.bind hprint fun hw' _ hs'' _ => hI.ok hs'' (hI.values_mono hw' hv)
  | binary p op left right =>
    refine hI.bind (hfirst rfl w hs (hpart (by simp))) ?_
    intro w₁ a s₁ hw hr hs₁ ha
    have hright : I.Sound E ev ⟨right, f, s₁⟩ := hcalls (.second rfl hr)
    have hcode : I.codes w₁ right f := hI.codes_mono hw (hpart (by simp))
    refine hI.bind (hright w₁ hs₁ hcode) fun {w₂ b s₂} _ hr' hs₂ hb => ?_
    rw [getHeap_bind]
    rcases Operator.computes_or_refuses s₂.heap op a b with ⟨v, hc⟩ | ⟨cause, hc⟩
    · rw [hc.apply]
      exact hI.ok hs₂ (hI.plain (by cases hc <;> simp))
    · rw [hc.apply]
      exact hI.error hs₂ (hraises (.refused hr hr' hc))
  | cond p test yes no =>
    have hcond := (hfirst rfl).condition .branch hs (hpart (by simp))
      fun hv hne => hraises (.condition hv hne)
    refine hI.bind hcond fun {w' b s'} hw hr hs' _ => ?_
    have hbranch := hcalls (.branch (Evaluator.condition_eq_ok_iff.mp hr)) w' hs'
    cases b with
    | true => exact hbranch (hI.codes_mono hw (hpart (by simp)))
    | false => exact hbranch (hI.codes_mono hw (hpart (by simp)))
  | loop p test body =>
    exact hI.rounds hcalls hraises .start (Nat.zero_add limit) hs
      (hpart (by simp)) (hpart (by simp)) (hI.plain (by simp))
  | seq p first second => exact hI.statements hs he fun hrow hvs => hcalls (.operand hrow hvs)
  | declare p x init =>
    refine hI.bind (hfirst rfl w hs (hpart (by simp))) ?_
    intro w' v s' hw hr hs' hv
    have hdeclare : I.Ends w' (fun _ _ => True) E (EvalM.declare f x v s') := by
      rw [declare_eq]
      split
      case isTrue hb => exact hI.error hs' (hraises (.duplicate hr hb))
      case isFalse hb =>
        obtain ⟨w'', hw', hh⟩ := hI.declare hs' (hI.codes_mono hw he) hv (by simpa using hb)
        exact ⟨w'', hw', hh, trivial⟩
    exact hI.bind hdeclare fun hw' _ hs'' _ => hI.ok hs'' (hI.values_mono hw' hv)
  | assign p x rhs =>
    refine hI.bind (hfirst rfl w hs (hpart (by simp))) ?_
    intro w' v s' hw hr hs' hv
    have hassign : I.Ends w' (fun _ _ => True) E (EvalM.assign f x v s') := by
      rw [assign_eq]
      obtain ⟨w'', hw', hh⟩ := hI.assign hs' (hI.codes_mono hw he) hv
      exact ⟨w'', hw', hh, trivial⟩
    exact hI.bind hassign fun hw' _ hs'' _ => hI.ok hs'' (hI.values_mono hw' hv)
  | func p params body => exact hI.func hs he
  | call p callee args => exact hI.call hcalls hraises henters hs he
  | foreign type => exact hI.error hs (hraises .foreign)

section Begun

variable {limit : Nat} {a : Activation}
  (hcalls : ∀ {b}, ev.Calls limit a b → I.Sound E ev b)
include hcalls

/-- Where a call is about to be made. -/
theorem Laws.applies (hI : I.Laws) (hs : I.heaps w a.state.heap) (he : I.codes w a.expr a.frame)
    {c : Closure} {vs : List Value} {s : State} (ha : ev.Applies a c vs s) :
    ∃ w', I.le w w' ∧ I.heaps w' s.heap ∧ I.closures w' c ∧ ∀ v ∈ vs, I.values w' v := by
  obtain @⟨p, callee, args, f, s₀, v, s₁, c, vs, s₂, hv, hc, hvs⟩ := ha
  obtain ⟨w₁, hw₁, hs₁, hvalue⟩ := (hcalls (.first rfl) w hs (hI.part he (by simp))).of_ok hv
  have hargs := hI.list hs₁ (fun arg harg => hI.codes_mono hw₁ (hI.part he (by simp [harg])))
    (along_args hcalls hv hc)
  obtain ⟨w₂, hw₂, hs₂, hvalues⟩ := hargs.of_ok hvs
  exact ⟨w₂, hI.le_trans hw₁ hw₂, hs₂, hI.closures_mono hw₂ (hI.closure hs₁ hvalue hc), hvalues⟩

/-- Where an evaluation begins that another one has begun. -/
theorem Laws.calls (hI : I.Laws)
    (henters : ∀ {c vs s}, ev.Applies a c vs s → I.enters c vs s)
    (hs : I.heaps w a.state.heap) (he : I.codes w a.expr a.frame) {b : Activation}
    (hb : ev.Calls limit a b) :
    ∃ w', I.le w w' ∧ I.heaps w' b.state.heap ∧ I.codes w' b.expr b.frame := by
  cases hb with
  | operand ho hvs =>
    exact hI.list_before hs (ho ▸ hI.operands he)
      (fun hes hvs' => hcalls (.operand (ho.trans hes) hvs')) hvs
  | @branch p test yes no f s b s' ht =>
    obtain ⟨w', hw, hs', -⟩ := (hcalls (.first rfl) w hs (hI.part he (by simp))).of_ok ht
    refine ⟨w', hw, hs', hI.codes_mono hw ?_⟩
    cases b <;> exact hI.part he (by simp)
  | test hn hr =>
    obtain ⟨w', hw, hs'⟩ := hI.rounds_before hcalls hr (Nat.le_of_lt hn) hs
      (hI.part he (by simp)) (hI.part he (by simp))
    exact ⟨w', hw, hs', hI.codes_mono hw (hI.part he (by simp))⟩
  | body hn hr ht =>
    obtain ⟨w₁, hw₁, hs₁⟩ := hI.rounds_before hcalls hr (Nat.le_of_lt hn) hs
      (hI.part he (by simp)) (hI.part he (by simp))
    have htested := hcalls (.test hn hr) w₁ hs₁ (hI.codes_mono hw₁ (hI.part he (by simp)))
    obtain ⟨w₂, hw₂, hs₂, -⟩ := htested.of_ok ht
    have hle := hI.le_trans hw₁ hw₂
    exact ⟨w₂, hle, hs₂, hI.codes_mono hle (hI.part he (by simp))⟩
  | argument hv hc hvs =>
    obtain ⟨w₁, hw₁, hs₁, -⟩ := (hcalls (.first rfl) w hs (hI.part he (by simp))).of_ok hv
    obtain ⟨w₂, hw₂, hrest⟩ := hI.list_before hs₁
      (fun arg harg => hI.codes_mono hw₁ (hI.part he (List.mem_cons_of_mem _ harg)))
      (along_args hcalls hv hc) hvs
    exact ⟨w₂, hI.le_trans hw₁ hw₂, hrest⟩
  | entry happ hentry =>
    obtain ⟨w₁, hw₁, hs₁, hclosure, hvalues⟩ := hI.applies hcalls hs he happ
    have hrun := hI.enters (E := fun _ _ => True) hs₁ hclosure hvalues (henters happ)
      fun _ => trivial
    obtain ⟨w₂, hw₂, hs₂, hcode⟩ := hrun.of_ok hentry
    exact ⟨w₂, hI.le_trans hw₁ hw₂, hs₂, hcode⟩

end Begun

end Step

/-! ### Whole evaluations -/

section Run

variable {rounds depth : Nat} {root : Activation} (hI : I.Laws)
  (henters : ∀ {d a c vs s}, Within rounds depth root (d + 1) a →
    (evalWithin rounds d).Applies a c vs s → I.enters c vs s)
include hI henters

/-- Every evaluation within another one keeps what it finds. -/
theorem Laws.eval {d : Nat} {a : Activation} (ha : Within rounds depth root d a) :
    I.Sound (fun _ _ => True) (evalWithin rounds d) a := by
  induction d generalizing a with
  | zero => exact fun w hs _ => hI.error hs trivial
  | succ d ih =>
    have hstep : I.Sound (fun _ _ => True) (Evaluator.step (evalWithin rounds d) rounds) a :=
      hI.step (fun hb => ih (ha.call hb)) (fun _ => trivial) (henters ha)
    exact fun w hs he => (hstep w hs he).stamp fun _ => trivial

/-- Every evaluation within another one begins with what that one found, or what grew of it. -/
theorem Laws.begins {d : Nat} {a : Activation} (ha : Within rounds depth root d a)
    (hs : I.heaps w root.state.heap) (he : I.codes w root.expr root.frame) :
    ∃ w', I.le w w' ∧ I.heaps w' a.state.heap ∧ I.codes w' a.expr a.frame := by
  induction ha with
  | root => exact ⟨w, hI.le_refl w, hs, he⟩
  | call ha hb ih =>
    obtain ⟨w₁, hw₁, hs₁, he₁⟩ := ih
    have hcalls {b : Activation} (hb : (evalWithin rounds _).Calls rounds _ b) :=
      hI.eval henters (ha.call hb)
    obtain ⟨w₂, hw₂, hrest⟩ := hI.calls hcalls (henters ha) hs₁ he₁ hb
    exact ⟨w₂, hI.le_trans hw₁ hw₂, hrest⟩

variable {d : Nat} {a : Activation} (hs : I.heaps w root.state.heap)
  (he : I.codes w root.expr root.frame)
include hs he

theorem Laws.ends (ha : Within rounds depth root d a) :
    ∃ w', I.le w w' ∧ I.heaps w' (finalState (a.result rounds d)).heap := by
  obtain ⟨w₁, hw₁, hs₁, he₁⟩ := hI.begins henters ha hs he
  obtain ⟨w₂, hw₂, hs₂⟩ := (hI.eval henters ha w₁ hs₁ he₁).final
  exact ⟨w₂, hI.le_trans hw₁ hw₂, hs₂⟩

theorem Laws.about_to_call (ha : Within rounds depth root (d + 1) a) {c : Closure}
    {vs : List Value} {s : State} (hc : (evalWithin rounds d).Applies a c vs s) :
    ∃ w', I.le w w' ∧ I.heaps w' s.heap ∧ I.closures w' c ∧ ∀ v ∈ vs, I.values w' v := by
  obtain ⟨w₁, hw₁, hs₁, he₁⟩ := hI.begins henters ha hs he
  obtain ⟨w₂, hw₂, hrest⟩ := hI.applies (fun hb => hI.eval henters (ha.call hb)) hs₁ he₁ hc
  exact ⟨w₂, hI.le_trans hw₁ hw₂, hrest⟩

end Run

end Invariant

/-! ### Blame -/

/-- The invariant that says nothing. -/
def Invariant.idle : Invariant where
  Stage := Unit
  le _ _ := True
  heaps _ _ := True
  values _ _ := True
  codes _ _ _ := True
  closures _ _ := True
  enters _ _ _ := True

theorem Invariant.idle_laws : idle.Laws := by
  constructor <;> intros <;> simp [idle]

/-- A step that fails does so by itself or because an evaluation that it begins fails. -/
theorem Evaluator.step_error {ev : Evaluator} {limit : Nat} {a : Activation} {fault : Fault}
    {s : State} (hr : ev.step limit a.expr a.frame a.state = .error fault s) :
    ev.Raises limit a fault s ∨
      ∃ b, ev.Calls limit a b ∧ ev b.expr b.frame b.state = .error fault s := by
  let E (fault : Fault) (s : State) : Prop := ev.Raises limit a fault s ∨
    ∃ b, ev.Calls limit a b ∧ ev b.expr b.frame b.state = .error fault s
  have hcalls {b : Activation} (hb : ev.Calls limit a b) : Invariant.idle.Sound E ev b := by
    intro w _ _
    cases hr : ev b.expr b.frame b.state with
    | ok v s' => exact ⟨(), trivial, trivial, trivial⟩
    | error fault s' => exact ⟨⟨(), trivial, trivial⟩, .inr ⟨b, hb, hr⟩⟩
  have hstep := Invariant.idle_laws.step hcalls .inl (fun _ => trivial) () trivial trivial
  rw [hr] at hstep
  exact hstep.2

theorem Within.trans {rounds depth d d' : Nat} {root a b : Activation}
    (ha : Within rounds depth root d a) (hb : Within rounds d a d' b) :
    Within rounds depth root d' b := by
  induction hb with
  | root => exact ha
  | call _ hcall ih => exact ih.call hcall

end Scriptlet
