import Mathlib.Data.List.Forall2
import Scriptlet.Proofs.Evaluation.Growth
import Scriptlet.Proofs.Evaluation.Sound
import Scriptlet.Proofs.Expr.Parts

/-! Two evaluations side by side. If what they have in common is kept by everything that touches
the heap, then it is kept by evaluation as a whole, and either both give a value or both fail.
Where the reading of a name may part them, they stay together up to the point where the first one
stops short. -/

namespace Scriptlet

open EvalM

/-- Two expressions of one construct, with their constants and their parts related in pairs. What
is inside of a function is not looked at. -/
inductive Expr.Aligned (constants : Value → Value → Prop) (parts : Expr → Expr → Prop) :
    Expr → Expr → Prop where
  | const {p p' v v'} (hv : constants v v') : Aligned _ _ (.const p v) (.const p' v')
  | var {p p' x x'} : Aligned _ _ (.var p x) (.var p' x')
  | print {p p' a a'} (ha : parts a a') : Aligned _ _ (.print p a) (.print p' a')
  | binary {p p' a a' b b'} (op : Operator) (ha : parts a a') (hb : parts b b') :
      Aligned _ _ (.binary p op a b) (.binary p' op a' b')
  | cond {p p' t t' y y' n n'} (ht : parts t t') (hy : parts y y') (hn : parts n n') :
      Aligned _ _ (.cond p t y n) (.cond p' t' y' n')
  | loop {p p' t t' b b'} (ht : parts t t') (hb : parts b b') :
      Aligned _ _ (.loop p t b) (.loop p' t' b')
  | seq {p p' a a' b b'} (ha : parts a a') (hb : parts b b') :
      Aligned _ _ (.seq p a b) (.seq p' a' b')
  | declare {p p' x x' a a'} (ha : parts a a') : Aligned _ _ (.declare p x a) (.declare p' x' a')
  | assign {p p' x x' a a'} (ha : parts a a') : Aligned _ _ (.assign p x a) (.assign p' x' a')
  | func {p p' xs xs' b b'} : Aligned _ _ (.func p xs b) (.func p' xs' b')
  | call {p p' c c' as as'} (hc : parts c c') (has : List.Forall₂ parts as as') :
      Aligned _ _ (.call p c as) (.call p' c' as')
  | foreign (type : String) : Aligned _ _ (.foreign type) (.foreign type)

/-- An expression is aligned with itself if its constants and its parts are related to
themselves. -/
theorem Expr.aligned_self {constants : Value → Value → Prop} {parts : Expr → Expr → Prop}
    {e : Expr} (hconst : ∀ p v, e = .const p v → constants v v)
    (hparts : ∀ a ∈ e.parts, parts a a) : Aligned constants parts e e := by
  cases e with
  | const p v => exact .const (hconst p v rfl)
  | call p a as =>
    refine .call (hparts a (by simp [Expr.parts])) (List.forall₂_same.mpr fun b hb => ?_)
    exact hparts b (by simp [Expr.parts, hb])
  | _ => constructor <;> exact hparts _ (by simp [Expr.parts])

/-- The causes that hold a value at fault by its description. -/
inductive Cause.Describing : (String → Cause) → Prop where
  | invalidCondition (construct : Conditional) : Describing (.invalidCondition construct)
  | notCallable : Describing .notCallable
  | typeMismatch (op : Operator) : Describing (.typeMismatch op)

/-- What two evaluations have in common. It grows from stage to stage as they go on; `codes` is
about expressions with the frames to evaluate them in. -/
structure Lockstep where
  Stage : Type
  le : Stage → Stage → Prop
  states : Stage → State → State → Prop
  values : Stage → Value → Value → Prop
  codes : Stage → Expr → Nat → Expr → Nat → Prop
  closures : Stage → Closure → Closure → Prop
  faults : Fault → Fault → Prop

namespace Lockstep

variable (L : Lockstep) {α β γ δ : Type}

/-- Both results are values that `Q` relates, or both are failures that belong together; either
way the states belong together at some later stage. -/
def Results (w : L.Stage) (Q : L.Stage → α → β → Prop) :
    EStateM.Result Fault State α → EStateM.Result Fault State β → Prop
  | .ok a s, .ok b t => ∃ w', L.le w w' ∧ L.states w' s t ∧ Q w' a b
  | .error φ s, .error ψ t => ∃ w', L.le w w' ∧ L.states w' s t ∧ L.faults φ ψ
  | _, _ => False

/-- Two computations that lead from states that belong together to such states again. -/
def Together (w : L.Stage) (Q : L.Stage → α → β → Prop) (x : EvalM α) (y : EvalM β) : Prop :=
  ∀ s t, L.states w s t → L.Results w Q (x s) (y t)

/-- The first computation ended with a fault by which it may stop short, at a point that the
second one passed through as well. -/
def StopsShort (quits : Fault → Prop) (w : L.Stage) (x : EStateM.Result Fault State α)
    (y : EStateM.Result Fault State β) : Prop :=
  ∃ w' φ s t, x = .error φ s ∧ quits φ ∧ L.le w w' ∧ L.states w' s t ∧ t.Grows (finalState y)

/-- Two computations that stay together unless the first one stops short. -/
def TogetherUnless (quits : Fault → Prop) (w : L.Stage) (Q : L.Stage → α → β → Prop)
    (x : EvalM α) (y : EvalM β) : Prop :=
  ∀ s t, L.states w s t → L.Results w Q (x s) (y t) ∨ L.StopsShort quits w (x s) (y t)

/-- An evaluator that keeps two evaluations together. -/
def Respects (ev : Evaluator) : Prop :=
  ∀ {w e f e' f'}, L.codes w e f e' f' → L.Together w L.values (ev e f) (ev e' f')

/-- An evaluator that keeps two evaluations together unless the first one stops short. -/
def RespectsUnless (quits : Fault → Prop) (ev : Evaluator) : Prop :=
  ∀ {w e f e' f'}, L.codes w e f e' f' →
    L.TogetherUnless quits w L.values (ev e f) (ev e' f')

/-- What it takes to go in lockstep, one law for everything that reads or writes the heap but for
the reading of names. -/
structure BasicLaws : Prop where
  le_refl (w) : L.le w w
  le_trans {w₁ w₂ w₃} : L.le w₁ w₂ → L.le w₂ w₃ → L.le w₁ w₃
  values_mono {w w' v v'} : L.le w w' → L.values w v v' → L.values w' v v'
  codes_mono {w w' e f e' f'} : L.le w w' → L.codes w e f e' f' → L.codes w' e f e' f'
  closures_mono {w w' c c'} : L.le w w' → L.closures w c c' → L.closures w' c c'
  faults_refl {φ} : φ.unplaced = φ → L.faults φ φ
  faults_stamp {w e f e' f' φ ψ} : L.codes w e f e' f' → L.faults φ ψ →
    L.faults (φ.stamp e.pos) (ψ.stamp e'.pos)
  aligned {w e f e' f'} : L.codes w e f e' f' →
    Expr.Aligned (L.values w) (fun a a' => L.codes w a f a' f') e e'
  plain {w v} : (∀ id, v ≠ .closure id) → L.values w v v
  alike {w v v'} : L.values w v v' →
    (v = v' ∧ ∀ id, v ≠ .closure id) ∨ ∃ i j, v = .closure i ∧ v' = .closure j
  eq_iff {w a a' b b'} : L.values w a a' → L.values w b b' → (a = b ↔ a' = b')
  described {w s t v v' cause} : L.states w s t → L.values w v v' → Cause.Describing cause →
    L.faults (.ofCause (cause (s.heap.describe v))) (.ofCause (cause (t.heap.describe v')))
  closure {w s t v v'} : L.states w s t → L.values w v v' →
    Option.Rel (L.closures w) (s.heap.closure? v) (t.heap.closure? v')
  print {w v v'} : L.values w v v' → L.Together w (fun _ _ _ => True) (print v) (print v')
  declare {w p x e f p' x' e' f' v v'} :
    L.codes w (.declare p x e) f (.declare p' x' e') f' → L.values w v v' →
    L.Together w (fun _ _ _ => True) (declare f x v) (declare f' x' v')
  assign {w p x e f p' x' e' f' v v'} :
    L.codes w (.assign p x e) f (.assign p' x' e') f' → L.values w v v' →
    L.Together w (fun _ _ _ => True) (assign f x v) (assign f' x' v')
  func {w p xs b f p' xs' b' f'} : L.codes w (.func p xs b) f (.func p' xs' b') f' →
    L.Together w L.values (newClosure ⟨xs, b, f⟩) (newClosure ⟨xs', b', f'⟩)
  enter {w c c' vs vs'} : L.closures w c c' → List.Forall₂ (L.values w) vs vs' →
    L.Together w (fun w' f f' => L.codes w' c.body f c'.body f')
      (Evaluator.enter c vs) (Evaluator.enter c' vs')

/-- What it takes to go in lockstep to the end. -/
structure Laws : Prop extends L.BasicLaws where
  read {w p x f p' x' f'} : L.codes w (.var p x) f (.var p' x') f' →
    L.Together w L.values (read f x) (read f' x')

/-- What it takes to go in lockstep unless the first evaluation stops short. -/
structure LawsUnless (quits : Fault → Prop) : Prop extends L.BasicLaws where
  quits_stamp {φ} (pos) : quits φ → quits (φ.stamp pos)
  read {w p x f p' x' f'} : L.codes w (.var p x) f (.var p' x') f' →
    L.TogetherUnless quits w L.values (read f x) (read f' x')

variable {L} {w : L.Stage} {Q : L.Stage → α → β → Prop} {R : L.Stage → γ → δ → Prop}

/-! ### Computations -/

theorem BasicLaws.ok (hL : L.BasicLaws) {s t : State} {a : α} {b : β} (hs : L.states w s t)
    (hQ : Q w a b) : L.Results w Q (.ok a s) (.ok b t) :=
  ⟨w, hL.le_refl w, hs, hQ⟩

theorem BasicLaws.error (hL : L.BasicLaws) {s t : State} {φ ψ : Fault} (hs : L.states w s t)
    (hf : L.faults φ ψ) : L.Results w Q (.error φ s) (.error ψ t) :=
  ⟨w, hL.le_refl w, hs, hf⟩

theorem BasicLaws.pure (hL : L.BasicLaws) {a : α} {b : β} (hQ : Q w a b) :
    L.Together w Q (Pure.pure a) (Pure.pure b) :=
  fun _ _ hs => hL.ok hs hQ

theorem BasicLaws.fail (hL : L.BasicLaws) (cause : Cause) :
    L.Together w Q (fail cause) (fail cause) :=
  fun _ _ hs => hL.error hs (hL.faults_refl rfl)

/-- Values that belong together can both be written, or neither can. -/
theorem BasicLaws.writable (hL : L.BasicLaws) {v v' : Value} (hv : L.values w v v') :
    v.writable = v'.writable := by
  rcases hL.alike hv with ⟨rfl, -⟩ | ⟨i, j, rfl, rfl⟩ <;> rfl

/-- What is no closure belongs to itself only. -/
theorem BasicLaws.plain_iff (hL : L.BasicLaws) {v v' : Value} (hv : L.values w v v') (u : Value)
    (hu : ∀ id, u ≠ .closure id) : v = u ↔ v' = u := by
  rcases hL.alike hv with ⟨rfl, -⟩ | ⟨i, j, rfl, rfl⟩
  · rfl
  · exact ⟨fun h => absurd h.symm (hu i), fun h => absurd h.symm (hu j)⟩

/-- A value at fault is named on both sides. -/
theorem BasicLaws.complain (hL : L.BasicLaws) (v v' : Value) (cause : String → Cause)
    (hv : L.values w v v') (hc : Cause.Describing cause) :
    L.Together w Q (do EvalM.fail (cause (← describe v)))
      (do EvalM.fail (cause (← describe v'))) := by
  intro s t hs
  rw [complain_eq v cause s, complain_eq v' cause t]
  refine hL.error hs ?_
  unfold Fault.about
  rw [hL.writable hv]
  split
  · exact hL.described hs hv hc
  · exact hL.faults_refl rfl

theorem BasicLaws.callee (hL : L.BasicLaws) {v v' : Value} (hv : L.values w v v') :
    L.Together w L.closures (Evaluator.callee v) (Evaluator.callee v') := by
  intro s t hs
  have hc := hL.closure hs hv
  cases hcv : s.heap.closure? v with
  | none =>
    cases hcv' : t.heap.closure? v' with
    | some _ => simp [hcv, hcv'] at hc
    | none =>
      rw [callee_of_none hcv, callee_of_none hcv']
      exact hL.complain v v' .notCallable hv .notCallable s t hs
  | some c =>
    cases hcv' : t.heap.closure? v' with
    | none => simp [hcv, hcv'] at hc
    | some c' =>
      rw [callee_of_some hcv, callee_of_some hcv']
      rw [hcv, hcv', Option.rel_some_some] at hc
      exact hL.ok hs hc

theorem BasicLaws.operator (hL : L.BasicLaws) (op : Operator) {a a' b b' : Value}
    (ha : L.values w a a') (hb : L.values w b b') :
    L.Together w L.values (do ofExcept (op.apply (← getHeap) a b))
      (do ofExcept (op.apply (← getHeap) a' b')) := by
  intro s t hs
  rw [getHeap_bind, getHeap_bind]
  by_cases hop : op = .eq
  · subst hop
    rw [(Operator.Computes.eq a b).apply, (Operator.Computes.eq a' b').apply]
    refine hL.ok hs ?_
    simp only [hL.eq_iff ha hb]
    exact hL.plain (by simp)
  by_cases hn : ∃ n, a = .number n
  · obtain ⟨n, rfl⟩ := hn
    obtain rfl := (hL.plain_iff ha (.number n) (by simp)).mp rfl
    by_cases hm : ∃ m, b = .number m
    · obtain ⟨m, rfl⟩ := hm
      obtain rfl := (hL.plain_iff hb (.number m) (by simp)).mp rfl
      -- on two numbers no operator looks at the heap
      rcases Operator.computes_or_refuses s.heap op (.number n) (.number m) with
        ⟨v, hc⟩ | ⟨cause, hr⟩
      · rw [hc.apply s.heap, hc.apply t.heap]
        exact hL.ok hs (hL.plain (by cases hc <;> simp))
      · have ht : op.apply t.heap (.number n) (.number m) = .error cause := hr.apply
        rw [hr.apply, ht]
        exact hL.error hs (hL.faults_refl rfl)
    · have hb' : ∀ m, b' ≠ .number m :=
        fun m h => hm ⟨m, (hL.plain_iff hb (.number m) (by simp)).mpr h⟩
      rw [(Operator.Refuses.right hop fun m h => hm ⟨m, h⟩).apply,
        (Operator.Refuses.right hop hb').apply]
      exact hL.error hs (hL.described hs hb (.typeMismatch op))
  · have ha' : ∀ n, a' ≠ .number n :=
      fun n h => hn ⟨n, (hL.plain_iff ha (.number n) (by simp)).mpr h⟩
    rw [(Operator.Refuses.left hop fun n h => hn ⟨n, h⟩).apply,
      (Operator.Refuses.left hop ha').apply]
    exact hL.error hs (hL.described hs ha (.typeMismatch op))

/-! ### Stopping short -/

variable {quits : Fault → Prop}

theorem Together.unless {x : EvalM α} {y : EvalM β} (hx : L.Together w Q x y) :
    L.TogetherUnless quits w Q x y :=
  fun s t hs => .inl (hx s t hs)

theorem TogetherUnless.of_never {x : EvalM α} {y : EvalM β}
    (hx : L.TogetherUnless (fun _ => False) w Q x y) : L.Together w Q x y := by
  intro s t hs
  rcases hx s t hs with hr | ⟨w', φ, s', t', -, hquits, -⟩
  · exact hr
  · exact hquits.elim

/-- What is so at a later stage is so at an earlier one. -/
theorem BasicLaws.later (hL : L.BasicLaws) {w' : L.Stage} (hw : L.le w w')
    {x : EStateM.Result Fault State α} {y : EStateM.Result Fault State β}
    (h : L.Results w' Q x y ∨ L.StopsShort quits w' x y) :
    L.Results w Q x y ∨ L.StopsShort quits w x y := by
  rcases h with hr | ⟨w'', φ, s, t, hx, hquits, hw', hrest⟩
  · refine .inl ?_
    cases x <;> cases y <;> simp only [Results] at hr ⊢
    all_goals
      obtain ⟨w'', hw', hrest⟩ := hr
      exact ⟨w'', hL.le_trans hw hw', hrest⟩
  · exact .inr ⟨w'', φ, s, t, hx, hquits, hL.le_trans hw hw', hrest⟩

/-- The second computation need not be known to end as the first one does once that has stopped
short; it only has to let states grow. -/
theorem BasicLaws.bind (hL : L.BasicLaws) {x : EvalM α} {y : EvalM β} {k : α → EvalM γ}
    {l : β → EvalM δ} [hl : ∀ b, Growing (l b)] (hx : L.TogetherUnless quits w Q x y)
    (hk : ∀ {w' a b}, L.le w w' → Q w' a b → L.TogetherUnless quits w' R (k a) (l b)) :
    L.TogetherUnless quits w R (x >>= k) (y >>= l) := by
  intro s t hs
  rcases hx s t hs with hr | ⟨w', φ, s', t', hxs, hquits, hw, hs', hgrows⟩
  · cases hxs : x s <;> cases hyt : y t <;> rw [hxs, hyt] at hr
    case ok.ok a s' b t' =>
      obtain ⟨w', hw, hs', hQ⟩ := hr
      rw [bind_of_ok hxs, bind_of_ok hyt]
      exact hL.later hw (hk hw hQ s' t' hs')
    case error.error =>
      rw [bind_of_error hxs, bind_of_error hyt]
      exact .inl hr
    case ok.error | error.ok => exact hr.elim
  · refine .inr ⟨w', φ, s', t', bind_of_error hxs, hquits, hw, hs', hgrows.trans ?_⟩
    cases hyt : y t with
    | ok b t'' =>
      rw [bind_of_ok hyt]
      exact (hl b).grows t''
    | error ψ t'' =>
      rw [bind_of_error hyt]
      exact .refl t''

theorem LawsUnless.stamp (hL : L.LawsUnless quits) {e e' : Expr} {f f' : Nat} {x : EvalM α}
    {y : EvalM β} (hc : L.codes w e f e' f') (hx : L.TogetherUnless quits w Q x y) :
    L.TogetherUnless quits w Q (stamp e.pos x) (stamp e'.pos y) := by
  intro s t hs
  rw [stamp_eq, stamp_eq]
  rcases hx s t hs with hr | ⟨w', φ, s', t', hxs, hquits, hw, hs', hgrows⟩
  · refine .inl ?_
    cases hxs : x s <;> cases hyt : y t <;> simp only [hxs, hyt, Results] at hr ⊢
    · exact hr
    · obtain ⟨w', hw, hs', hf⟩ := hr
      exact ⟨w', hw, hs', hL.faults_stamp hc hf⟩
  · refine .inr ⟨w', φ.stamp e.pos, s', t', by rw [hxs], hL.quits_stamp _ hquits, hw, hs', ?_⟩
    cases hyt : y t <;> rwa [hyt] at hgrows

/-! ### Constructs -/

section Step

variable {ev : Evaluator} {f f' : Nat}

theorem LawsUnless.condition (hL : L.LawsUnless quits) (hev : L.RespectsUnless quits ev)
    {test test' : Expr} (ht : L.codes w test f test' f') (construct : Conditional) :
    L.TogetherUnless quits w (fun _ b b' => b = b') (ev.condition construct test f)
      (ev.condition construct test' f') := by
  refine @BasicLaws.bind _ _ _ _ _ _ _ _ _ hL.toBasicLaws _ _ _ _ ?_ (hev ht) ?_
  · intro v
    split <;> infer_instance
  intro w' v v' _ hv
  by_cases hb : ∃ b, v = .bool b
  · obtain ⟨b, rfl⟩ := hb
    obtain rfl := (hL.plain_iff hv (.bool b) (by simp)).mp rfl
    exact (hL.pure rfl).unless
  · have hb' : ∀ b, v' ≠ .bool b := fun b h => hb ⟨b, (hL.plain_iff hv _ (by simp)).mpr h⟩
    split
    · exact absurd ⟨_, rfl⟩ hb
    · exact (hL.complain v v' (.invalidCondition construct) hv (.invalidCondition construct)).unless

variable [∀ e f, Growing (ev e f)]

theorem LawsUnless.rounds (hL : L.LawsUnless quits) (hev : L.RespectsUnless quits ev)
    {test test' body body' : Expr} (ht : L.codes w test f test' f')
    (hb : L.codes w body f body' f') (n : Nat) {last last' : Value}
    (hlast : L.values w last last') :
    L.TogetherUnless quits w L.values (ev.rounds test body f n last)
      (ev.rounds test' body' f' n last') := by
  induction n generalizing w last last' with
  | zero => exact fun _ _ hs => .inl (hL.error hs (hL.faults_refl rfl))
  | succ n ih =>
    refine hL.bind (hL.condition hev ht .loop) fun {w' goes goes'} hw hg => ?_
    subst hg
    cases goes with
    | false => exact (hL.pure (hL.values_mono hw hlast)).unless
    | true =>
      refine hL.bind (hev (hL.codes_mono hw hb)) fun hw' hv => ?_
      have hle := hL.le_trans hw hw'
      exact ih (hL.codes_mono hle ht) (hL.codes_mono hle hb) hv

theorem LawsUnless.statements (hL : L.LawsUnless quits) (hev : L.RespectsUnless quits ev)
    {e e' : Expr} (he : L.codes w e f e' f') :
    L.TogetherUnless quits w L.values (ev.statements f e) (ev.statements f' e') := by
  induction e generalizing w e' with
  | seq p first second _ ih =>
    cases hL.aligned he with
    | seq hfirst hsecond =>
      exact hL.bind (hev hfirst) fun hw _ => ih (hL.codes_mono hw hsecond)
  | _ =>
    -- neither side is a row, so both are left to the evaluator
    have ha := hL.aligned he
    cases ha
    all_goals exact hev he

theorem LawsUnless.list (hL : L.LawsUnless quits) (hev : L.RespectsUnless quits ev)
    {es es' : List Expr} (hes : List.Forall₂ (fun e e' => L.codes w e f e' f') es es') :
    L.TogetherUnless quits w (fun w' => List.Forall₂ (L.values w')) (ev.list f es)
      (ev.list f' es') := by
  induction es generalizing w es' with
  | nil =>
    cases hes
    exact (hL.pure .nil).unless
  | cons e es ih =>
    obtain ⟨e', rest', he, hrest, rfl⟩ := List.forall₂_cons_left_iff.mp hes
    refine hL.bind (hev he) fun hw hv => ?_
    refine hL.bind (ih (hrest.imp fun _ _ h => hL.codes_mono hw h)) fun hw' hvs => ?_
    exact (hL.pure (.cons (hL.values_mono hw' hv) hvs)).unless

theorem LawsUnless.apply (hL : L.LawsUnless quits) (hev : L.RespectsUnless quits ev)
    {c c' : Closure} {vs vs' : List Value} (hc : L.closures w c c')
    (hvs : List.Forall₂ (L.values w) vs vs') :
    L.TogetherUnless quits w L.values (ev.apply c vs) (ev.apply c' vs') := by
  rw [Evaluator.apply_eq, Evaluator.apply_eq]
  exact hL.bind (hL.enter hc hvs).unless fun _ hcode => hev hcode

theorem LawsUnless.step (hL : L.LawsUnless quits) (hev : L.RespectsUnless quits ev) (limit : Nat)
    {e e' : Expr} (he : L.codes w e f e' f') :
    L.TogetherUnless quits w L.values (ev.step limit e f) (ev.step limit e' f') := by
  cases hL.aligned he with
  | const hv => exact (hL.pure hv).unless
  | var => exact hL.read he
  | print ha =>
    refine hL.bind (hev ha) fun _ hv => ?_
    exact hL.bind (hL.print hv).unless fun hw _ => (hL.pure (hL.values_mono hw hv)).unless
  | binary op ha hb =>
    refine hL.bind (hev ha) fun hw hv => ?_
    refine hL.bind (hev (hL.codes_mono hw hb)) fun hw' hv' => ?_
    exact (hL.operator op (hL.values_mono hw' hv) hv').unless
  | cond ht hy hn =>
    refine hL.bind (hL.condition hev ht .branch) fun {w' goes goes'} hw hg => ?_
    subst hg
    cases goes with
    | true => exact hev (hL.codes_mono hw hy)
    | false => exact hev (hL.codes_mono hw hn)
  | loop ht hb => exact hL.rounds hev ht hb limit (hL.plain (by simp))
  | seq _ _ => exact hL.statements hev he
  | declare ha =>
    refine hL.bind (hev ha) fun hw hv => ?_
    exact hL.bind (hL.declare (hL.codes_mono hw he) hv).unless fun hw' _ =>
      (hL.pure (hL.values_mono hw' hv)).unless
  | assign ha =>
    refine hL.bind (hev ha) fun hw hv => ?_
    exact hL.bind (hL.assign (hL.codes_mono hw he) hv).unless fun hw' _ =>
      (hL.pure (hL.values_mono hw' hv)).unless
  | func => exact (hL.func he).unless
  | call hc has =>
    refine hL.bind (hev hc) fun hw hv => ?_
    refine hL.bind (hL.callee hv).unless fun hw' hclosure => ?_
    have hle := hL.le_trans hw hw'
    refine hL.bind (hL.list hev (has.imp fun _ _ h => hL.codes_mono hle h)) fun hw'' hvs => ?_
    exact hL.apply hev (hL.closures_mono hw'' hclosure) hvs
  | foreign type => exact (hL.fail _).unless

end Step

/-- Two evaluations stay together up to where the first one stops short, if everything that
touches the heap keeps them together. -/
theorem LawsUnless.eval (hL : L.LawsUnless quits) (rounds depth : Nat) :
    L.RespectsUnless quits (evalWithin rounds depth) := by
  induction depth with
  | zero => exact fun _ => (hL.fail _).unless
  | succ depth ih => exact fun he => hL.stamp he (hL.step ih rounds he)

/-- Evaluation keeps together what everything that touches the heap keeps together. -/
theorem Laws.eval (hL : L.Laws) (rounds depth : Nat) : L.Respects (evalWithin rounds depth) := by
  have hnever : L.LawsUnless fun _ => False :=
    { hL.toBasicLaws with quits_stamp := fun _ h => h, read := fun hc => (hL.read hc).unless }
  intro w e f e' f' he
  exact (hnever.eval rounds depth he).of_never

end Lockstep

end Scriptlet
