import Scriptlet.Proofs.Evaluation.Failure
import Scriptlet.Proofs.Strictness.Override

/-! Which policy a call on a shared environment goes by when it reads an unbound name. It may set
one for its time, but only on its own frame. The frames that it makes take after the frames that
they hang under, so a closure from an earlier call stays with the policy of that call. -/

namespace Scriptlet

open EvalM Evaluator

/-! ### What frames inherit while a call runs -/

/-- Frames from number `n` on are as strict as their parents. All code runs in frames, and calls
only enter closures over frames, that are strict or lax as allowed. -/
def Invariant.policy (n : Nat) (allowed : Bool → Prop) : Invariant where
  Stage := Heap
  le := Heap.Grows
  heaps w h := w = h ∧ h.Inherits n allowed
  values _ _ := True
  codes h _ f := f < h.frames.size ∧ allowed (h.strict f)
  closures h c := c.frame < h.frames.size
  enters c _ s := c.frame < n → allowed (s.heap.strict c.frame)

section Laws

variable {n : Nat} {allowed : Bool → Prop}

theorem Heap.Inherits.put {h : Heap} (hi : h.Inherits n allowed) (f : Nat) (x : String)
    (v : Value) : ∃ w, h.Grows w ∧ (Invariant.policy n allowed).heaps w (h.put f x v) :=
  ⟨_, .put h f x v, rfl,
    hi.grow (.put h f x v) (hi.ordered.put_follows f x v).ordered (by simp)⟩

theorem Invariant.policy_laws : (policy n allowed).Laws where
  le_refl := .refl
  le_trans h h' := h.trans h'
  values_mono _ _ := trivial
  codes_mono hw he := ⟨Nat.lt_of_lt_of_le he.1 hw.size_le, by rw [hw.strict_eq he.1]; exact he.2⟩
  closures_mono hw hc := Nat.lt_of_lt_of_le hc hw.size_le
  part he _ := he
  const _ := trivial
  plain _ := trivial
  closure := by
    rintro w _ v c ⟨rfl, hi⟩ - hc
    exact (hi.ordered.holds_captured hc).lt
  read _ _ _ := trivial
  declare := by
    rintro w _ p x e f v ⟨rfl, hi⟩ - - -
    exact hi.put f x v
  assign := by
    rintro w _ p x e f v ⟨rfl, hi⟩ - -
    exact hi.put _ x v
  func := by
    rintro w _ p xs b f ⟨rfl, hi⟩ he
    have hgrows := Heap.Grows.pushClosure w ⟨xs, b, f⟩
    have hordered := ((⟨hi.ordered, he.1⟩ : w.Holds f).pushClosure_follows xs b).ordered
    exact ⟨_, hgrows, ⟨rfl, hi.grow hgrows hordered rfl⟩, trivial⟩
  enter := by
    rintro w c vs s repeated h' ⟨rfl, hi⟩ hc - henters - hd
    -- the captured frame was there before, or it was made since and took after its parent
    have ha : allowed (s.heap.strict c.frame) := by
      by_cases hn : c.frame < n
      · exact henters hn
      · exact hi.policy (Nat.le_of_not_lt hn) hc
    have hi' := hi.pushFrame hc ha
    refine ⟨h', (Heap.Grows.pushFrame s.heap (some c.frame) none).trans hd.grows,
      ⟨rfl, hi'.grow hd.grows (hd.follows hi'.ordered).ordered hd.size_eq⟩, fun _ => ?_⟩
    have hnew : s.heap.frames.size < (s.heap.pushFrame (some c.frame) none).frames.size := by
      simp [Heap.pushFrame]
    refine ⟨by rwa [hd.size_eq], ?_⟩
    rw [hd.grows.strict_eq hnew, Heap.strict_pushFrame, if_pos rfl]
    exact ha

end Laws

/-- The evaluation that a call begins: with its frame made strict or lax, if asked. -/
def Activation.ofCall (f : Nat) (strict : Option Bool) (e : Expr) (s : State) : Activation :=
  ⟨e, f, s.override f strict⟩

section Call

variable {s : State} {f : Nat} {strict : Option Bool} {e : Expr} {rounds depth d : Nat}
  {a : Activation} (ho : s.heap.Ordered) (hf : f < s.heap.frames.size)
include ho hf

theorem Invariant.policy_ofCall (allowed : Bool → Prop)
    (hpolicy : allowed (strict.getD (s.heap.strict f))) :
    (policy s.heap.frames.size allowed).heaps (s.heap.override f strict)
      (s.heap.override f strict) ∧
    (policy s.heap.frames.size allowed).codes (s.heap.override f strict) e f := by
  have hi : (s.heap.override f strict).Inherits _ allowed := .of_size (ho.override f strict)
  rw [Heap.size_frames_override] at hi
  exact ⟨⟨rfl, hi⟩, by simpa using hf, by rwa [s.heap.strict_override f strict hf, if_pos rfl]⟩

theorem Within.grows_applies (ha : Within rounds depth (.ofCall f strict e s) (d + 1) a)
    {c : Closure} {vs : List Value} {s' : State} (hc : (evalWithin rounds d).Applies a c vs s') :
    (s.heap.override f strict).Grows s'.heap := by
  obtain ⟨hheap, hcode⟩ := @Invariant.policy_ofCall s f strict e ho hf (fun _ => True) trivial
  obtain ⟨w, hgrows, ⟨rfl, -⟩, -⟩ :=
    Invariant.policy_laws.about_to_call (fun _ _ _ => trivial) hheap hcode ha hc
  exact hgrows

variable (allowed : Bool → Prop) (hpolicy : allowed (strict.getD (s.heap.strict f)))
  (henters : ∀ {d a c vs s'}, Within rounds depth (.ofCall f strict e s) (d + 1) a →
    (evalWithin rounds d).Applies a c vs s' →
    (Invariant.policy s.heap.frames.size allowed).enters c vs s')
include hpolicy henters

theorem Within.inherits (ha : Within rounds depth (.ofCall f strict e s) d a) :
    (s.heap.override f strict).Grows a.state.heap ∧
      a.state.heap.Inherits s.heap.frames.size allowed ∧
      a.frame < a.state.heap.frames.size ∧ allowed (a.state.heap.strict a.frame) := by
  obtain ⟨hheap, hcode⟩ := Invariant.policy_ofCall (e := e) ho hf allowed hpolicy
  obtain ⟨w, hgrows, ⟨rfl, hi⟩, hlt, hallowed⟩ :=
    Invariant.policy_laws.begins henters ha hheap hcode
  exact ⟨hgrows, hi, hlt, hallowed⟩

theorem Within.inherits_result (ha : Within rounds depth (.ofCall f strict e s) d a) :
    (s.heap.override f strict).Grows (finalState (a.result rounds d)).heap ∧
      (finalState (a.result rounds d)).heap.Inherits s.heap.frames.size allowed := by
  obtain ⟨hheap, hcode⟩ := Invariant.policy_ofCall (e := e) ho hf allowed hpolicy
  obtain ⟨w, hgrows, rfl, hi⟩ := Invariant.policy_laws.ends henters hheap hcode ha
  exact ⟨hgrows, hi⟩

end Call

theorem Limits.finalState_evalIn (limits : Limits) (f : Nat) (strict : Option Bool) (e : Expr)
    (s : State) :
    finalState (limits.evalIn f strict e s) =
      (finalState ((Activation.ofCall f strict e s).result limits.rounds limits.depth)).override f
        (strict.map fun _ => s.heap.strict f) := by
  change _ = (finalState (limits.eval e f (s.override f strict))).override f _
  rw [evalIn, withStrict_eq]
  cases limits.eval e f (s.override f strict) <;> rfl

theorem Limits.evalIn_ok {limits : Limits} {f : Nat} {strict : Option Bool} {e : Expr}
    {s s' : State} {v : Value} (hr : limits.evalIn f strict e s = .ok v s') :
    ∃ s'', (Activation.ofCall f strict e s).result limits.rounds limits.depth = .ok v s'' ∧
      s' = s''.override f (strict.map fun _ => s.heap.strict f) := by
  change ∃ s'', limits.eval e f (s.override f strict) = _ ∧ _
  rw [evalIn, withStrict_eq] at hr
  cases hx : limits.eval e f (s.override f strict) with
  | error fault s'' => simp [hx] at hr
  | ok w s'' =>
    simp only [hx, EStateM.Result.ok.injEq] at hr
    exact ⟨s'', by rw [hr.1], hr.2.symm⟩

theorem Limits.evalIn_error {limits : Limits} {f : Nat} {strict : Option Bool} {e : Expr}
    {s s' : State} {fault : Fault} (hr : limits.evalIn f strict e s = .error fault s') :
    ∃ s'', (Activation.ofCall f strict e s).result limits.rounds limits.depth =
      .error fault s'' := by
  change ∃ s'', limits.eval e f (s.override f strict) = _
  rw [evalIn, withStrict_eq] at hr
  cases hx : limits.eval e f (s.override f strict) with
  | ok v s'' => simp [hx] at hr
  | error φ s'' =>
    simp only [hx, EStateM.Result.error.injEq] at hr
    exact ⟨s'', by rw [hr.1]⟩

/-- After a call each frame that was there is as strict as before it, and each frame that it made
is as strict as the one around it that was there was during the call. -/
theorem Limits.strict_evalIn (limits : Limits) {f : Nat} (strict : Option Bool) (e : Expr)
    {s : State} (ho : s.heap.Ordered) (hf : f < s.heap.frames.size) :
    let h' := (finalState (limits.evalIn f strict e s)).heap
    h'.Ordered ∧ (∀ g < s.heap.frames.size, h'.strict g = s.heap.strict g) ∧
      ∀ g, s.heap.frames.size ≤ g → g < h'.frames.size →
        ∃ b < s.heap.frames.size, h'.base? s.heap.frames.size g = some b ∧
          h'.strict g = (s.heap.override f strict).strict b := by
  intro h'
  let h := (finalState ((Activation.ofCall f strict e s).result limits.rounds limits.depth)).heap
  have hh' : h' = h.override f (strict.map fun _ => s.heap.strict f) :=
    congrArg State.heap (limits.finalState_evalIn f strict e s)
  obtain ⟨hgrows, hi⟩ := Within.root.inherits_result ho hf (fun _ => True) trivial
    (fun _ _ _ => trivial)
  have hsize : s.heap.frames.size ≤ h.frames.size := by simpa using hgrows.size_le
  have hold {g : Nat} (hg : g < s.heap.frames.size) :
      h.strict g = (s.heap.override f strict).strict g := hgrows.strict_eq (by simpa using hg)
  have hstrict (g : Nat) := h.strict_override g (strict.map fun _ => s.heap.strict f)
    (Nat.lt_of_lt_of_le hf hsize)
  rw [hh']
  refine ⟨hi.ordered.override f _, fun g hg => ?_, fun g hle hlt => ?_⟩
  · rw [hstrict, hold hf, hold hg, s.heap.strict_override f strict hf,
      s.heap.strict_override g strict hf]
    cases strict <;> split <;> simp_all
  · obtain ⟨b, hb, hbn, hgb⟩ := hi.strict_base (by simpa using hlt)
    refine ⟨b, hbn, by simpa using hb, ?_⟩
    rw [hstrict, if_neg (by omega), hgb, hold hbn]

/-! ### Going by one policy -/

theorem evalWithin_var_of_unbound {rounds d : Nat} {pos : Option Position} {x : String} {g : Nat}
    {s : State} (hx : s.heap.resolve? g x = none) :
    evalWithin rounds (d + 1) (.var pos x) g s =
      if s.heap.strict g then .error (.error ⟨.unboundVariable x, pos.map .ofPosition⟩) s
      else .ok .null s := by
  change stamp pos (EvalM.read g x) s = _
  rw [stamp_eq, read_eq, hx]
  cases s.heap.strict g <;> rfl

/-- Only in a strict frame does an evaluation fail by itself because a name is unbound. -/
theorem Evaluator.Raises.strict_of_unbound {ev : Evaluator} {limit : Nat} {a : Activation}
    {fault : Fault} {s : State} (hr : ev.Raises limit a fault s)
    (hk : fault.kind? = some .unboundVariable) : a.state.heap.strict a.frame = true := by
  cases hr with
  | unbound _ hs => exact hs
  | unwritable | unfinished | duplicate | foreign => cases hk
  | refused _ _ hr => cases hr <;> cases hk
  | condition | loopCondition | notCallable =>
    unfold Fault.about at hk
    split at hk <;> cases hk
  | entry _ he => obtain rfl | ⟨x, rfl⟩ := enter_error_cases he <;> cases hk

/-- What it is for a call to go by one policy. If it is strict, every unbound name that is read
during the call is an error. If it is lax, no evaluation during the call, and so not the call
itself, ends with such an error. -/
structure Limits.Obeys (limits : Limits) (f : Nat) (strict : Option Bool) (e : Expr) (s : State)
    (policy : Bool) : Prop where
  fails : policy = true → ∀ {d pos x g s'},
    Within limits.rounds limits.depth (.ofCall f strict e s) (d + 1) ⟨.var pos x, g, s'⟩ →
    s'.heap.resolve? g x = none → ∃ place,
      evalWithin limits.rounds (d + 1) (.var pos x) g s' =
        .error (.error ⟨.unboundVariable x, place⟩) s'
  never : policy = false → ∀ {d a fault s'},
    Within limits.rounds limits.depth (.ofCall f strict e s) d a →
    a.result limits.rounds d = .error fault s' → fault.kind? ≠ some .unboundVariable
  outcome : policy = false → ∀ {fault s'}, limits.evalIn f strict e s = .error fault s' →
    fault.kind? ≠ some .unboundVariable

section OnePolicy

variable {limits : Limits} {f : Nat} {strict : Option Bool} {e : Expr} {s : State}
  (ho : s.heap.Ordered) (hf : f < s.heap.frames.size)
  (happlies : ∀ {d a c vs s'}, Within limits.rounds limits.depth (.ofCall f strict e s) (d + 1) a →
    (evalWithin limits.rounds d).Applies a c vs s' → c.frame < s.heap.frames.size →
    (s.heap.override f strict).strict c.frame = strict.getD (s.heap.strict f))
include ho hf happlies

theorem Within.strict_frame {d : Nat} {a : Activation}
    (ha : Within limits.rounds limits.depth (.ofCall f strict e s) d a) :
    a.state.heap.strict a.frame = strict.getD (s.heap.strict f) := by
  refine (ha.inherits ho hf (· = strict.getD (s.heap.strict f)) rfl ?_).2.2.2
  intro d a c vs s' ha hc hn
  rw [(ha.grows_applies ho hf hc).strict_eq (by simpa using hn)]
  exact happlies ha hc hn

theorem Within.kind_ne_unbound {d : Nat} {a : Activation} {fault : Fault} {s' : State}
    (ha : Within limits.rounds limits.depth (.ofCall f strict e s) d a)
    (hr : a.result limits.rounds d = .error fault s')
    (hlax : strict.getD (s.heap.strict f) = false) : fault.kind? ≠ some .unboundVariable := by
  intro hk
  rcases Activation.exists_raises hr with hdepth | ⟨d', b, hb, hraise⟩
  · simp [hk] at hdepth
  · have hstrict := hraise.strict_of_unbound (by rw [Fault.kind?_unplaced, hk])
    rw [(ha.trans hb).strict_frame ho hf happlies, hlax] at hstrict
    cases hstrict

/-- A call goes by the policy of its own frame if all closures that it calls, and that were there
before it, captured frames of the same policy. -/
theorem Limits.Obeys.of_applies : limits.Obeys f strict e s (strict.getD (s.heap.strict f)) where
  fails hstrict {d pos x g s'} ha hx := by
    have hg := ha.strict_frame ho hf happlies
    rw [evalWithin_var_of_unbound hx, hg, hstrict]
    exact ⟨_, rfl⟩
  never hlax {d a fault s'} ha hr := ha.kind_ne_unbound ho hf happlies hr hlax
  outcome hlax {fault s'} hr := by
    obtain ⟨s'', hr⟩ := evalIn_error hr
    exact Within.root.kind_ne_unbound ho hf happlies hr hlax

end OnePolicy

/-! ### Sessions -/

/-- What a session can come to. Beginning with nothing, environments are made, and expressions and
texts are evaluated in any frame that is there, under any limits. The policies are those that an
environment is made with or a call sets. -/
inductive Session (policies : Bool → Prop) : State → Prop where
  | start : Session policies .empty
  | environment {s strict} (hs : Session policies s) (hp : policies strict) :
      Session policies (finalState (newFrame none (some strict) s))
  | eval {s f strict} (hs : Session policies s) (hf : f < s.heap.frames.size)
      (hp : ∀ p ∈ strict, policies p) (limits : Limits) (e : Expr) :
      Session policies (finalState (limits.evalIn f strict e s))
  | run {s f strict} (hs : Session policies s) (hf : f < s.heap.frames.size)
      (hp : ∀ p ∈ strict, policies p) (limits : Limits) (source : String) :
      Session policies (finalState (Program.runIn limits f strict source s))

theorem Session.fresh {policies : Bool → Prop} {strict : Bool} (hp : policies strict) :
    Session policies (.fresh strict) :=
  .environment .start hp

/-- The heap of a session is ordered, and its frames go by the policies of the session. -/
structure Heap.Governed (h : Heap) (policies : Bool → Prop) : Prop where
  ordered : h.Ordered
  policy {g} : g < h.frames.size → policies (h.strict g)

theorem Heap.Governed.environment {h : Heap} {policies : Bool → Prop} (hh : h.Governed policies)
    {strict : Bool} (hp : policies strict) :
    (h.pushFrame none (some strict)).Governed policies where
  ordered := (hh.ordered.pushFrame_follows (by simp) (some strict)).ordered
  policy {g} hg := by
    simp only [Heap.strict, Heap.pushFrame, Array.getElem?_push, Array.size_push] at hg ⊢
    split
    · exact hp
    · exact hh.policy (by omega)

theorem Heap.Governed.eval {s : State} {policies : Bool → Prop} (hh : s.heap.Governed policies)
    {f : Nat} (hf : f < s.heap.frames.size) {strict : Option Bool} (hp : ∀ p ∈ strict, policies p)
    (limits : Limits) (e : Expr) :
    (finalState (limits.evalIn f strict e s)).heap.Governed policies := by
  obtain ⟨hordered, hold, hnew⟩ := limits.strict_evalIn strict e hh.ordered hf
  refine ⟨hordered, fun {g} hg => ?_⟩
  by_cases hlt : g < s.heap.frames.size
  · rw [hold g hlt]
    exact hh.policy hlt
  · obtain ⟨b, hb, -, hstrict⟩ := hnew g (Nat.le_of_not_lt hlt) hg
    rw [hstrict, s.heap.strict_override b strict hf]
    split
    · cases strict with
      | none => exact hh.policy hf
      | some p => exact hp p rfl
    · exact hh.policy hb

theorem Session.governed {policies : Bool → Prop} {s : State} (hs : Session policies s) :
    s.heap.Governed policies := by
  induction hs with
  | start => exact ⟨Heap.ordered_empty, fun hg => by simp [State.empty, Heap.empty] at hg⟩
  | environment _ hp ih => exact ih.environment hp
  | eval _ hf hp limits e ih => exact ih.eval hf hp limits e
  | @run s f strict _ hf hp limits source ih =>
    cases hparse : Program.parse source with
    | error fault =>
      rw [Program.runIn_of_error hparse]
      exact ih
    | ok e =>
      rw [Program.runIn_of_ok hparse]
      exact ih.eval hf hp limits e

/-- In any session, a call on any frame goes by policies as follows. An unbound name is an error or
null as the frame that was there before the call, and that its reader hangs under, has it; of these
frames the call sets the policy of its own one only. When the call is over, the frames that it made
keep what they took over, and the others have their own policies back. So the call goes by its own
policy throughout if all closures from before that it calls captured frames of that policy, which
they did if the session knows no other. -/
theorem evalIn_policy {policies : Bool → Prop} {s : State} (hs : Session policies s) {f : Nat}
    (hf : f < s.heap.frames.size) (strict : Option Bool) (e : Expr) (limits : Limits) :
    let n := s.heap.frames.size
    let during := s.heap.override f strict
    let after := (finalState (limits.evalIn f strict e s)).heap
    let policy := strict.getD (s.heap.strict f)
    let root := Activation.ofCall f strict e s
    (∀ d pos x g s', Within limits.rounds limits.depth root (d + 1) ⟨.var pos x, g, s'⟩ →
      s'.heap.resolve? g x = none → ∃ b < n, s'.heap.base? n g = some b ∧
        evalWithin limits.rounds (d + 1) (.var pos x) g s' =
          if during.strict b then .error (.error ⟨.unboundVariable x, pos.map .ofPosition⟩) s'
          else .ok .null s') ∧
    (∀ g, during.strict g = if g = f then policy else s.heap.strict g) ∧
    (∀ g < n, after.strict g = s.heap.strict g) ∧
    (∀ g, n ≤ g → g < after.frames.size → ∃ b < n, after.base? n g = some b ∧
      after.strict g = during.strict b) ∧
    ((∀ d a c vs s', Within limits.rounds limits.depth root (d + 1) a →
      (evalWithin limits.rounds d).Applies a c vs s' → c.frame < n →
      during.strict c.frame = policy) → limits.Obeys f strict e s policy) ∧
    ((∀ p, policies p → p = policy) → limits.Obeys f strict e s policy) := by
  intro n during after policy root
  have hh := hs.governed
  obtain ⟨-, hold, hnew⟩ := limits.strict_evalIn strict e hh.ordered hf
  have hduring (g : Nat) : during.strict g = if g = f then policy else s.heap.strict g := by
    rw [s.heap.strict_override g strict hf]
    simp only [eq_comm]
    rfl
  refine ⟨fun d pos x g s' ha hx => ?_, hduring, hold, hnew, fun hc => ?_, fun hp => ?_⟩
  · obtain ⟨hgrows, hi, hg, -⟩ :=
      ha.inherits hh.ordered hf (fun _ => True) trivial (fun _ _ _ => trivial)
    obtain ⟨b, hb, hbn, hgb⟩ := hi.strict_base hg
    have hbefore : s'.heap.strict b = during.strict b := hgrows.strict_eq (by simpa using hbn)
    exact ⟨b, hbn, hb, by rw [evalWithin_var_of_unbound hx, hgb, hbefore]⟩
  · exact .of_applies hh.ordered hf fun ha happlies hn => hc _ _ _ _ _ ha happlies hn
  · refine .of_applies hh.ordered hf fun _ _ hn => ?_
    change during.strict _ = policy
    rw [hduring]
    split
    · rfl
    · exact hp _ (hh.policy hn)

/-- A function that a strict call left behind is called, in a session that knows strict calls only:
the call is strict throughout, and fails. -/
theorem policy_of_strict_session :
    let maker : Expr := .func none [] (.func none [] (.var none "x"))
    let s := finalState ((⟨3, 0⟩ : Limits).evalIn 0 (some true)
      (.declare none "f" (.call none maker [])) (.fresh true))
    let e : Expr := .call none (.var none "f") []
    Session (· = true) s ∧ 0 < s.heap.frames.size ∧
      (⟨2, 0⟩ : Limits).Obeys 0 (some true) e s true ∧
      ∃ s', (⟨2, 0⟩ : Limits).evalIn 0 (some true) e s =
        .error (.error ⟨.unboundVariable "x", none⟩) s' := by
  intro maker s e
  have hfresh : Session (· = true) (.fresh true) := .fresh rfl
  have hs : Session (· = true) s := hfresh.eval Nat.one_pos (by simp) ⟨3, 0⟩ _
  have hf : 0 < s.heap.frames.size := by decide +kernel
  refine ⟨hs, hf, (evalIn_policy hs hf (some true) e ⟨2, 0⟩).2.2.2.2.2 (fun p hp => hp), ?_⟩
  exact ⟨_, by with_unfolding_all rfl⟩

/-- A function that a call left behind goes by the policy of that call. A later call that sets the
other policy does not go by it where it calls that function: a lax call fails at an unbound name,
and a strict one takes it for null. -/
theorem captured_policy_outlives_call :
    let maker : Expr := .func none [] (.func none [] (.var none "x"))
    let s (p : Bool) := finalState ((⟨3, 0⟩ : Limits).evalIn 0 (some !p)
      (.declare none "f" (.call none maker [])) (.fresh p))
    let e : Expr := .call none (.var none "f") []
    let limits : Limits := ⟨2, 0⟩
    (Session (fun _ => True) (s false) ∧ ¬ limits.Obeys 0 (some false) e (s false) false ∧
      ∃ s', limits.evalIn 0 (some false) e (s false) =
        .error (.error ⟨.unboundVariable "x", none⟩) s') ∧
    Session (fun _ => True) (s true) ∧ ¬ limits.Obeys 0 (some true) e (s true) true ∧
      ∃ s', limits.evalIn 0 (some true) e (s true) = .ok .null s' := by
  intro maker s e limits
  have hsession (p : Bool) : Session (fun _ => True) (s p) :=
    .eval (.fresh trivial) Nat.one_pos (by simp) ⟨3, 0⟩ _
  obtain ⟨s', hfails⟩ : ∃ s', limits.evalIn 0 (some false) e (s false) =
      .error (.error ⟨.unboundVariable "x", none⟩) s' := ⟨_, by with_unfolding_all rfl⟩
  refine ⟨⟨hsession false, fun hobeys => hobeys.outcome rfl hfails rfl, s', hfails⟩,
    hsession true, fun hobeys => ?_, _, by with_unfolding_all rfl⟩
  -- the body of the function runs in a new frame under one that is still lax
  let s₁ := (s true).override 0 (some true)
  let c : Closure := ⟨[], .var none "x", 1⟩
  have hv : evalWithin 0 1 (.var none "f") 0 s₁ = .ok (.closure 1) s₁ := by with_unfolding_all rfl
  have hc : s₁.heap.closure? (.closure 1) = some c := by with_unfolding_all rfl
  have he : enter c [] s₁ = .ok 2 (finalState (enter c [] s₁)) := by with_unfolding_all rfl
  have hx : (finalState (enter c [] s₁)).heap.resolve? 2 "x" = none := by decide +kernel
  have hlax : (finalState (enter c [] s₁)).heap.strict 2 = false := by decide +kernel
  obtain ⟨place, hr⟩ := hobeys.fails rfl (Within.root.call (.entry (.call hv hc rfl) he)) hx
  simp [evalWithin_var_of_unbound hx, hlax] at hr

end Scriptlet
