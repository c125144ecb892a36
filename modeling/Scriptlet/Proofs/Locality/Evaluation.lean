import Scriptlet.Proofs.Evaluation.Lockstep
import Scriptlet.Proofs.Locality.Views

/-! Evaluation is local. It writes to no frame that it cannot reach, it stores no reference to one,
and what such frames hold has no influence on it. -/

namespace Scriptlet

open EvalM

namespace Outlook

variable {o : Outlook} {w : Extent}

/-- What was printed since the beginning is the same on both sides. -/
def Lines (o : Outlook) (s t : State) : Prop :=
  ∃ lines, s.printed.toList = o.left.printed.toList ++ lines ∧
    t.printed.toList = o.right.printed.toList ++ lines

/-- Two evaluations of one expression in one frame, side by side. -/
def lockstep (o : Outlook) : Lockstep where
  Stage := Extent
  le := Extent.LE
  states w s t := o.Heaps w s.heap t.heap ∧ o.Lines s t
  values := o.Values
  codes w e f e' f' := e = e' ∧ f = f' ∧ o.Runs w e f
  closures w c c' := c = c' ∧ o.Runs w c.body c.frame
  faults := Eq

/-! ### Values -/

theorem value_of_plain {v : Value} (hv : ∀ id, v ≠ .closure id) : o.value v = v := by
  cases v with
  | closure id => exact absurd rfl (hv id)
  | _ => rfl

theorem values_plain {v : Value} (hv : ∀ id, v ≠ .closure id) : o.Values w v v :=
  ⟨(value_of_plain hv).symm, fun id h => absurd h (hv id)⟩

/-- A closure that could be reached has its number on both sides. -/
theorem values_reached {id : Nat} (hid : o.Closures id) (hlt : id < w.closures) :
    o.Values w (.closure id) (.closure id) := by
  refine ⟨?_, ?_⟩
  · simp [value, Value.renumber, renumber_of_lt (o.reached hid).1]
  · rintro _ ⟨⟩
    exact ⟨.inl hid, hlt⟩

theorem values_alike {v v' : Value} (hv : o.Values w v v') :
    (v = v' ∧ ∀ id, v ≠ .closure id) ∨ ∃ i j, v = .closure i ∧ v' = .closure j := by
  obtain ⟨rfl, -⟩ := hv
  cases v with
  | closure id => exact .inr ⟨id, o.number id, rfl, rfl⟩
  | _ => exact .inl ⟨rfl, by simp⟩

theorem values_eq_iff {a a' b b' : Value} (ha : o.Values w a a') (hb : o.Values w b b') :
    a = b ↔ a' = b' := by
  obtain ⟨rfl, ha⟩ := ha
  obtain ⟨rfl, hb⟩ := hb
  cases a with
  | closure i =>
    cases b with
    | closure j =>
      have hinj := number_inj (ha i rfl).1 (hb j rfl).1
      change _ ↔ Value.closure (o.number i) = .closure (o.number j)
      simp [hinj]
    | _ => simp [value, Value.renumber]
  | _ => cases b <;> simp [value, Value.renumber]

namespace Heaps

variable {h k : Heap}

theorem closure? (hh : o.Heaps w h k) {v v' : Value} (hv : o.Values w v v') :
    Option.Rel (o.lockstep.closures w) (h.closure? v) (k.closure? v') := by
  obtain ⟨rfl, hknows⟩ := hv
  cases v with
  | closure id =>
    have hid := hknows id rfl
    change Option.Rel _ h.closures[id]? k.closures[o.number id]?
    rw [hh.closures hid]
    cases hc : h.closures[id]? with
    | none => exact .none
    | some c => exact .some ⟨rfl, hh.code hid hc⟩
  | _ => exact .none

theorem text_eq (hh : o.Heaps w h k) {v v' : Value} (hv : o.Values w v v') :
    k.text v' = h.text v := by
  obtain ⟨rfl, hknows⟩ := hv
  cases v with
  | closure id =>
    change (k.closures[o.number id]?.map Closure.text).getD "" = _
    rw [hh.closures (hknows id rfl)]
    rfl
  | _ => rfl

theorem describe_eq (hh : o.Heaps w h k) {v v' : Value} (hv : o.Values w v v') :
    k.describe v' = h.describe v := by
  rw [Heap.describe, Heap.describe, hh.text_eq hv]
  obtain ⟨rfl, -⟩ := hv
  cases v <;> rfl

end Heaps

/-! ### Evaluation -/

theorem lockstep_ok {α β : Type} {Q : Extent → α → β → Prop} {a : α} {b : β} {s t : State}
    (hh : o.Heaps w s.heap t.heap) (hl : o.Lines s t) (hQ : Q w a b) :
    o.lockstep.Results w Q (.ok a s) (.ok b t) :=
  ⟨w, .refl w, ⟨hh, hl⟩, hQ⟩

theorem lockstep_error {α β : Type} {Q : Extent → α → β → Prop} (φ : Fault) {s t : State}
    (hh : o.Heaps w s.heap t.heap) (hl : o.Lines s t) :
    o.lockstep.Results w Q (.error φ s) (.error φ t) :=
  ⟨w, .refl w, ⟨hh, hl⟩, rfl⟩

theorem lockstep_aligned {e : Expr} {f : Nat} (hr : o.Runs w e f) :
    Expr.Aligned (o.Values w) (fun a a' => a = a' ∧ f = f ∧ o.Runs w a f) e e := by
  refine Expr.aligned_self ?_ fun a ha => ?_
  · rintro p v rfl
    by_cases hv : ∃ id, v = .closure id
    · obtain ⟨id, rfl⟩ := hv
      obtain ⟨hid, hlt⟩ := hr.2 id ⟨p, by simp [Expr.all]⟩
      exact values_reached hid hlt
    · exact values_plain fun id h => hv ⟨id, h⟩
  · exact ⟨rfl, rfl, hr.1, fun id hid => hr.2 id (hid.of_part ha)⟩

theorem lockstep_read {f : Nat} (hf : o.Sees w f) (x : String) :
    o.lockstep.Together w o.lockstep.values (read f x) (read f x) := by
  intro s t ⟨hh, hl⟩
  have hres := hh.resolve? hf x
  rw [read_eq, read_eq, hh.strict_eq hf]
  generalize s.heap.resolve? f x = found at hres
  generalize t.heap.resolve? f x = found' at hres
  cases hres with
  | some hv => exact lockstep_ok hh hl hv
  | none =>
    cases s.heap.strict f with
    | true => exact lockstep_error _ hh hl
    | false => exact lockstep_ok hh hl (values_plain (by simp))

theorem lockstep_print {v v' : Value} (hv : o.Values w v v') :
    o.lockstep.Together w (fun _ _ _ => True) (print v) (print v') := by
  intro s t ⟨hh, lines, hleft, hright⟩
  have hw : v'.writable = v.writable := by
    obtain ⟨rfl, -⟩ := hv
    cases v <;> rfl
  rw [print_eq, print_eq, hh.text_eq hv, hw]
  cases v.writable with
  | false => exact lockstep_error _ hh ⟨lines, hleft, hright⟩
  | true =>
    refine lockstep_ok hh ⟨lines ++ [s.heap.text v], ?_, ?_⟩ trivial
    · simp [hleft]
    · simp [hright]

theorem lockstep_declare {f : Nat} (hf : o.Sees w f) (x : String) {v v' : Value}
    (hv : o.Values w v v') :
    o.lockstep.Together w (fun _ _ _ => True) (declare f x v) (declare f x v') := by
  intro s t ⟨hh, hl⟩
  rw [declare_eq, declare_eq, hh.binds_eq hf]
  cases s.heap.binds f x with
  | true => exact lockstep_error _ hh hl
  | false => exact lockstep_ok (hh.put hf x hv) hl trivial

theorem lockstep_assign {f : Nat} (hf : o.Sees w f) (x : String) {v v' : Value}
    (hv : o.Values w v v') :
    o.lockstep.Together w (fun _ _ _ => True) (assign f x v) (assign f x v') := by
  intro s t ⟨hh, hl⟩
  rw [assign_eq, assign_eq]
  exact lockstep_ok (hh.assign hf x hv) hl trivial

theorem lockstep_newClosure {c : Closure} (hc : o.Runs w c.body c.frame) :
    o.lockstep.Together w o.lockstep.values (newClosure c) (newClosure c) := by
  intro s t ⟨hh, hl⟩
  rw [newClosure_eq, newClosure_eq, hh.closures_size, hh.closures_size_right]
  refine ⟨w.addClosure, w.le_addClosure, ⟨hh.pushClosure hc, hl⟩, rfl, ?_⟩
  rintro _ ⟨⟩
  exact ⟨.inr hh.closures_le, Nat.lt_succ_self _⟩

theorem lockstep_enter {c : Closure} (hc : o.Runs w c.body c.frame) {vs vs' : List Value}
    (hvs : List.Forall₂ (o.Values w) vs vs') :
    o.lockstep.Together w (fun w' f f' => c.body = c.body ∧ f = f' ∧ o.Runs w' c.body f)
      (Evaluator.enter c vs) (Evaluator.enter c vs') := by
  intro s t ⟨hh, hl⟩
  by_cases ha : vs.length = c.params.length
  case neg =>
    rw [Evaluator.enter_of_arity ha, Evaluator.enter_of_arity (by rwa [← hvs.length_eq]),
      ← hvs.length_eq]
    exact lockstep_error _ hh hl
  obtain ⟨repeated, h', hd⟩ :=
    Heap.Declares.total s.heap.frames.size (c.params.zip vs) (s.heap.pushFrame (some c.frame) none)
  obtain ⟨k', hd', hh'⟩ := (hh.pushFrame hc.1).declares hh.sees_new
    (hvs.imp fun _ _ hv => hv.mono w.le_addFrame) (hh.size ▸ hd)
  obtain ⟨notices, hrun⟩ := hd.enter ha
  obtain ⟨notices', hrun'⟩ := (hh.size_right.symm ▸ hd').enter (by rwa [← hvs.length_eq])
  rw [hrun, hrun']
  cases repeated with
  | some x => exact ⟨w.addFrame, w.le_addFrame, ⟨hh', hl⟩, rfl⟩
  | none =>
    refine ⟨w.addFrame, w.le_addFrame, ⟨hh', hl⟩, rfl, ?_, ?_⟩
    · rw [hh.size, hh.size_right]
    · rw [hh.size]
      exact ⟨hh.sees_new, (hc.mono w.le_addFrame).2⟩

theorem lockstep_laws (o : Outlook) : o.lockstep.Laws where
  le_refl := .refl
  le_trans h h' := h.trans h'
  values_mono hw hv := hv.mono hw
  codes_mono := fun hw ⟨he, hf, hr⟩ => ⟨he, hf, hr.mono hw⟩
  closures_mono := fun hw ⟨hc, hr⟩ => ⟨hc, hr.mono hw⟩
  faults_refl _ := rfl
  faults_stamp := by
    rintro w e f _ _ φ _ ⟨rfl, -, -⟩ rfl
    rfl
  aligned := by
    rintro w e f _ _ ⟨rfl, rfl, hr⟩
    exact lockstep_aligned hr
  plain := values_plain
  alike := values_alike
  eq_iff := values_eq_iff
  described := by
    rintro w s t v v' cause ⟨hh, -⟩ hv -
    exact congrArg (fun d => Fault.ofCause (cause d)) (hh.describe_eq hv).symm
  closure := fun ⟨hh, _⟩ hv => hh.closure? hv
  read := by
    rintro w p x f _ _ _ ⟨⟨⟩, rfl, hr⟩
    exact lockstep_read hr.1 x
  print := lockstep_print
  declare := by
    rintro w p x e f _ _ _ _ v v' ⟨⟨⟩, rfl, hr⟩ hv
    exact lockstep_declare hr.1 x hv
  assign := by
    rintro w p x e f _ _ _ _ v v' ⟨⟨⟩, rfl, hr⟩ hv
    exact lockstep_assign hr.1 x hv
  func := by
    rintro w p xs b f _ _ _ _ ⟨⟨⟩, rfl, hr⟩
    exact lockstep_newClosure ⟨hr.1, fun id hid => hr.2 id (hid.of_part (by simp [Expr.parts]))⟩
  enter := by
    rintro w c _ vs vs' ⟨rfl, hr⟩ hvs
    exact lockstep_enter hr hvs

/-! ### From the beginning to the end -/

/-- In the beginning evaluation sees what it can reach. -/
theorem heaps_start (o : Outlook) (hl : o.left.heap.Admits o.expr o.frame)
    (hr : o.right.heap.Agrees o.left.heap o.expr o.frame) :
    o.Heaps ⟨o.left.heap.frames.size, o.left.heap.closures.size⟩ o.left.heap o.right.heap := by
  have hframe {g : Nat} (hg : o.Sees ⟨o.left.heap.frames.size, o.left.heap.closures.size⟩ g) :
      o.Frames g := hg.1.resolve_right (Nat.not_le.mpr hg.2)
  have hclosure {id : Nat}
      (hid : o.Knows ⟨o.left.heap.frames.size, o.left.heap.closures.size⟩ id) : o.Closures id :=
    hid.1.resolve_right (Nat.not_le.mpr hid.2)
  constructor
  case start_le => exact Nat.le_refl _
  case closures_le => exact Nat.le_refl _
  case size => rfl
  case size_right => exact hr.size
  case closures_size => rfl
  case closures_size_right => simp [number, renumber]
  case unseen => exact fun _ _ => rfl
  case parent =>
    intro g p hg hp
    have hreach : o.Frames p := .parent (hframe hg) hp
    exact ⟨.inl hreach, hreach.exists hl⟩
  case bound =>
    intro g x id hg hx
    have hreach : o.Closures id := .bound (hframe hg) hx
    exact ⟨.inl hreach, (o.reached hreach).1⟩
  case closures =>
    intro id hid
    rw [number, renumber_of_lt (o.reached (hclosure hid)).1]
    exact hr.closures (hclosure hid)
  case code =>
    intro id c hid hc
    have hreach : o.Frames c.frame := .captured (hclosure hid) hc
    refine ⟨⟨.inl hreach, hreach.exists hl⟩, fun id' hid' => ?_⟩
    have hbody : o.Closures id' := .body (hclosure hid) hc hid'
    exact ⟨hbody, (o.reached hbody).1⟩
  case frames =>
    intro g hg
    rw [hr.frames (hframe hg)]
    cases hf : o.left.heap.frames[g]? with
    | none => rfl
    | some frame =>
      refine congrArg some (Frame.map_eq_self ?_).symm
      rintro ⟨x, v⟩ hvar
      by_cases hv : ∃ id, v = .closure id
      · obtain ⟨id, rfl⟩ := hv
        have hreach : o.Closures id :=
          .bound (hframe hg) (x := x) (by simpa [Heap.vars, hf] using hvar)
        simp [value, Value.renumber, renumber_of_lt (o.reached hreach).1]
      · exact value_of_plain fun id h => hv ⟨id, h⟩

section Ending

variable {s t : State} (hl : o.left.heap.Admits o.expr o.frame) (hs : o.lockstep.states w s t)
include hl hs

theorem sees_of_accessible {g : Nat} (hg : o.left.heap.Accessible o.expr o.frame s.heap g) :
    o.Sees w g := by
  rcases hg with hg | ⟨hle, hlt⟩
  · exact ⟨.inl hg, Nat.lt_of_lt_of_le (hg.exists hl) hs.1.start_le⟩
  · exact ⟨.inr hle, hs.1.size ▸ hlt⟩

omit hl in
theorem accessible_of_sees {g : Nat} (hg : o.Sees w g) :
    o.left.heap.Accessible o.expr o.frame s.heap g :=
  hg.1.imp_right fun hle => ⟨hle, hs.1.size ▸ hg.2⟩

omit hl in
theorem refersWithin {v : Value} (hv : ∀ id, v = .closure id → o.Knows w id) :
    o.left.heap.RefersWithin o.expr o.frame s.heap v := by
  intro id hid
  have hknows := hv id hid
  have hlt : id < s.heap.closures.size := hs.1.closures_size ▸ hknows.2
  have hc := Array.getElem?_eq_getElem hlt
  exact ⟨_, hc, accessible_of_sees hs (hs.1.code hknows hc).1⟩

theorem changedWithin : o.left.heap.ChangedWithin o.expr o.frame s.heap where
  unreachable := hs.1.unseen
  bindings {g var} hg hvar := by
    refine refersWithin hs fun id hid => hs.1.bound (sees_of_accessible hl hs hg) (x := var.1) ?_
    rwa [← hid]

theorem looksSame : LooksSame o.left o.right o.expr o.frame s t where
  printed := hs.2
  size := hs.1.size_right.trans hs.1.size.symm
  frames hg := hs.1.frames (sees_of_accessible hl hs hg)
  closures hid hlt := hs.1.closures ⟨hid, hs.1.closures_size ▸ hlt⟩

end Ending

theorem resultsLookSame (hl : o.left.heap.Admits o.expr o.frame)
    {x y : EStateM.Result Fault State Value} (hr : o.lockstep.Results w o.lockstep.values x y) :
    ResultsLookSame o.left o.right o.expr o.frame x y := by
  cases x with
  | ok v s =>
    cases y with
    | error ψ t => exact hr.elim
    | ok v' t =>
      obtain ⟨w', -, hs, rfl, -⟩ := hr
      exact .value v (looksSame hl hs)
  | error φ s =>
    cases y with
    | ok v t => exact hr.elim
    | error ψ t =>
      obtain ⟨w', -, hs, rfl⟩ := hr
      exact .fault φ (looksSame hl hs)

/-- The two evaluations go on together to their ends. -/
theorem eval (o : Outlook) (hl : o.left.heap.Admits o.expr o.frame)
    (hr : o.right.heap.Agrees o.left.heap o.expr o.frame) (limits : Limits) :
    o.lockstep.Results ⟨o.left.heap.frames.size, o.left.heap.closures.size⟩ o.lockstep.values
      (limits.eval o.expr o.frame o.left) (limits.eval o.expr o.frame o.right) := by
  refine o.lockstep_laws.eval limits.rounds limits.depth ⟨rfl, rfl, ?_, ?_⟩ o.left o.right
    ⟨o.heaps_start hl hr, [], by simp, by simp⟩
  · exact ⟨.inl .here, hl.frame_lt⟩
  · exact fun id hid => ⟨.embedded hid, hl.embedded hid⟩

end Outlook

/-- Evaluation is local, whether it succeeds or fails. Frames that cannot be reached keep all they
have, and neither the value nor what is bound in other frames refers to them. In any heap that
agrees on what can be reached, evaluation gives the same, prints the same and leaves the same. -/
theorem eval_local (limits : Limits) (e : Expr) (f : Nat) (s : State) (hs : s.heap.Admits e f) :
    (s.heap.ChangedWithin e f (finalState (limits.eval e f s)).heap ∧
      ∀ v s', limits.eval e f s = .ok v s' → s.heap.RefersWithin e f s'.heap v) ∧
    ∀ t : State, t.heap.Agrees s.heap e f →
      ResultsLookSame s t e f (limits.eval e f s) (limits.eval e f t) := by
  constructor
  · -- beside itself, an evaluation shows what it does to its own heap
    have hself := Heap.Agrees.refl s.heap e f
    have hrun := Outlook.eval ⟨s, s, e, f, hself.reached hs⟩ hs hself limits
    cases hr : limits.eval e f s with
    | ok v s' =>
      rw [hr] at hrun
      obtain ⟨w, -, hstates, -, hv⟩ := hrun
      refine ⟨Outlook.changedWithin hs hstates, ?_⟩
      rintro _ _ ⟨⟩
      exact Outlook.refersWithin hstates hv
    | error φ s' =>
      rw [hr] at hrun
      obtain ⟨w, -, hstates, -⟩ := hrun
      exact ⟨Outlook.changedWithin hs hstates, by simp⟩
  · intro t ht
    exact Outlook.resultsLookSame hs (Outlook.eval ⟨s, t, e, f, ht.reached hs⟩ hs ht limits)

/-- A function is made in one of two global frames. The other frame cannot be reached, so it may
hang under the first in another heap, and hold a closure of its own. -/
theorem local_beside_unreachable_frame :
    let e : Expr := .seq none
      (.assign none "x" (.binary none .add (.var none "x") (.const none (.number 1))))
      (.func none [] (.var none "x"))
    let s : State := ⟨⟨#[⟨none, true, [("x", .number 1)]⟩, ⟨none, false, [("y", .null)]⟩], #[]⟩,
      #[], #[]⟩
    let t : State := ⟨⟨#[⟨none, true, [("x", .number 1)]⟩, ⟨some 0, true, [("y", .closure 0)]⟩],
      #[⟨["z"], .var none "y", 1⟩]⟩, #["0"], #[]⟩
    s.heap.Admits e 0 ∧ t.heap.Agrees s.heap e 0 ∧ ¬ s.heap.Reaches e 0 (.frame 1) ∧
      ∀ limits : Limits, s.heap.ChangedWithin e 0 (finalState (limits.eval e 0 s)).heap ∧
        ResultsLookSame s t e 0 (limits.eval e 0 s) (limits.eval e 0 t) := by
  intro e s t
  have hembeds : ∀ id, ¬ e.Embeds id := by
    rintro id ⟨p, hp⟩
    simp [e, Expr.all] at hp
  have hparent : ∀ f, s.heap.parent? f = none := by
    intro f
    rcases f with _ | _ | f <;> rfl
  have hvars : ∀ f x id, (x, Value.closure id) ∉ s.heap.vars f := by
    intro f x id
    rcases f with _ | _ | f <;> simp [s, Heap.vars]
  have hs : s.heap.Admits e 0 := by
    refine ⟨⟨⟨fun hp => ?_, fun hc => ?_⟩, fun hx => ?_, fun hc => ?_⟩, by decide, fun h => ?_⟩
    · simp [hparent] at hp
    · simp [s] at hc
    · exact absurd hx (hvars _ _ _)
    · simp [s] at hc
    · exact absurd h (hembeds _)
  have hreach : ∀ {r}, s.heap.Reaches e 0 r → r = .frame 0 := by
    intro r hr
    induction hr with
    | here => rfl
    | parent _ hp _ => simp [hparent] at hp
    | bound _ hx _ => exact absurd hx (hvars _ _ _)
    | embedded he => exact absurd he (hembeds _)
    | body _ _ _ ih | captured _ _ ih => cases ih
  have ht : t.heap.Agrees s.heap e 0 := by
    refine ⟨rfl, fun hg => ?_, fun hid => ?_⟩
    · cases hreach hg
      rfl
    · cases hreach hid
  have hother : ¬ s.heap.Reaches e 0 (.frame 1) := by
    intro h
    cases hreach h
  refine ⟨hs, ht, hother, fun limits => ?_⟩
  have hlocal := eval_local limits e 0 s hs
  exact ⟨hlocal.1.1, hlocal.2 t ht⟩

end Scriptlet
