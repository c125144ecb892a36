import Scriptlet.Proofs.Evaluation.Sound

/-! Whatever the rules derive, every evaluator with limits that are large enough computes. The
argument goes by the derivation; each rule asks for the largest of the limits that its premises
ask for, and for one level more. -/

namespace Scriptlet

/-! ### What a derivation leaves -/

/-- A derivation in a frame of an ordered heap leaves a heap that follows it. -/
theorem Evaluates.follows {task : Task} {f : Nat} {h h' : Heap} {o : Outcome}
    {lines : List String} (d : Evaluates task f h o h' lines) (hf : h.Holds f) :
    h'.Follows h := by
  induction d with
  | const | bound | unboundLax | unboundStrict | foreign | nil => exact hf.follows
  | print _ _ ih | printTooLong _ _ ih | printFails _ ih | leftFails _ ih | condInvalid _ _ ih
  | condFails _ ih | loop _ ih | loopEnds _ ih | loopInvalid _ _ ih | loopTestFails _ ih
  | seqFails _ ih | declareDuplicate _ _ ih | declareFails _ ih | assignFails _ ih
  | calleeFails _ ih | notCallable _ _ ih | headFails _ ih => exact ih hf
  | binary _ _ _ ih₁ ih₂ | binaryRefused _ _ _ ih₁ ih₂ | rightFails _ _ ih₁ ih₂
  | condYes _ _ ih₁ ih₂ | condNo _ _ ih₁ ih₂ | loopBodyFails _ _ ih₁ ih₂ | seq _ _ ih₁ ih₂
  | argumentFails _ _ _ ih₁ ih₂ | arityMismatch _ _ _ _ ih₁ ih₂ | cons _ _ ih₁ ih₂
  | tailFails _ _ ih₁ ih₂ =>
    have hh₁ := ih₁ hf
    exact (ih₂ (hh₁.holds hf)).trans hh₁
  | loopRound _ _ _ ih₁ ih₂ ih₃ =>
    have hh₁ := ih₁ hf
    have hh₂ := (ih₂ (hh₁.holds hf)).trans hh₁
    exact (ih₃ (hh₂.holds hf)).trans hh₂
  | declare _ _ ih | assign _ _ ih | assignGlobal _ _ ih =>
    exact ((ih hf).ordered.put_follows _ _ _).trans (ih hf)
  | func => exact hf.pushClosure_follows _ _
  | call hc _ hd _ _ _ ih₁ ih₂ ih₃ =>
    have hh₁ := ih₁ hf
    have hh₂ := ih₂ (hh₁.holds hf)
    obtain ⟨hh₃, hf₃⟩ := Heap.Declares.follows_call (hh₂.holds (hh₁.ordered.holds_captured hc)) hd
    exact ((ih₃ hf₃).trans hh₃).trans (hh₂.trans hh₁)
  | parameterRepeated hc _ hd _ _ ih₁ ih₂ =>
    have hh₁ := ih₁ hf
    have hh₂ := ih₂ (hh₁.holds hf)
    obtain ⟨hh₃, _⟩ := Heap.Declares.follows_call (hh₂.holds (hh₁.ordered.holds_captured hc)) hd
    exact hh₃.trans (hh₂.trans hh₁)

/-! ### What a computation ends with, whatever was printed before it -/

/-- On the heap `h` the computation gives `a`, leaves `h'` and prints the lines. -/
def Gives {α : Type} (x : EvalM α) (h : Heap) (a : α) (h' : Heap) (lines : List String) : Prop :=
  ∀ s, s.heap = h → ∃ notices, x s = .ok a ⟨h', s.printed ++ lines.toArray, notices⟩

/-- On the heap `h` the computation is not given up but fails, places aside, for the reason. -/
def Fails {α : Type} (x : EvalM α) (h : Heap) (why : Fault) (h' : Heap) (lines : List String) :
    Prop :=
  ∀ s, s.heap = h → ∃ fault notices,
    x s = .error fault ⟨h', s.printed ++ lines.toArray, notices⟩ ∧
      fault.gaveUp = false ∧ fault.unplaced = why

/-- On the heap `h` the computation has the outcome. -/
def Ends (x : EvalM Value) (h : Heap) (o : Outcome) (h' : Heap) (lines : List String) : Prop :=
  match o with
  | .value v => Gives x h v h' lines
  | .values _ => False
  | .failure why => Fails x h why h' lines

section

variable {α β : Type} {x : EvalM α} {k : α → EvalM β} {h h₁ h₂ : Heap} {l₁ l₂ : List String}

theorem Gives.pure (a : α) (h : Heap) : Gives (Pure.pure a : EvalM α) h a h [] := by
  rintro s rfl
  exact ⟨s.notices, by simp only [List.toArray, Array.append_empty]; rfl⟩

theorem Gives.bind {a : α} {b : β} (hx : Gives x h a h₁ l₁) (hk : Gives (k a) h₁ b h₂ l₂) :
    Gives (x >>= k) h b h₂ (l₁ ++ l₂) := by
  intro s hs
  obtain ⟨notices, hr⟩ := hx s hs
  obtain ⟨notices', hr'⟩ := hk ⟨h₁, s.printed ++ l₁.toArray, notices⟩ rfl
  refine ⟨notices', ?_⟩
  rw [EvalM.bind_of_ok hr, hr']
  simp

theorem Gives.bind_fails {a : α} {why : Fault} (hx : Gives x h a h₁ l₁)
    (hk : Fails (k a) h₁ why h₂ l₂) : Fails (x >>= k) h why h₂ (l₁ ++ l₂) := by
  intro s hs
  obtain ⟨notices, hr⟩ := hx s hs
  obtain ⟨fault, notices', hr', hg, hu⟩ := hk ⟨h₁, s.printed ++ l₁.toArray, notices⟩ rfl
  refine ⟨fault, notices', ?_, hg, hu⟩
  rw [EvalM.bind_of_ok hr, hr']
  simp

theorem Fails.bind {why : Fault} (hx : Fails x h why h₁ l₁) :
    Fails (x >>= k) h why h₁ l₁ := by
  intro s hs
  obtain ⟨fault, notices, hr, hg, hu⟩ := hx s hs
  exact ⟨fault, notices, EvalM.bind_of_error hr, hg, hu⟩

theorem Gives.then {a : α} {b : β} (hx : Gives x h a h₁ l₁) (hk : Gives (k a) h₁ b h₂ []) :
    Gives (x >>= k) h b h₂ l₁ := by
  simpa using hx.bind hk

theorem Gives.then_fails {a : α} {why : Fault} (hx : Gives x h a h₁ l₁)
    (hk : Fails (k a) h₁ why h₂ []) : Fails (x >>= k) h why h₂ l₁ := by
  simpa using hx.bind_fails hk

theorem Gives.bind_ends {a : α} {k : α → EvalM Value} {o : Outcome} (hx : Gives x h a h₁ l₁)
    (hk : Ends (k a) h₁ o h₂ l₂) : Ends (x >>= k) h o h₂ (l₁ ++ l₂) := by
  cases o with
  | value v => exact hx.bind hk
  | values vs => exact hk
  | failure why => exact hx.bind_fails hk

theorem gives_stamp_iff {a : α} (pos : Option Position) :
    Gives (EvalM.stamp pos x) h a h₁ l₁ ↔ Gives x h a h₁ l₁ := by
  simp only [Gives, EvalM.stamp_eq_ok_iff]

theorem fails_stamp_iff {why : Fault} (pos : Option Position) :
    Fails (EvalM.stamp pos x) h why h₁ l₁ ↔ Fails x h why h₁ l₁ := by
  refine forall₂_congr fun s _ => ?_
  rw [EvalM.stamp_eq]
  cases hr : x s with
  | ok a s' => simp
  | error fault s' => simp [and_assoc]

theorem ends_stamp_iff {x : EvalM Value} {o : Outcome} (pos : Option Position) :
    Ends (EvalM.stamp pos x) h o h₁ l₁ ↔ Ends x h o h₁ l₁ := by
  cases o with
  | value v => exact gives_stamp_iff pos
  | values vs => rfl
  | failure why => exact fails_stamp_iff pos

theorem Fails.fail (cause : Cause) (h : Heap) (hc : cause ≠ .depthExceeded) :
    Fails (EvalM.fail cause : EvalM α) h (.ofCause cause) h [] := by
  rintro s rfl
  refine ⟨.ofCause cause, s.notices, by simp [EvalM.fail_eq, Fault.ofCause], ?_, rfl⟩
  simpa [Fault.ofCause, Fault.gaveUp] using hc

theorem Fails.complain (v : Value) (cause : String → Cause) (h : Heap)
    (hc : ∀ got, cause got ≠ .depthExceeded) :
    Fails (do EvalM.fail (cause (← EvalM.describe v)) : EvalM α) h (.about h v cause) h [] := by
  rintro s rfl
  refine ⟨.about s.heap v cause, s.notices, by simp [EvalM.complain_eq], ?_, by simp⟩
  unfold Fault.about
  split
  · simpa [Fault.ofCause, Fault.gaveUp] using hc _
  · rfl

end

/-! ### The parts of an evaluation -/

section

open EvalM

variable {f g : Nat} {name : String} {v : Value} {h h₁ h₂ : Heap} {l₁ l₂ : List String}

theorem gives_getHeap (h : Heap) : Gives getHeap h h h [] := by
  rintro s rfl
  exact ⟨s.notices, by simp; rfl⟩

theorem gives_notify (n : Notice) (h : Heap) : Gives (notify n) h () h [] := by
  rintro s rfl
  exact ⟨s.notices.push n, by simp; rfl⟩

theorem gives_newFrame (parent : Option Nat) (strict : Option Bool) (h : Heap) :
    Gives (newFrame parent strict) h h.frames.size (h.pushFrame parent strict) [] := by
  rintro s rfl
  simp [newFrame_eq]

theorem gives_newClosure (c : Closure) (h : Heap) :
    Gives (newClosure c) h (.closure h.closures.size) (h.pushClosure c) [] := by
  rintro s rfl
  simp [newClosure_eq]

theorem gives_declareAll {vars : List (String × Value)}
    (hd : Heap.Declares f vars h none h₁) : Gives (declareAll f vars) h () h₁ [] := by
  intro s hs
  obtain ⟨notices, hr⟩ := hd.declareAll s hs
  exact ⟨notices, by simpa using hr⟩

theorem fails_declareAll {vars : List (String × Value)}
    (hd : Heap.Declares f vars h (some name) h₁) :
    Fails (declareAll f vars) h (.ofCause (.duplicateDeclaration name)) h₁ [] := by
  intro s hs
  obtain ⟨notices, hr⟩ := hd.declareAll s hs
  exact ⟨_, notices, by simpa using hr, rfl, rfl⟩

theorem gives_ofExcept {α : Type} {r : Except Cause α} {a : α} (hr : r = .ok a) (h : Heap) :
    Gives (ofExcept r) h a h [] := by
  subst hr
  exact .pure a h

theorem fails_ofExcept {α : Type} {r : Except Cause α} {cause : Cause} (hr : r = .error cause)
    (h : Heap) (hc : cause ≠ .depthExceeded) : Fails (ofExcept r) h (.ofCause cause) h [] := by
  subst hr
  exact .fail cause h hc

theorem gives_read (ho : h.Ordered) (hn : h.Nearest name f g) (hv : h.get? g name = some v) :
    Gives (read f name) h v h [] := by
  rintro s rfl
  refine ⟨s.notices, ?_⟩
  simp [read_eq, Heap.resolve?, hn.owner? ho, hv]

theorem gives_read_lax (ho : h.Ordered) (hu : h.Unbound name f g) (hs : h.strict f = false) :
    Gives (read f name) h .null h [] := by
  rintro s rfl
  refine ⟨s.notices, ?_⟩
  simp [read_eq, Heap.resolve?, hu.owner? ho, hs]

theorem fails_read_strict (ho : h.Ordered) (hu : h.Unbound name f g) (hs : h.strict f = true) :
    Fails (read f name) h (.ofCause (.unboundVariable name)) h [] := by
  rintro s rfl
  refine ⟨.ofCause (.unboundVariable name), s.notices, ?_, rfl, rfl⟩
  simp [read_eq, Heap.resolve?, hu.owner? ho, hs, Fault.ofCause]

theorem gives_print (hv : v.writable = true) : Gives (print v) h () h [h.text v] := by
  rintro s rfl
  refine ⟨s.notices, ?_⟩
  simp [print_eq, hv]

theorem fails_print (hv : v.writable = false) : Fails (print v) h .numberTooLong h [] := by
  rintro s rfl
  refine ⟨.numberTooLong, s.notices, ?_, rfl, rfl⟩
  simp [print_eq, hv]

theorem gives_declare (hb : h.binds f name = false) :
    Gives (declare f name v) h () (h.put f name v) [] := by
  rintro s rfl
  rw [declare_eq, if_neg (by simp [hb])]
  simp

theorem fails_declare (hb : h.binds f name = true) :
    Fails (declare f name v) h (.ofCause (.duplicateDeclaration name)) h [] := by
  rintro s rfl
  rw [declare_eq, if_pos hb]
  exact ⟨.ofCause (.duplicateDeclaration name), s.notices, by simp [Fault.ofCause], rfl, rfl⟩

theorem gives_assign (ho : h.Ordered) (hn : h.Nearest name f g) :
    Gives (assign f name v) h () (h.put g name v) [] := by
  rintro s rfl
  rw [assign_eq, Heap.assign, hn.owner? ho]
  simp

theorem gives_assign_global (ho : h.Ordered) (hu : h.Unbound name f g) :
    Gives (assign f name v) h () (h.put g name v) [] := by
  rintro s rfl
  rw [assign_eq, Heap.assign, hu.owner? ho, hu.global ho]
  simp

theorem gives_callee {c : Closure} (hc : h.closure? v = some c) :
    Gives (Evaluator.callee v) h c h [] := by
  rintro s rfl
  rw [callee_of_some hc]
  exact ⟨s.notices, by simp⟩

theorem fails_callee (hc : h.closure? v = none) :
    Fails (Evaluator.callee v) h (.about h v .notCallable) h [] := by
  rintro s rfl
  rw [callee_of_none hc]
  exact Fails.complain v .notCallable s.heap (by simp) s rfl

end

namespace Evaluator

variable {ev : Evaluator} {f : Nat} {h h₁ h₂ : Heap} {l₁ l₂ : List String} {construct : Conditional}
  {test : Expr}

theorem gives_condition {b : Bool} (hx : Gives (ev test f) h (.bool b) h₁ l₁) :
    Gives (ev.condition construct test f) h b h₁ l₁ :=
  hx.then (.pure b h₁)

theorem fails_condition {why : Fault} (hx : Fails (ev test f) h why h₁ l₁) :
    Fails (ev.condition construct test f) h why h₁ l₁ :=
  hx.bind

theorem fails_condition_invalid {v : Value} (hv : ∀ b, v ≠ .bool b)
    (hx : Gives (ev test f) h v h₁ l₁) :
    Fails (ev.condition construct test f) h (.about h₁ v (.invalidCondition construct)) h₁ l₁ := by
  refine hx.then_fails ?_
  cases v with
  | bool b => exact absurd rfl (hv b)
  | number | null | closure => exact .complain _ (.invalidCondition construct) h₁ (by simp)

/-- A call does what the body of the closure does in the frame that binds the parameters. -/
theorem ends_apply {c : Closure} {vs : List Value} {o : Outcome}
    (hlen : vs.length = c.params.length)
    (hd : Heap.Declares h.frames.size (c.params.zip vs) (h.pushFrame (some c.frame) none) none h₁)
    (hbody : Ends (ev c.body h.frames.size) h₁ o h₂ l₁) : Ends (ev.apply c vs) h o h₂ l₁ := by
  rw [Evaluator.apply, if_neg (by simpa using hlen)]
  refine (gives_newFrame (some c.frame) none h).bind_ends ?_
  refine Gives.bind_ends (gives_declareAll hd) ?_
  exact (gives_getHeap h₁).bind_ends ((gives_notify _ h₁).bind_ends hbody)

theorem fails_apply {c : Closure} {vs : List Value} {name : String}
    (hlen : vs.length = c.params.length)
    (hd : Heap.Declares h.frames.size (c.params.zip vs) (h.pushFrame (some c.frame) none)
      (some name) h₁) :
    Fails (ev.apply c vs) h (.ofCause (.duplicateDeclaration name)) h₁ [] := by
  rw [Evaluator.apply, if_neg (by simpa using hlen)]
  exact (gives_newFrame (some c.frame) none h).bind_fails (fails_declareAll hd).bind

theorem fails_apply_arity {c : Closure} {vs : List Value} (hlen : vs.length ≠ c.params.length) :
    Fails (ev.apply c vs) h (.ofCause (.arityMismatch c.params.length vs.length)) h [] := by
  rw [Evaluator.apply, if_pos hlen]
  exact .fail _ h (by simp)

end Evaluator

/-! ### Limits that are large enough -/

/-- What a derivation says of a task, said of an evaluator. -/
def Task.Done (ev : Evaluator) (k f : Nat) (h h' : Heap) (lines : List String) :
    Task → Outcome → Prop
  | .expr e, o => Ends (ev e f) h o h' lines
  | .loop test body last, o => Ends (ev.rounds test body f k last) h o h' lines
  | .list es, .values vs => Gives (ev.list f es) h vs h' lines
  | .list es, .failure why => Fails (ev.list f es) h why h' lines
  | .list _, .value _ => False

/-- What holds of every evaluator whose limits are large enough, and of every loop that may still
go round often enough. -/
def Eventually (P : Nat → Evaluator → Nat → Prop) : Prop :=
  ∃ n, ∀ rounds depth k, n ≤ rounds → n ≤ depth → n ≤ k → P rounds (evalWithin rounds depth) k

namespace Eventually

variable {P Q : Nat → Evaluator → Nat → Prop}

theorem of_forall (h : ∀ rounds ev k, P rounds ev k) : Eventually P :=
  ⟨0, fun _ _ _ _ _ _ => h _ _ _⟩

theorem mono (hP : Eventually P) (h : ∀ rounds ev k, P rounds ev k → Q rounds ev k) :
    Eventually Q := by
  obtain ⟨n, hn⟩ := hP
  exact ⟨n, fun rounds depth k hr hd hk => h _ _ _ (hn rounds depth k hr hd hk)⟩

theorem and (hP : Eventually P) (hQ : Eventually Q) :
    Eventually fun rounds ev k => P rounds ev k ∧ Q rounds ev k := by
  obtain ⟨n, hn⟩ := hP
  obtain ⟨m, hm⟩ := hQ
  refine ⟨max n m, fun rounds depth k hr hd hk => ?_⟩
  exact ⟨hn _ _ _ (by omega) (by omega) (by omega), hm _ _ _ (by omega) (by omega) (by omega)⟩

/-- One round of a loop uses up one of those that are left. -/
theorem round (hP : Eventually fun rounds ev k => P rounds ev (k + 1)) : Eventually P := by
  obtain ⟨n, hn⟩ := hP
  refine ⟨n + 1, fun rounds depth k hr hd hk => ?_⟩
  obtain ⟨k, rfl⟩ : ∃ k', k = k' + 1 := ⟨k - 1, by omega⟩
  exact hn rounds depth k (by omega) (by omega) (by omega)

/-- A loop may go round as often as the evaluator allows. -/
theorem all_rounds (hP : Eventually P) : Eventually fun rounds ev _ => P rounds ev rounds := by
  obtain ⟨n, hn⟩ := hP
  exact ⟨n, fun rounds depth _ hr hd _ => hn rounds depth rounds hr hd hr⟩

/-- One step of an evaluator goes one level deeper. -/
theorem step {e : Expr} {f : Nat} {h h' : Heap} {o : Outcome} {lines : List String}
    (hs : Eventually fun rounds ev _ => Ends (ev.step rounds e f) h o h' lines) :
    Eventually fun _ ev k => Task.Done ev k f h h' lines (.expr e) o := by
  obtain ⟨n, hn⟩ := hs
  refine ⟨n + 1, fun rounds depth k hr hd hk => ?_⟩
  obtain ⟨depth, rfl⟩ : ∃ depth', depth = depth' + 1 := ⟨depth - 1, by omega⟩
  exact (ends_stamp_iff e.pos).mpr (hn rounds depth k (by omega) (by omega) (by omega))

/-- A row of statements is evaluated on one level, places aside with the same outcome. -/
theorem statements {e : Expr} {f : Nat} {h h' : Heap} {o : Outcome} {lines : List String}
    (hs : Eventually fun _ ev k => Task.Done ev k f h h' lines (.expr e) o) :
    Eventually fun _ ev _ => Ends (ev.statements f e) h o h' lines := by
  obtain ⟨n, hn⟩ := hs
  refine ⟨n, fun rounds depth k hr hd hk => ?_⟩
  cases e with
  | seq pos first second =>
    exact (ends_stamp_iff pos).mp (hn rounds (depth + 1) k hr (by omega) hk)
  | _ => exact hn rounds depth k hr hd hk

end Eventually

theorem Evaluates.done {task : Task} {f : Nat} {h h' : Heap} {o : Outcome}
    {lines : List String} (d : Evaluates task f h o h' lines) (hf : h.Holds f) :
    Eventually fun _ ev k => task.Done ev k f h h' lines o := by
  induction d with
  | const => exact .step (.of_forall fun _ _ _ => Gives.pure _ _)
  | bound hn hv => exact .step (.of_forall fun _ _ _ => gives_read hf.ordered hn hv)
  | unboundLax hu hs => exact .step (.of_forall fun _ _ _ => gives_read_lax hf.ordered hu hs)
  | unboundStrict hu hs => exact .step (.of_forall fun _ _ _ => fails_read_strict hf.ordered hu hs)
  | foreign => exact .step (.of_forall fun _ _ _ => Fails.fail _ _ (by simp))
  | print hv d ih =>
    refine .step ((ih hf).mono fun _ ev _ hx => ?_)
    exact Gives.bind hx ((gives_print hv).bind (.pure _ _))
  | printTooLong hv d ih =>
    refine .step ((ih hf).mono fun _ ev _ hx => ?_)
    exact Gives.then_fails hx (fails_print hv).bind
  | printFails _ ih | leftFails _ ih | declareFails _ ih | assignFails _ ih | calleeFails _ ih =>
    exact .step ((ih hf).mono fun _ ev _ hx => Fails.bind hx)
  | binary hc d₁ _ ih₁ ih₂ =>
    have ih₂ := ih₂ ((d₁.follows hf).holds hf)
    refine .step (((ih₁ hf).and ih₂).mono fun _ ev _ ⟨hx, hy⟩ => ?_)
    refine Gives.bind hx (Gives.then hy ?_)
    exact (gives_getHeap _).bind (gives_ofExcept (hc.apply _) _)
  | binaryRefused hr d₁ _ ih₁ ih₂ =>
    have ih₂ := ih₂ ((d₁.follows hf).holds hf)
    refine .step (((ih₁ hf).and ih₂).mono fun _ ev _ ⟨hx, hy⟩ => ?_)
    refine Gives.bind_fails hx (Gives.then_fails hy ?_)
    exact (gives_getHeap _).bind_fails (fails_ofExcept hr.apply _ hr.ne_depthExceeded)
  | rightFails d₁ _ ih₁ ih₂ =>
    have ih₂ := ih₂ ((d₁.follows hf).holds hf)
    refine .step (((ih₁ hf).and ih₂).mono fun _ ev _ ⟨hx, hy⟩ => ?_)
    exact Gives.bind_fails hx (Fails.bind hy)
  | condYes d₁ _ ih₁ ih₂ | condNo d₁ _ ih₁ ih₂ =>
    have ih₂ := ih₂ ((d₁.follows hf).holds hf)
    refine .step (((ih₁ hf).and ih₂).mono fun _ ev _ ⟨hx, hy⟩ => ?_)
    exact (Evaluator.gives_condition hx).bind_ends hy
  | condInvalid hv _ ih =>
    exact .step ((ih hf).mono fun _ _ _ hx => (Evaluator.fails_condition_invalid hv hx).bind)
  | condFails _ ih =>
    exact .step ((ih hf).mono fun _ _ _ hx => (Evaluator.fails_condition hx).bind)
  | loop _ ih => exact .step ((ih hf).all_rounds)
  | loopEnds _ ih =>
    exact .round ((ih hf).mono fun _ _ _ hx => (Evaluator.gives_condition hx).then (.pure _ _))
  | loopRound d₁ d₂ _ ih₁ ih₂ ih₃ =>
    have hf₁ := (d₁.follows hf).holds hf
    have ih₃ := ih₃ ((d₂.follows hf₁).holds hf₁)
    refine .round ((((ih₁ hf).and (ih₂ hf₁)).and ih₃).mono fun _ ev _ ⟨⟨hx, hy⟩, hz⟩ => ?_)
    exact (Evaluator.gives_condition hx).bind_ends (Gives.bind_ends hy hz)
  | loopInvalid hv _ ih =>
    exact .round ((ih hf).mono fun _ _ _ hx => (Evaluator.fails_condition_invalid hv hx).bind)
  | loopTestFails _ ih =>
    exact .round ((ih hf).mono fun _ _ _ hx => (Evaluator.fails_condition hx).bind)
  | loopBodyFails d₁ _ ih₁ ih₂ =>
    have ih₂ := ih₂ ((d₁.follows hf).holds hf)
    refine .round (((ih₁ hf).and ih₂).mono fun _ ev _ ⟨hx, hy⟩ => ?_)
    exact (Evaluator.gives_condition hx).bind_fails (Fails.bind hy)
  | seq d₁ _ ih₁ ih₂ =>
    have ih₂ := (ih₂ ((d₁.follows hf).holds hf)).statements
    exact .step (((ih₁ hf).and ih₂).mono fun _ _ _ ⟨hx, hy⟩ => Gives.bind_ends hx hy)
  | seqFails _ ih => exact .step ((ih hf).mono fun _ _ _ hx => Fails.bind hx)
  | declare hb _ ih =>
    refine .step ((ih hf).mono fun _ ev _ hx => ?_)
    exact Gives.then hx ((gives_declare hb).bind (.pure _ _))
  | declareDuplicate hb _ ih =>
    exact .step ((ih hf).mono fun _ _ _ hx => Gives.then_fails hx (fails_declare hb).bind)
  | assign hn d ih =>
    refine .step ((ih hf).mono fun _ ev _ hx => ?_)
    exact Gives.then hx ((gives_assign (d.follows hf).ordered hn).bind (.pure _ _))
  | assignGlobal hu d ih =>
    refine .step ((ih hf).mono fun _ ev _ hx => ?_)
    exact Gives.then hx ((gives_assign_global (d.follows hf).ordered hu).bind (.pure _ _))
  | func => exact .step (.of_forall fun _ _ _ => gives_newClosure _ _)
  | call hc hlen hd d₁ d₂ _ ih₁ ih₂ ih₃ =>
    have hf₁ := (d₁.follows hf).holds hf
    have hcf := (d₂.follows hf₁).holds (hf₁.ordered.holds_captured hc)
    have ih₃ := ih₃ (Heap.Declares.follows_call hcf hd).2
    refine .step ((((ih₁ hf).and (ih₂ hf₁)).and ih₃).mono fun _ ev _ ⟨⟨hx, hy⟩, hz⟩ => ?_)
    refine Gives.bind_ends hx ((gives_callee hc).bind_ends ?_)
    exact Gives.bind_ends hy (Evaluator.ends_apply hlen hd hz)
  | notCallable hc _ ih =>
    exact .step ((ih hf).mono fun _ _ _ hx => Gives.then_fails hx (fails_callee hc).bind)
  | argumentFails hc d₁ _ ih₁ ih₂ =>
    have ih₂ := ih₂ ((d₁.follows hf).holds hf)
    refine .step (((ih₁ hf).and ih₂).mono fun _ ev _ ⟨hx, hy⟩ => ?_)
    exact Gives.bind_fails hx ((gives_callee hc).bind_fails (Fails.bind hy))
  | arityMismatch hc hlen d₁ _ ih₁ ih₂ =>
    have ih₂ := ih₂ ((d₁.follows hf).holds hf)
    refine .step (((ih₁ hf).and ih₂).mono fun _ ev _ ⟨hx, hy⟩ => ?_)
    refine Gives.bind_fails hx ((gives_callee hc).bind_fails ?_)
    exact Gives.then_fails hy (Evaluator.fails_apply_arity hlen)
  | parameterRepeated hc hlen hd d₁ _ ih₁ ih₂ =>
    have ih₂ := ih₂ ((d₁.follows hf).holds hf)
    refine .step (((ih₁ hf).and ih₂).mono fun _ ev _ ⟨hx, hy⟩ => ?_)
    refine Gives.bind_fails hx ((gives_callee hc).bind_fails ?_)
    exact Gives.then_fails hy (Evaluator.fails_apply hlen hd)
  | nil => exact .of_forall fun _ _ _ => Gives.pure _ _
  | cons d₁ _ ih₁ ih₂ =>
    have ih₂ := ih₂ ((d₁.follows hf).holds hf)
    refine ((ih₁ hf).and ih₂).mono fun _ ev _ ⟨hx, hy⟩ => ?_
    exact Gives.bind hx (Gives.then hy (.pure _ _))
  | headFails _ ih => exact (ih hf).mono fun _ _ _ hx => Fails.bind hx
  | tailFails d₁ _ ih₁ ih₂ =>
    have ih₂ := ih₂ ((d₁.follows hf).holds hf)
    refine ((ih₁ hf).and ih₂).mono fun _ ev _ ⟨hx, hy⟩ => ?_
    exact Gives.bind_fails hx (Fails.bind hy)

end Scriptlet
