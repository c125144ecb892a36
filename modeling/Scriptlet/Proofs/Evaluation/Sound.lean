import Scriptlet.Proofs.Evaluation.Primitive

/-! Whatever an evaluation ends with, the rules derive. The argument goes by how deep evaluations
may nest: if the rules account for what an evaluator does with the parts of an expression, then
they account for one step that uses it. -/

namespace Scriptlet

/-- Whether evaluation was given up, because it went too deep or round a loop too often. -/
def Fault.gaveUp : Fault → Bool
  | .error e => e.cause = .depthExceeded
  | .unfinished => true
  | .literalTooLong _ | .numberTooLong => false

/-- A fault without its place. -/
def Fault.unplaced : Fault → Fault
  | .error e => .ofCause e.cause
  | fault => fault

@[simp] theorem Fault.gaveUp_stamp (pos : Option Position) (fault : Fault) :
    (fault.stamp pos).gaveUp = fault.gaveUp := by
  cases fault with
  | error e =>
    simp only [Fault.stamp, Fault.gaveUp, Error.stamp]
    split <;> rfl
  | _ => rfl

@[simp] theorem Fault.unplaced_stamp (pos : Option Position) (fault : Fault) :
    (fault.stamp pos).unplaced = fault.unplaced := by
  cases fault with
  | error e =>
    simp only [Fault.stamp, Fault.unplaced, Error.stamp]
    split <;> rfl
  | _ => rfl

@[simp] theorem Fault.unplaced_about (h : Heap) (v : Value) (cause : String → Cause) :
    (Fault.about h v cause).unplaced = .about h v cause := by
  unfold Fault.about
  split <;> rfl

/-- What is known of a computation that started in `s`: the heap it leaves follows the first one,
and it ends in a way that `P` admits unless it was given up. -/
def Accounts {α : Type} (s : State) (P : Outcome → Heap → List String → Prop)
    (out : α → Outcome) : EStateM.Result Fault State α → Prop
  | .ok a s' => s'.heap.Follows s.heap ∧
      ∃ lines, s'.printed.toList = s.printed.toList ++ lines ∧ P (out a) s'.heap lines
  | .error fault s' => fault.gaveUp = false →
      ∃ lines, s'.printed.toList = s.printed.toList ++ lines ∧
        P (.failure fault.unplaced) s'.heap lines

namespace Accounts

variable {α β : Type} {s : State} {P Q : Outcome → Heap → List String → Prop}

theorem mono {out : α → Outcome} {r : EStateM.Result Fault State α} (h : Accounts s P out r)
    (hPQ : ∀ o h' lines, P o h' lines → Q o h' lines) : Accounts s Q out r := by
  cases r with
  | ok a s' =>
    obtain ⟨hh, lines, hl, hp⟩ := h
    exact ⟨hh, lines, hl, hPQ _ _ _ hp⟩
  | error fault s' =>
    intro hg
    obtain ⟨lines, hl, hp⟩ := h hg
    exact ⟨lines, hl, hPQ _ _ _ hp⟩

/-- What is known of a computation is known of it from an earlier state too, if nothing was
printed in between. -/
theorem earlier {out : α → Outcome} {r : EStateM.Result Fault State α} {s₁ : State}
    (h : Accounts s₁ P out r) (hh : s₁.heap.Follows s.heap) (hprinted : s₁.printed = s.printed) :
    Accounts s P out r := by
  cases r with
  | ok a s' => exact ⟨h.1.trans hh, hprinted ▸ h.2⟩
  | error fault s' => exact fun hg => hprinted ▸ h hg

/-- A failure of the first part ends the whole; otherwise the rest goes on from where the first
part stopped, and its lines come behind those of the first part. -/
theorem bind {x : EvalM α} {k : α → EvalM β} {out : α → Outcome} {out' : β → Outcome}
    (hx : Accounts s P out (x s))
    (hfail : ∀ why h' lines, P (.failure why) h' lines → Q (.failure why) h' lines)
    (hk : ∀ a s' lines, s'.heap.Follows s.heap → P (out a) s'.heap lines →
      Accounts s' (fun o h' rest => Q o h' (lines ++ rest)) out' (k a s')) :
    Accounts s Q out' ((x >>= k) s) := by
  cases hr : x s with
  | error fault s' =>
    rw [EvalM.bind_of_error hr]
    rw [hr] at hx
    intro hg
    obtain ⟨lines, hl, hp⟩ := hx hg
    exact ⟨lines, hl, hfail _ _ _ hp⟩
  | ok a s' =>
    rw [EvalM.bind_of_ok hr]
    rw [hr] at hx
    obtain ⟨hh, lines, hl, hp⟩ := hx
    have hrest := hk a s' lines hh hp
    cases hr' : k a s' with
    | ok b s'' =>
      rw [hr'] at hrest
      obtain ⟨hh', rest, hl', hq⟩ := hrest
      exact ⟨hh'.trans hh, lines ++ rest, by rw [hl', hl, List.append_assoc], hq⟩
    | error fault s'' =>
      rw [hr'] at hrest
      intro hg
      obtain ⟨rest, hl', hq⟩ := hrest hg
      exact ⟨lines ++ rest, by rw [hl', hl, List.append_assoc], hq⟩

/-- A value that needs nothing more. -/
theorem pure {out : α → Outcome} {a : α} (ho : s.heap.Ordered) (hp : P (out a) s.heap []) :
    Accounts s P out ((Pure.pure a : EvalM α) s) :=
  ⟨⟨ho, Nat.le_refl _⟩, [], by simp, hp⟩

theorem fail {out : α → Outcome} {cause : Cause} (hp : P (.failure (.ofCause cause)) s.heap []) :
    Accounts s P out ((EvalM.fail cause : EvalM α) s) :=
  fun _ => ⟨[], by simp, hp⟩

theorem complain {out : α → Outcome} (v : Value) (cause : String → Cause)
    (hp : P (.failure (.about s.heap v cause)) s.heap []) :
    Accounts s P out ((do EvalM.fail (cause (← EvalM.describe v)) : EvalM α) s) := by
  rw [EvalM.complain_eq]
  exact fun _ => ⟨[], by simp, by simpa using hp⟩

theorem stamp {out : α → Outcome} {x : EvalM α} (pos : Option Position)
    (h : Accounts s P out (x s)) : Accounts s P out (EvalM.stamp pos x s) := by
  rw [EvalM.stamp_eq]
  cases hr : x s with
  | ok a s' =>
    rw [hr] at h
    exact h
  | error fault s' =>
    rw [hr] at h
    intro hg
    simpa using h (by simpa using hg)

end Accounts

/-- What the rules say of an expression whose value has to be a boolean. -/
inductive Tests (construct : Conditional) (test : Expr) (f : Nat) (h : Heap) :
    Outcome → Heap → List String → Prop where
  | boolean {b h' lines} : Evaluates (.expr test) f h (.value (.bool b)) h' lines →
      Tests construct test f h (.value (.bool b)) h' lines
  | invalid {v h' lines} (hv : ∀ b, v ≠ .bool b) :
      Evaluates (.expr test) f h (.value v) h' lines →
      Tests construct test f h (.failure (.about h' v (.invalidCondition construct))) h' lines
  | fails {why h' lines} : Evaluates (.expr test) f h (.failure why) h' lines →
      Tests construct test f h (.failure why) h' lines

/-- The rules account for all that an evaluator does in the frames of ordered heaps. -/
def Evaluator.Sound (ev : Evaluator) : Prop :=
  ∀ e f s, s.heap.Holds f → Accounts s (Evaluates (.expr e) f s.heap) .value (ev e f s)

namespace Evaluator.Sound

open EvalM

variable {ev : Evaluator} (hev : ev.Sound) {f : Nat} {s : State}

/-! ### The parts of a step -/

theorem read (pos : Option Position) (name : String) (hf : s.heap.Holds f) :
    Accounts s (Evaluates (.expr (.var pos name)) f s.heap) .value (EvalM.read f name s) := by
  have ho := hf.ordered
  rw [read_eq]
  rcases s.heap.nearest_or_unbound ho name f with ⟨g, hn⟩ | ⟨g, hu⟩
  · obtain ⟨v, hv⟩ := Heap.get?_of_binds hn.binds
    simp only [Heap.resolve?, hn.owner? ho, Option.bind_some, hv]
    exact .pure ho (.bound hn hv)
  · simp only [Heap.resolve?, hu.owner? ho, Option.bind_none]
    cases hs : s.heap.strict f with
    | true => exact .fail (.unboundStrict hu hs)
    | false => exact .pure ho (.unboundLax hu hs)

include hev

theorem condition (construct : Conditional) (test : Expr) (hf : s.heap.Holds f) :
    Accounts s (Tests construct test f s.heap) (fun b => .value (.bool b))
      (ev.condition construct test f s) := by
  refine (hev test f s hf).bind (fun _ _ _ => .fails) ?_
  intro v s' lines hh d
  have hlines : lines ++ [] = lines := List.append_nil lines
  cases v with
  | bool b => exact .pure hh.ordered (hlines.symm ▸ .boolean d)
  | number | null | closure =>
    refine .complain _ (.invalidCondition construct) ?_
    rw [hlines]
    exact .invalid (fun _ hv => nomatch hv) d

theorem rounds (test body : Expr) (n : Nat) (last : Value) (hf : s.heap.Holds f) :
    Accounts s (Evaluates (.loop test body last) f s.heap) .value
      (ev.rounds test body f n last s) := by
  induction n generalizing s last with
  | zero => exact fun hg => nomatch hg
  | succ n ih =>
    refine (hev.condition .loop test hf).bind ?_ ?_
    · rintro why h' lines (d | ⟨hv, d⟩ | d)
      · exact .loopInvalid hv d
      · exact .loopTestFails d
    · rintro b s₁ l₁ hh₁ (d | _ | _)
      cases b with
      | false => exact .pure hh₁.ordered (by simpa using .loopEnds d)
      | true =>
        have hf₁ := hh₁.holds hf
        refine (hev body f s₁ hf₁).bind (fun _ _ _ => .loopBodyFails d) ?_
        intro v s₂ l₂ hh₂ d₂
        exact (ih v (hh₂.holds hf₁)).mono fun _ _ _ => .loopRound d d₂

theorem statements (e : Expr) (hf : s.heap.Holds f) :
    Accounts s (Evaluates (.expr e) f s.heap) .value (ev.statements f e s) := by
  induction e generalizing s with
  | seq pos first second _ ih =>
    refine (hev first f s hf).bind (fun _ _ _ => .seqFails) ?_
    intro v s₁ l₁ hh₁ d
    exact (ih (hh₁.holds hf)).mono fun _ _ _ => .seq d
  | _ => exact hev _ f s hf

theorem list (es : List Expr) (hf : s.heap.Holds f) :
    Accounts s (Evaluates (.list es) f s.heap) .values (ev.list f es s) := by
  induction es generalizing s with
  | nil => exact .pure hf.ordered .nil
  | cons e es ih =>
    refine (hev e f s hf).bind (fun _ _ _ => .headFails) ?_
    intro v s₁ l₁ hh₁ d
    refine (ih (hh₁.holds hf)).bind (fun _ _ _ => .tailFails d) ?_
    intro vs s₂ l₂ hh₂ d₂
    exact .pure hh₂.ordered (by simpa using .cons d d₂)

/-- A call whose callee and arguments are accounted for. The body of the closure runs in the
frame that binds the parameters, unless one of them repeats. -/
theorem apply {pos : Option Position} {callee : Expr} {args : List Expr} {h h₁ : Heap}
    {v : Value} {c : Closure} {vs : List Value} {l₁ l₂ : List String}
    (hc : h₁.closure? v = some c) (d₁ : Evaluates (.expr callee) f h (.value v) h₁ l₁)
    (d₂ : Evaluates (.list args) f h₁ (.values vs) s.heap l₂) (hcf : s.heap.Holds c.frame) :
    Accounts s (fun o h' rest => Evaluates (.expr (.call pos callee args)) f h o h'
        (l₁ ++ (l₂ ++ rest))) .value (ev.apply c vs s) := by
  unfold Evaluator.apply
  by_cases hlen : vs.length = c.params.length
  · rw [if_neg (by simpa using hlen), bind_of_ok (newFrame_eq (some c.frame) none s)]
    obtain ⟨repeated, h₃, hd⟩ := Heap.Declares.total s.heap.frames.size (c.params.zip vs)
      (s.heap.pushFrame (some c.frame) none)
    obtain ⟨notices, hn⟩ :=
      hd.declareAll { s with heap := s.heap.pushFrame (some c.frame) none } rfl
    obtain ⟨hh₃, hf₃⟩ := Heap.Declares.follows_call hcf hd
    cases repeated with
    | some name =>
      rw [bind_of_error hn]
      exact fun _ => ⟨[], by simp, by simpa using .parameterRepeated hc hlen hd d₁ d₂⟩
    | none =>
      rw [bind_of_ok hn, getHeap_bind]
      have hbody := hev c.body s.heap.frames.size ⟨h₃, s.printed, notices.push
        (.applied c.text vs.length (h₃.depth s.heap.frames.size))⟩ hf₃
      exact (hbody.mono fun _ _ _ d₃ => .call hc hlen hd d₁ d₂ d₃).earlier hh₃ rfl
  · rw [if_pos (by simpa using hlen)]
    exact .fail (by simpa using .arityMismatch hc hlen d₁ d₂)

/-! ### One step, and all steps -/

/-- One step accounts for an expression if the evaluator it uses accounts for the parts. -/
theorem step (limit : Nat) : (ev.step limit).Sound := by
  intro e f s hf
  cases e with
  | const pos v => exact .pure hf.ordered .const
  | var pos name => exact read pos name hf
  | print pos arg =>
    refine (hev arg f s hf).bind (fun _ _ _ => .printFails) ?_
    intro v s₁ l₁ hh₁ d
    have he := print_eq v s₁
    cases hw : v.writable with
    | true =>
      rw [if_pos hw] at he
      rw [bind_of_ok he]
      exact ⟨(hh₁.holds hf).follows, [s₁.heap.text v], by simp, .print hw d⟩
    | false =>
      rw [if_neg (by simp [hw])] at he
      rw [bind_of_error he]
      exact fun _ => ⟨[], by simp, by simpa using .printTooLong hw d⟩
  | binary pos op left right =>
    refine (hev left f s hf).bind (fun _ _ _ => .leftFails) ?_
    intro a s₁ l₁ hh₁ d₁
    refine (hev right f s₁ (hh₁.holds hf)).bind (fun _ _ _ => .rightFails d₁) ?_
    intro b s₂ l₂ hh₂ d₂
    rw [getHeap_bind]
    cases hr : op.apply s₂.heap a b with
    | ok v =>
      exact .pure hh₂.ordered (by simpa using .binary (Operator.computes_of_apply hr) d₁ d₂)
    | error cause =>
      exact .fail (by simpa using .binaryRefused (Operator.refuses_of_apply hr) d₁ d₂)
  | cond pos test yes no =>
    refine (hev.condition .branch test hf).bind ?_ ?_
    · rintro why h' lines (d | ⟨hv, d⟩ | d)
      · exact .condInvalid hv d
      · exact .condFails d
    · rintro b s₁ l₁ hh₁ (d | _ | _)
      cases b with
      | true => exact (hev yes f s₁ (hh₁.holds hf)).mono fun _ _ _ => .condYes d
      | false => exact (hev no f s₁ (hh₁.holds hf)).mono fun _ _ _ => .condNo d
  | loop pos test body =>
    exact (hev.rounds test body limit .null hf).mono fun _ _ _ => .loop
  | seq pos first second => exact hev.statements _ hf
  | declare pos name init =>
    refine (hev init f s hf).bind (fun _ _ _ => .declareFails) ?_
    intro v s₁ l₁ hh₁ d
    have he := declare_eq f name v s₁
    cases hb : s₁.heap.binds f name with
    | true =>
      rw [if_pos hb] at he
      rw [bind_of_error he]
      exact fun _ => ⟨[], by simp, by simpa using .declareDuplicate hb d⟩
    | false =>
      rw [if_neg (by simp [hb])] at he
      rw [bind_of_ok he]
      exact ⟨hh₁.ordered.put_follows f name v, [], by simp, by simpa using .declare hb d⟩
  | assign pos name rhs =>
    refine (hev rhs f s hf).bind (fun _ _ _ => .assignFails) ?_
    intro v s₁ l₁ hh₁ d
    have ho₁ := hh₁.ordered
    rw [bind_of_ok (assign_eq f name v s₁)]
    refine ⟨ho₁.put_follows _ name v, [], by simp, ?_⟩
    simp only [List.append_nil, Heap.assign]
    rcases s₁.heap.nearest_or_unbound ho₁ name f with ⟨g, hn⟩ | ⟨g, hu⟩
    · rw [hn.owner? ho₁]
      exact .assign hn d
    · rw [hu.owner? ho₁, hu.global ho₁]
      exact .assignGlobal hu d
  | func pos params body =>
    exact ⟨hf.pushClosure_follows params body, [], by simp, .func⟩
  | call pos callee args =>
    refine (hev callee f s hf).bind (fun _ _ _ => .calleeFails) ?_
    intro v s₁ l₁ hh₁ d₁
    cases hc : s₁.heap.closure? v with
    | none =>
      rw [bind_of_error ((callee_of_none hc).trans (complain_eq v .notCallable s₁))]
      exact fun _ => ⟨[], by simp, by simpa using .notCallable hc d₁⟩
    | some c =>
      rw [bind_of_ok (callee_of_some hc)]
      refine (hev.list args (hh₁.holds hf)).bind (fun _ _ _ => .argumentFails hc d₁) ?_
      intro vs s₂ l₂ hh₂ d₂
      exact hev.apply hc d₁ d₂ (hh₂.holds (hh₁.ordered.holds_captured hc))
  | foreign type => exact .fail .foreign

end Evaluator.Sound

theorem evalWithin_sound (rounds depth : Nat) : (evalWithin rounds depth).Sound := by
  induction depth with
  | zero => exact fun _ _ _ _ hg => nomatch hg
  | succ depth ih => exact fun e f s hf => (ih.step rounds e f s hf).stamp e.pos

end Scriptlet
