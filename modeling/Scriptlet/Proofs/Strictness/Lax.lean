import Scriptlet.Proofs.Evaluation.Lockstep
import Scriptlet.Proofs.Evaluation.StateMap

/-! Strict and lax frames. Whether a frame is strict shows only where an unbound name is read, so a
strict evaluation that meets none is a lax one, and one that meets one is the beginning of a lax
one. -/

namespace Scriptlet

open EvalM

def Frame.lax (f : Frame) : Frame := { f with strict := false }

theorem Frame.put_lax (f : Frame) (name : String) (v : Value) :
    f.lax.put name v = (f.put name v).lax := by
  have hb : f.lax.binds name = f.binds name := rfl
  unfold Frame.put
  rw [hb]
  split <;> rfl

namespace Heap

/-- The heap with all frames lax. -/
def lax (h : Heap) : Heap := { h with frames := h.frames.map Frame.lax }

section Lax

variable (h : Heap) (f : Nat) (name : String) (v : Value)

theorem frames_lax : h.lax.frames[f]? = h.frames[f]?.map Frame.lax := by
  simp [lax]

@[simp] theorem size_frames_lax : h.lax.frames.size = h.frames.size := by
  simp [lax]

@[simp] theorem parent?_lax : h.lax.parent? f = h.parent? f := by
  simp only [parent?, frames_lax]
  cases h.frames[f]? <;> rfl

@[simp] theorem binds_lax : h.lax.binds f name = h.binds f name := by
  simp only [binds, frames_lax]
  cases h.frames[f]? <;> rfl

@[simp] theorem get?_lax : h.lax.get? f name = h.get? f name := by
  simp only [get?, frames_lax]
  cases h.frames[f]? <;> rfl

@[simp] theorem strict_lax : h.lax.strict f = false := by
  simp only [strict, frames_lax]
  cases h.frames[f]? <;> rfl

theorem put_lax : h.lax.put f name v = (h.put f name v).lax := by
  simp only [put, lax, Heap.mk.injEq, and_true]
  refine Array.ext_getElem? fun g => ?_
  simp only [Array.getElem?_modify, Array.getElem?_map]
  split
  · cases h.frames[g]? <;> simp [Frame.put_lax]
  · rfl

/-- A frame under a lax one is lax. -/
theorem pushFrame_lax (p : Nat) :
    h.lax.pushFrame (some p) none = (h.pushFrame (some p) none).lax := by
  simp only [pushFrame, Option.any_some, strict_lax]
  simp [lax, Frame.lax]

end Lax

end Heap

/-- The state with all frames lax. -/
def State.lax (s : State) : State := { s with heap := s.heap.lax }

theorem State.lax_fresh (strict : Bool) : (State.fresh strict).lax = .fresh false := by
  simp [State.lax, State.fresh, Heap.lax, Heap.pushFrame, Heap.empty, Frame.lax]

/-- The same ending, in the state with all frames lax. -/
def laxResult {α : Type} : EStateM.Result Fault State α → EStateM.Result Fault State α
  | .ok a s => .ok a s.lax
  | .error fault s => .error fault s.lax

/-! ### Computations that take no notice of strictness -/

/-- A computation that ends in the same way when all frames are made lax. -/
def EvalM.Indifferent {α : Type} (x : EvalM α) : Prop := ∀ s : State, x s.lax = laxResult (x s)

/-- Making all frames lax, as a map of states. -/
def StateMap.lax : StateMap where
  heap := Heap.lax
  fault := id
  size_frames := Heap.size_frames_lax
  parent? := Heap.parent?_lax
  binds := Heap.binds_lax
  get? := Heap.get?_lax
  text h v := by cases v <;> rfl
  put := Heap.put_lax
  pushFrame := Heap.pushFrame_lax
  unplaced _ := rfl

theorem EvalM.Indifferent.of_keeps {α : Type} {x : EvalM α} (hx : StateMap.lax.Keeps x) :
    Indifferent x := by
  intro s
  refine (hx s).trans ?_
  cases x s <;> rfl

/-! ### Evaluation beside itself -/

namespace Strictness

/-- A state beside the same state with all frames lax. -/
def lockstep : Lockstep where
  Stage := Unit
  le _ _ := True
  states _ s t := t = s.lax
  values _ := Eq
  codes _ e f e' f' := e = e' ∧ f = f'
  closures _ := Eq
  faults := Eq

/-- The faults that lax frames do not have. -/
def Quits (fault : Fault) : Prop := fault.kind? = some .unboundVariable

theorem together {α : Type} {Q : Unit → α → α → Prop} {x : EvalM α} (hx : Indifferent x)
    (hQ : ∀ a, Q () a a) : lockstep.Together () Q x x := by
  rintro s _ rfl
  rw [hx]
  cases x s with
  | ok a s' => exact ⟨(), trivial, rfl, hQ a⟩
  | error φ s' => exact ⟨(), trivial, rfl, rfl⟩

/-- Only here is the strictness of a frame asked for. -/
theorem together_read (f : Nat) (name : String) :
    lockstep.TogetherUnless Quits () lockstep.values (read f name) (read f name) := by
  rintro s _ rfl
  rw [read_eq, read_eq]
  have hresolve : s.heap.lax.resolve? f name = s.heap.resolve? f name :=
    StateMap.lax.resolve? s.heap f name
  simp only [State.lax, hresolve, Heap.strict_lax]
  split
  case h_1 v _ => exact .inl ⟨(), trivial, rfl, rfl⟩
  case h_2 =>
    split
    case isTrue => exact .inr ⟨(), _, s, _, rfl, rfl, trivial, rfl, .refl _⟩
    case isFalse => exact .inl ⟨(), trivial, rfl, rfl⟩

theorem lockstep_laws : lockstep.LawsUnless Quits where
  le_refl _ := trivial
  le_trans _ _ := trivial
  values_mono _ hv := hv
  codes_mono _ hc := hc
  closures_mono _ hc := hc
  faults_refl _ := rfl
  faults_stamp := by
    rintro _ e f _ _ φ _ ⟨rfl, -⟩ rfl
    rfl
  aligned := by
    rintro _ e f _ _ ⟨rfl, rfl⟩
    exact Expr.aligned_self (fun _ _ _ => rfl) fun _ _ => ⟨rfl, rfl⟩
  plain _ := rfl
  alike := by
    rintro _ v _ rfl
    cases v with
    | closure id => exact .inr ⟨id, id, rfl, rfl⟩
    | _ => exact .inl ⟨rfl, by simp⟩
  eq_iff := by
    rintro _ a _ b _ rfl rfl
    rfl
  described := by
    rintro _ s _ v _ cause rfl rfl -
    rfl
  closure := by
    rintro _ s _ v _ rfl rfl
    change Option.Rel Eq (s.heap.closure? v) (s.heap.closure? v)
    cases s.heap.closure? v <;> simp
  print := by
    rintro _ v _ rfl
    exact together (.of_keeps (.print v)) fun _ => trivial
  declare := by
    rintro _ p x e f _ _ _ _ v _ ⟨⟨⟩, rfl⟩ rfl
    exact together (.of_keeps (.declare f x v)) fun _ => trivial
  assign := by
    rintro _ p x e f _ _ _ _ v _ ⟨⟨⟩, rfl⟩ rfl
    exact together (.of_keeps (.assign f x v)) fun _ => trivial
  func := by
    rintro _ p xs b f _ _ _ _ ⟨⟨⟩, rfl⟩
    exact together (fun _ => rfl) fun _ => rfl
  enter := by
    rintro _ c _ vs _ rfl hvs
    obtain rfl : vs = _ := by simpa [lockstep] using hvs
    exact together (.of_keeps (.enter c vs)) fun _ => ⟨rfl, rfl⟩
  quits_stamp pos hφ := by simpa [Quits] using hφ
  read := by
    rintro _ p x f _ _ _ ⟨⟨⟩, rfl⟩
    exact together_read f x

end Strictness

/-- Evaluation in a state and in the state with all frames lax. It ends in the same way unless an
unbound name is read in a strict frame; then the lax evaluation has come as far and goes on. -/
theorem Limits.eval_lax (limits : Limits) (e : Expr) (f : Nat) (s : State) :
    limits.eval e f s.lax = laxResult (limits.eval e f s) ∨
      ∃ fault s', limits.eval e f s = .error fault s' ∧ fault.kind? = some .unboundVariable ∧
        s'.lax.Grows (finalState (limits.eval e f s.lax)) := by
  have hrun := Strictness.lockstep_laws.eval limits.rounds limits.depth
    (w := ()) (e := e) (f := f) ⟨rfl, rfl⟩ s s.lax rfl
  change Strictness.lockstep.Results () _ (limits.eval e f s) (limits.eval e f s.lax) ∨ _ at hrun
  rcases hrun with hr | ⟨_, fault, s', _, hfault, hquits, -, rfl, hgrows⟩
  · refine .inl ?_
    cases hs : limits.eval e f s <;> cases ht : limits.eval e f s.lax <;> rw [hs, ht] at hr
    case ok.ok =>
      obtain ⟨_, -, rfl, rfl⟩ := hr
      rfl
    case error.error =>
      obtain ⟨_, -, rfl, rfl⟩ := hr
      rfl
    case ok.error | error.ok => exact hr.elim
  · exact .inr ⟨fault, s', hfault, hquits, hgrows⟩

/-- A program in a new strict environment and in a new lax one. If the strict run does not fail on
an unbound name, the lax run ends with the same value or fault, the same lines printed and the
same frames. If it does, what it printed is what the lax run prints first. -/
theorem evalFresh_strict_lax (limits : Limits) (e : Expr) :
    let strict := limits.evalFresh true e .empty
    let lax := limits.evalFresh false e .empty
    ((∀ fault s, strict = .error fault s → fault.kind? ≠ some .unboundVariable) →
      lax = laxResult strict) ∧
    ∀ fault s, strict = .error fault s → fault.kind? = some .unboundVariable →
      s.printed.toList <+: (finalState lax).printed.toList := by
  intro strict lax
  have hlax : lax = limits.eval e 0 (State.fresh true).lax := by
    rw [State.lax_fresh, ← limits.evalFresh_eq false e]
  rw [hlax, show strict = _ from limits.evalFresh_eq true e]
  rcases limits.eval_lax e 0 (.fresh true) with heq | ⟨fault, s, hfault, hkind, hgrows⟩
  · refine ⟨fun _ => heq, fun fault s hfault _ => ?_⟩
    rw [heq, hfault]
    exact List.prefix_rfl
  · refine ⟨fun hnot => absurd hkind (hnot fault s hfault), fun fault' s' hfault' _ => ?_⟩
    rw [hfault] at hfault'
    cases hfault'
    exact hgrows.printed

end Scriptlet
