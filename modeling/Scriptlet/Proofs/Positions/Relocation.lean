import Scriptlet.Proofs.Evaluation.Lockstep
import Scriptlet.Proofs.Evaluation.StateMap

/-! Positions put elsewhere. No computation goes by the positions of its code, so to put them
elsewhere, in an expression and in the closures of a heap, changes nothing about an evaluation but
the positions that come out of it. -/

namespace Scriptlet

open EvalM

/-- Where to put positions, if they are not dropped. Either all are dropped or none is. -/
structure Relocation where
  target : Position → Option Position
  uniform {p q : Position} : target p = none → target q = none

/-- A relocation that drops nothing. -/
def Relocation.ofMap (move : Position → Position) : Relocation where
  target p := some (move p)
  uniform h := by cases h

/-! ### What is relocated -/

namespace Expr

mutual

/-- The same expression with its positions elsewhere. -/
@[simp] def relocate (g : Relocation) : Expr → Expr
  | .const p v => .const (p.bind g.target) v
  | .var p x => .var (p.bind g.target) x
  | .print p a => .print (p.bind g.target) (a.relocate g)
  | .binary p op a b => .binary (p.bind g.target) op (a.relocate g) (b.relocate g)
  | .cond p a b c => .cond (p.bind g.target) (a.relocate g) (b.relocate g) (c.relocate g)
  | .loop p a b => .loop (p.bind g.target) (a.relocate g) (b.relocate g)
  | .seq p a b => .seq (p.bind g.target) (a.relocate g) (b.relocate g)
  | .declare p x a => .declare (p.bind g.target) x (a.relocate g)
  | .assign p x a => .assign (p.bind g.target) x (a.relocate g)
  | .func p xs a => .func (p.bind g.target) xs (a.relocate g)
  | .call p a as => .call (p.bind g.target) (a.relocate g) (relocateAll g as)
  | .foreign type => .foreign type

@[simp] def relocateAll (g : Relocation) : List Expr → List Expr
  | [] => []
  | e :: es => e.relocate g :: relocateAll g es

end

theorem relocateAll_eq_map (g : Relocation) (es : List Expr) :
    relocateAll g es = es.map (relocate g) := by
  induction es with
  | nil => rfl
  | cons e es ih => simp [ih]

theorem pos_relocate (g : Relocation) (e : Expr) : (e.relocate g).pos = e.pos.bind g.target := by
  cases e <;> rfl

theorem relocate_relocate (m m' : Position → Position) (e : Expr) :
    (e.relocate (.ofMap m)).relocate (.ofMap m') = e.relocate (.ofMap (m' ∘ m)) := by
  have hpos (p : Option Position) :
      (p.bind (Relocation.ofMap m).target).bind (Relocation.ofMap m').target =
        p.bind (Relocation.ofMap (m' ∘ m)).target := by
    cases p <;> rfl
  induction e with
  | call p a as iha ihas => simpa [hpos, iha, relocateAll_eq_map] using ihas
  | _ => simp_all

theorem relocate_id (e : Expr) : e.relocate (.ofMap id) = e := by
  have hpos (p : Option Position) : p.bind (Relocation.ofMap id).target = p := by cases p <;> rfl
  induction e with
  | call p a as iha ihas =>
    have hargs : as.map (relocate (.ofMap id)) = as :=
      (List.map_congr_left ihas).trans (List.map_id' as)
    simp [hpos, iha, relocateAll_eq_map, hargs]
  | _ => simp_all

end Expr

def Closure.relocate (g : Relocation) (c : Closure) : Closure :=
  { c with body := c.body.relocate g }

/-- The code of all closures with its positions elsewhere. -/
def Heap.relocate (g : Relocation) (h : Heap) : Heap :=
  { h with closures := h.closures.map (Closure.relocate g) }

def State.relocate (g : Relocation) (s : State) : State := { s with heap := s.heap.relocate g }

/-- A place that is known by line and column is a position. -/
def Place.relocate (g : Relocation) : Place → Option Place
  | ⟨some line, some column⟩ => (g.target ⟨line, column⟩).map .ofPosition
  | place => some place

def Fault.relocate (g : Relocation) : Fault → Fault
  | .error e => .error ⟨e.cause, e.place.bind (Place.relocate g)⟩
  | fault => fault

/-- An ending with its positions elsewhere: those of closures that it leaves, and that of an
error. -/
def relocateResult (g : Relocation) : EStateM.Result Fault State Value →
    EStateM.Result Fault State Value
  | .ok v s => .ok v (s.relocate g)
  | .error fault s => .error (fault.relocate g) (s.relocate g)

theorem State.relocate_relocate (m m' : Position → Position) (s : State) :
    (s.relocate (.ofMap m)).relocate (.ofMap m') = s.relocate (.ofMap (m' ∘ m)) := by
  simp [State.relocate, Heap.relocate, Closure.relocate, Function.comp_def,
    Expr.relocate_relocate]

theorem State.relocate_id (s : State) : s.relocate (.ofMap id) = s := by
  have hclosure : Closure.relocate (.ofMap id) = id := funext fun c => by
    simp [Closure.relocate, Expr.relocate_id]
  simp [State.relocate, Heap.relocate, hclosure]

section

variable {g : Relocation}

theorem Fault.gaveUp_relocate (fault : Fault) : (fault.relocate g).gaveUp = fault.gaveUp := by
  cases fault <;> rfl

/-- It makes no difference whether a place is settled before or after positions are put
elsewhere. -/
theorem Fault.relocate_stamp (fault : Fault) (pos : Option Position) :
    (fault.stamp pos).relocate g = (fault.relocate g).stamp (pos.bind g.target) := by
  cases fault with
  | error e =>
    obtain ⟨cause, place⟩ := e
    cases place with
    | none =>
      by_cases hc : cause = .depthExceeded
      · simp [Fault.stamp, Error.stamp, Fault.relocate, hc]
      · cases pos <;> simp [Fault.stamp, Error.stamp, Fault.relocate, hc, Place.relocate,
          Place.ofPosition]
    | some place =>
      change Fault.relocate g (.error ⟨cause, some place⟩) = _
      obtain ⟨line | line, column | column⟩ := place
      case some.some =>
        cases hp : g.target ⟨line, column⟩ with
        | some q => simp [Fault.relocate, Place.relocate, hp, Fault.stamp, Error.stamp]
        | none =>
          -- all positions are dropped, so there is none to settle the place with
          have hpos : pos.bind g.target = none := by
            cases pos with
            | none => rfl
            | some q => exact g.uniform hp
          rw [hpos, Fault.stamp_none]
      all_goals simp [Fault.relocate, Place.relocate, Fault.stamp, Error.stamp]
  | _ => rfl

end

/-! ### Evaluation with positions elsewhere -/

theorem Closure.text_relocate (g : Relocation) (c : Closure) : (c.relocate g).text = c.text := rfl

/-- Putting positions elsewhere, as a map of states. -/
def Relocation.stateMap (g : Relocation) : StateMap where
  heap := Heap.relocate g
  fault := Fault.relocate g
  size_frames _ := rfl
  parent? _ _ := rfl
  binds _ _ _ := rfl
  get? _ _ _ := rfl
  text h v := by
    cases v with
    | closure id => simp [Heap.text, Heap.relocate, Function.comp_def, Closure.text_relocate]
    | _ => rfl
  put _ _ _ _ := rfl
  pushFrame _ _ := rfl
  unplaced := by
    intro fault hf
    cases fault with
    | error e =>
      obtain ⟨cause, place⟩ := e
      cases hf
      rfl
    | _ => rfl

namespace Relocation

variable (g : Relocation)

/-- An evaluation beside the same one with its positions elsewhere. -/
def lockstep : Lockstep where
  Stage := Unit
  le _ _ := True
  states _ s t := t = s.relocate g
  values _ := Eq
  codes _ e f e' f' := e' = e.relocate g ∧ f = f'
  closures _ c c' := c' = c.relocate g
  faults φ ψ := ψ = φ.relocate g

variable {g}

theorem together {α : Type} {Q : Unit → α → α → Prop} {x : EvalM α} (hx : g.stateMap.Keeps x)
    (hQ : ∀ a, Q () a a) : g.lockstep.Together () Q x x := by
  rintro s _ rfl
  have hmap : x (s.relocate g) = g.stateMap.result (x s) := hx s
  rw [hmap]
  cases x s with
  | ok a s' => exact ⟨(), trivial, rfl, hQ a⟩
  | error φ s' => exact ⟨(), trivial, rfl, rfl⟩

theorem aligned_relocate (e : Expr) (f : Nat) :
    Expr.Aligned Eq (fun a a' => a' = a.relocate g ∧ f = f) e (e.relocate g) := by
  cases e with
  | call p a as =>
    refine .call ⟨rfl, rfl⟩ ?_
    rw [Expr.relocateAll_eq_map, List.forall₂_map_right_iff]
    exact List.forall₂_same.mpr fun _ _ => ⟨rfl, rfl⟩
  | const => exact .const rfl
  | _ => constructor <;> exact ⟨rfl, rfl⟩

theorem keeps_read (f : Nat) (x : String) : g.stateMap.Keeps (read f x) := by
  intro s
  have hstrict : (g.stateMap.state s).heap.strict f = s.heap.strict f := rfl
  have hresolve : (g.stateMap.state s).heap.resolve? f x = s.heap.resolve? f x :=
    g.stateMap.resolve? s.heap f x
  rw [read_eq, read_eq, hresolve, hstrict]
  split
  · rfl
  · split <;> rfl

theorem lockstep_laws : g.lockstep.Laws where
  le_refl _ := trivial
  le_trans _ _ := trivial
  values_mono _ hv := hv
  codes_mono _ hc := hc
  closures_mono _ hc := hc
  faults_refl hφ := (g.stateMap.unplaced hφ).symm
  faults_stamp := by
    rintro _ e f _ _ φ _ ⟨rfl, -⟩ rfl
    rw [Expr.pos_relocate]
    exact (φ.relocate_stamp e.pos).symm
  aligned := by
    rintro _ e f _ _ ⟨rfl, rfl⟩
    exact aligned_relocate e f
  plain _ := rfl
  alike := by
    rintro _ v _ rfl
    cases v with
    | closure id => exact .inr ⟨id, id, rfl, rfl⟩
    | _ => exact .inl ⟨rfl, by simp⟩
  eq_iff := by
    rintro _ a _ b _ rfl rfl
    rfl
  described := by
    rintro _ s _ v _ cause rfl rfl -
    exact congrArg (Fault.ofCause ∘ cause) (g.stateMap.describe s.heap v)
  closure := by
    rintro _ s _ v _ rfl rfl
    cases v with
    | closure id =>
      change Option.Rel _ s.heap.closures[id]? (s.heap.closures.map (Closure.relocate g))[id]?
      rw [Array.getElem?_map]
      cases s.heap.closures[id]? with
      | none => exact .none
      | some c => exact .some rfl
    | _ => exact .none
  print := by
    rintro _ v _ rfl
    exact together (.print v) fun _ => trivial
  declare := by
    rintro _ p x e f _ _ _ _ v _ ⟨heq, rfl⟩ rfl
    cases heq
    exact together (.declare f x v) fun _ => trivial
  assign := by
    rintro _ p x e f _ _ _ _ v _ ⟨heq, rfl⟩ rfl
    cases heq
    exact together (.assign f x v) fun _ => trivial
  func := by
    rintro _ p xs b f _ _ _ _ ⟨heq, rfl⟩
    cases heq
    rintro s _ rfl
    refine ⟨(), trivial, ?_, ?_⟩
    · simp [lockstep, State.relocate, Heap.relocate, Heap.pushClosure, Closure.relocate]
    · simp [lockstep, State.relocate, Heap.relocate]
  enter := by
    rintro _ c _ vs _ rfl hvs
    obtain rfl : vs = _ := by simpa [lockstep] using hvs
    exact together (.enter c vs) fun _ => ⟨rfl, rfl⟩
  read := by
    rintro _ p x f _ _ _ ⟨heq, rfl⟩
    cases heq
    exact together (keeps_read f x) fun _ => rfl

end Relocation

/-- Evaluation with positions elsewhere is evaluation, and what comes out of it has its positions
elsewhere. -/
theorem evalWithin_relocate (g : Relocation) (rounds depth : Nat) (e : Expr) (f : Nat) (s : State) :
    evalWithin rounds depth (e.relocate g) f (s.relocate g) =
      relocateResult g (evalWithin rounds depth e f s) := by
  have hr := (@Relocation.lockstep_laws g).eval rounds depth (w := ()) (e := e) (f := f)
    ⟨rfl, rfl⟩ s _ rfl
  cases hs : evalWithin rounds depth e f s <;>
    cases ht : evalWithin rounds depth (e.relocate g) f (s.relocate g) <;> rw [hs, ht] at hr
  case ok.ok =>
    obtain ⟨_, -, rfl, rfl⟩ := hr
    rfl
  case error.error =>
    obtain ⟨_, -, rfl, rfl⟩ := hr
    rfl
  case ok.error | error.ok => exact hr.elim

end Scriptlet
