import Mathlib.Data.List.Forall2
import Scriptlet.Proofs.Evaluation.Rules
import Scriptlet.Proofs.Locality.Reach

/-! Two heaps that look the same from an expression and its frame. What evaluation sees are the
frames that could be reached when it began and those made since; of these both heaps have the same
ones, up to the numbers of the closures made since. -/

namespace Scriptlet

theorem renumber_of_lt {n m id : Nat} (h : id < n) : renumber n m id = id := if_pos h

theorem renumber_of_le {n m id : Nat} (h : n ≤ id) : renumber n m id = id - n + m :=
  if_neg (Nat.not_lt.mpr h)

/-- Where two evaluations of one expression in one frame began. Both heaps have the closures that
can be reached. -/
structure Outlook where
  left : State
  right : State
  expr : Expr
  frame : Nat
  reached : ∀ {id}, left.heap.Reaches expr frame (.closure id) →
    id < left.heap.closures.size ∧ id < right.heap.closures.size

/-- How many frames and how many closures there are. -/
structure Extent where
  frames : Nat
  closures : Nat

namespace Extent

def LE (w w' : Extent) : Prop := w.frames ≤ w'.frames ∧ w.closures ≤ w'.closures

theorem LE.refl (w : Extent) : w.LE w := ⟨Nat.le_refl _, Nat.le_refl _⟩

theorem LE.trans {w w' w'' : Extent} (h : w.LE w') (h' : w'.LE w'') : w.LE w'' :=
  ⟨Nat.le_trans h.1 h'.1, Nat.le_trans h.2 h'.2⟩

def addFrame (w : Extent) : Extent := ⟨w.frames + 1, w.closures⟩

def addClosure (w : Extent) : Extent := ⟨w.frames, w.closures + 1⟩

theorem le_addFrame (w : Extent) : w.LE w.addFrame := ⟨Nat.le_succ _, Nat.le_refl _⟩

theorem le_addClosure (w : Extent) : w.LE w.addClosure := ⟨Nat.le_refl _, Nat.le_succ _⟩

end Extent

namespace Outlook

variable (o : Outlook)

/-- Whether a frame could be reached in the beginning. -/
def Frames (g : Nat) : Prop := o.left.heap.Reaches o.expr o.frame (.frame g)

/-- Whether a closure could be reached in the beginning. -/
def Closures (id : Nat) : Prop := o.left.heap.Reaches o.expr o.frame (.closure id)

/-- The frames that could be reached and those made since. -/
def Sees (w : Extent) (g : Nat) : Prop :=
  (o.Frames g ∨ o.left.heap.frames.size ≤ g) ∧ g < w.frames

/-- The closures that could be reached and those made since. -/
def Knows (w : Extent) (id : Nat) : Prop :=
  (o.Closures id ∨ o.left.heap.closures.size ≤ id) ∧ id < w.closures

/-- Code that can be evaluated: no closure is embedded in it but those that could be reached. -/
def Runs (w : Extent) (e : Expr) (g : Nat) : Prop :=
  o.Sees w g ∧ ∀ id, e.Embeds id → o.Closures id ∧ id < w.closures

def number : Nat → Nat := renumber o.left.heap.closures.size o.right.heap.closures.size

def value : Value → Value :=
  Value.renumber o.left.heap.closures.size o.right.heap.closures.size

/-- A value and what it is in the other heap. -/
def Values (w : Extent) (v v' : Value) : Prop :=
  v' = o.value v ∧ ∀ id, v = .closure id → o.Knows w id

/-- What holds between the heaps. -/
structure Heaps (w : Extent) (h k : Heap) : Prop where
  start_le : o.left.heap.frames.size ≤ w.frames
  closures_le : o.left.heap.closures.size ≤ w.closures
  size : h.frames.size = w.frames
  size_right : k.frames.size = w.frames
  closures_size : h.closures.size = w.closures
  closures_size_right : k.closures.size = o.number w.closures
  frames {g : Nat} : o.Sees w g → k.frames[g]? = h.frames[g]?.map (Frame.map id o.value)
  parent {g p : Nat} : o.Sees w g → h.parent? g = some p → o.Sees w p
  bound {g : Nat} {x : String} {id : Nat} : o.Sees w g → (x, .closure id) ∈ h.vars g →
    o.Knows w id
  closures {id : Nat} : o.Knows w id → k.closures[o.number id]? = h.closures[id]?
  code {id : Nat} {c : Closure} : o.Knows w id → h.closures[id]? = some c →
    o.Runs w c.body c.frame
  unseen {g : Nat} : g < o.left.heap.frames.size → ¬ o.Frames g →
    h.frames[g]? = o.left.heap.frames[g]?

variable {o} {w w' : Extent} {h k : Heap}

theorem Sees.mono {g : Nat} (hg : o.Sees w g) (hw : w.LE w') : o.Sees w' g :=
  ⟨hg.1, Nat.lt_of_lt_of_le hg.2 hw.1⟩

theorem Knows.mono {id : Nat} (hid : o.Knows w id) (hw : w.LE w') : o.Knows w' id :=
  ⟨hid.1, Nat.lt_of_lt_of_le hid.2 hw.2⟩

theorem Sees.of_ne {g : Nat} (hg : o.Sees w.addFrame g) (hne : g ≠ w.frames) : o.Sees w g :=
  ⟨hg.1, Nat.lt_of_le_of_ne (Nat.le_of_lt_succ hg.2) hne⟩

theorem Knows.of_ne {id : Nat} (hid : o.Knows w.addClosure id) (hne : id ≠ w.closures) :
    o.Knows w id :=
  ⟨hid.1, Nat.lt_of_le_of_ne (Nat.le_of_lt_succ hid.2) hne⟩

theorem Runs.mono {e : Expr} {g : Nat} (hr : o.Runs w e g) (hw : w.LE w') : o.Runs w' e g :=
  ⟨hr.1.mono hw, fun id hid => (hr.2 id hid).imp_right fun hlt => Nat.lt_of_lt_of_le hlt hw.2⟩

theorem Values.mono {v v' : Value} (hv : o.Values w v v') (hw : w.LE w') : o.Values w' v v' :=
  ⟨hv.1, fun id hid => (hv.2 id hid).mono hw⟩

/-- No two closures that could be reached or are new get the same number. -/
theorem number_inj {i j : Nat}
    (hi : o.Closures i ∨ o.left.heap.closures.size ≤ i)
    (hj : o.Closures j ∨ o.left.heap.closures.size ≤ j) : o.number i = o.number j ↔ i = j := by
  refine ⟨fun heq => ?_, congrArg _⟩
  unfold number at heq
  rcases hi with hi | hi <;> rcases hj with hj | hj
  · rwa [renumber_of_lt (o.reached hi).1, renumber_of_lt (o.reached hj).1] at heq
  · have := (o.reached hi).2
    rw [renumber_of_lt (o.reached hi).1, renumber_of_le hj] at heq
    omega
  · have := (o.reached hj).2
    rw [renumber_of_le hi, renumber_of_lt (o.reached hj).1] at heq
    omega
  · rw [renumber_of_le hi, renumber_of_le hj] at heq
    omega

namespace Heaps

theorem parent?_eq (hh : o.Heaps w h k) {g : Nat} (hg : o.Sees w g) :
    k.parent? g = h.parent? g := by
  rw [Heap.parent?, Heap.parent?, hh.frames hg]
  cases h.frames[g]? <;> simp

theorem strict_eq (hh : o.Heaps w h k) {g : Nat} (hg : o.Sees w g) : k.strict g = h.strict g := by
  rw [Heap.strict, Heap.strict, hh.frames hg]
  cases h.frames[g]? <;> simp

theorem binds_eq (hh : o.Heaps w h k) {g : Nat} (hg : o.Sees w g) (x : String) :
    k.binds g x = h.binds g x := by
  rw [Heap.binds, Heap.binds, hh.frames hg]
  cases h.frames[g]? with
  | none => rfl
  | some frame => exact Frame.binds_map fun _ _ => Iff.rfl

theorem get?_eq (hh : o.Heaps w h k) {g : Nat} (hg : o.Sees w g) (x : String) :
    k.get? g x = (h.get? g x).map o.value := by
  rw [Heap.get?, Heap.get?, hh.frames hg]
  cases h.frames[g]? with
  | none => rfl
  | some frame => exact Frame.get?_map fun _ _ => Iff.rfl

/-! ### Going outward -/

theorem chain_eq (hh : o.Heaps w h k) {g : Nat} (hg : o.Sees w g) : k.chain g = h.chain g := by
  induction g using Nat.strongRecOn with
  | ind g ih =>
    rw [Heap.chain, Heap.chain, hh.parent?_eq hg]
    cases hp : h.parent? g with
    | none => rfl
    | some p =>
      by_cases hlt : p < g
      · simp [hlt, ih p hlt (hh.parent hg hp)]
      · simp [hlt]

theorem sees_of_mem_chain (hh : o.Heaps w h k) {g q : Nat} (hg : o.Sees w g) (hq : q ∈ h.chain g) :
    o.Sees w q := by
  induction g using Nat.strongRecOn with
  | ind g ih =>
    rw [Heap.chain] at hq
    cases hp : h.parent? g with
    | none =>
      simp only [hp, List.mem_singleton] at hq
      exact hq ▸ hg
    | some p =>
      simp only [hp] at hq
      split at hq
      · rcases List.mem_cons.mp hq with rfl | hq
        · exact hg
        · exact ih p ‹_› (hh.parent hg hp) hq
      · exact List.mem_singleton.mp hq ▸ hg

theorem owner?_eq (hh : o.Heaps w h k) {g : Nat} (hg : o.Sees w g) (x : String) :
    k.owner? g x = h.owner? g x := by
  have hbinds : ∀ q ∈ h.chain g, k.binds q x = h.binds q x :=
    fun q hq => hh.binds_eq (hh.sees_of_mem_chain hg hq) x
  rw [Heap.owner?, Heap.owner?, hh.chain_eq hg]
  generalize h.chain g = chain at hbinds
  induction chain with
  | nil => rfl
  | cons q qs ih =>
    rw [List.forall_mem_cons] at hbinds
    rw [List.find?_cons, List.find?_cons, hbinds.1, ih hbinds.2]

theorem sees_owner (hh : o.Heaps w h k) {g q : Nat} (hg : o.Sees w g) {x : String}
    (hq : h.owner? g x = some q) : o.Sees w q :=
  hh.sees_of_mem_chain hg (List.mem_of_find?_eq_some hq)

theorem global_eq (hh : o.Heaps w h k) {g : Nat} (hg : o.Sees w g) : k.global g = h.global g := by
  rw [Heap.global, Heap.global, hh.chain_eq hg]

theorem sees_global (hh : o.Heaps w h k) {g : Nat} (hg : o.Sees w g) : o.Sees w (h.global g) := by
  refine hh.sees_of_mem_chain hg ?_
  have hne := h.chain_ne_nil g
  rw [Heap.global, List.getLastD_eq_getLast?, List.getLast?_eq_some_getLast hne]
  exact List.getLast_mem hne

/-- Both heaps give a name the same value. -/
theorem resolve? (hh : o.Heaps w h k) {g : Nat} (hg : o.Sees w g) (x : String) :
    Option.Rel (o.Values w) (h.resolve? g x) (k.resolve? g x) := by
  rw [Heap.resolve?, Heap.resolve?, hh.owner?_eq hg]
  cases hq : h.owner? g x with
  | none => exact .none
  | some q =>
    have hsees := hh.sees_owner hg hq
    rw [Option.bind_some, Option.bind_some, hh.get?_eq hsees]
    cases hv : h.get? q x with
    | none => exact .none
    | some v =>
      refine .some ⟨rfl, ?_⟩
      rintro id rfl
      obtain ⟨frame, hframe, hget⟩ := Option.bind_eq_some_iff.mp hv
      refine hh.bound hsees (x := x) ?_
      simpa [Heap.vars, hframe] using Frame.mem_vars_of_get? hget

/-! ### Changing both heaps -/

theorem put (hh : o.Heaps w h k) {g : Nat} (hg : o.Sees w g) (x : String) {v v' : Value}
    (hv : o.Values w v v') : o.Heaps w (h.put g x v) (k.put g x v') := by
  obtain ⟨rfl, hknown⟩ := hv
  constructor
  case size => simpa using hh.size
  case size_right => simpa using hh.size_right
  case start_le => exact hh.start_le
  case closures_le => exact hh.closures_le
  case closures_size => exact hh.closures_size
  case closures_size_right => exact hh.closures_size_right
  case closures => exact hh.closures
  case code => exact hh.code
  case parent => exact fun hg hp => hh.parent hg (by simpa using hp)
  case frames =>
    intro q hq
    rw [Heap.frames_put, Heap.frames_put, hh.frames hq]
    split
    case isFalse => rfl
    case isTrue =>
      cases h.frames[q]? with
      | none => rfl
      | some frame => exact congrArg some (Frame.put_map (fun _ _ => Iff.rfl) v)
  case bound =>
    intro q y id hq hy
    simp only [Heap.vars, Heap.frames_put] at hy
    split at hy
    case isFalse => exact hh.bound hq hy
    case isTrue =>
      cases hframe : h.frames[q]? with
      | none => simp [hframe] at hy
      | some frame =>
        rw [hframe] at hy
        rcases Frame.mem_vars_put hy with hy | hy
        · exact hh.bound hq (x := y) (by simpa [Heap.vars, hframe] using hy)
        · exact hknown id (congrArg Prod.snd hy).symm
  case unseen =>
    intro q hq hr
    -- the frame that changes is seen, so it is another one
    have hne : g ≠ q := by
      rintro rfl
      rcases hg.1 with hreach | hle
      · exact hr hreach
      · omega
    rw [Heap.frames_put, if_neg hne]
    exact hh.unseen hq hr

theorem assign (hh : o.Heaps w h k) {g : Nat} (hg : o.Sees w g) (x : String) {v v' : Value}
    (hv : o.Values w v v') : o.Heaps w (h.assign g x v) (k.assign g x v') := by
  rw [Heap.assign, Heap.assign, hh.owner?_eq hg, hh.global_eq hg]
  cases hq : h.owner? g x with
  | none => exact hh.put (hh.sees_global hg) x hv
  | some q => exact hh.put (hh.sees_owner hg hq) x hv

theorem sees_new (hh : o.Heaps w h k) : o.Sees w.addFrame w.frames :=
  ⟨.inr hh.start_le, Nat.lt_succ_self w.frames⟩

theorem pushFrame (hh : o.Heaps w h k) {p : Nat} (hp : o.Sees w p) :
    o.Heaps w.addFrame (h.pushFrame (some p) none) (k.pushFrame (some p) none) := by
  have hframes (h' : Heap) (hsize : h'.frames.size = w.frames) (g : Nat) :
      (h'.pushFrame (some p) none).frames[g]? =
        if g = w.frames then some ⟨some p, h'.strict p, []⟩ else h'.frames[g]? := by
    simp [Heap.pushFrame, Array.getElem?_push, hsize]
  constructor
  case start_le => exact Nat.le_succ_of_le hh.start_le
  case closures_le => exact hh.closures_le
  case size => simp [Heap.pushFrame, hh.size, Extent.addFrame]
  case size_right => simp [Heap.pushFrame, hh.size_right, Extent.addFrame]
  case closures_size => exact hh.closures_size
  case closures_size_right => exact hh.closures_size_right
  case closures => exact hh.closures
  case code => exact fun hid hc => (hh.code hid hc).mono w.le_addFrame
  case frames =>
    intro g hg
    rw [hframes h hh.size, hframes k hh.size_right]
    split
    case isTrue => simp [hh.strict_eq hp]
    case isFalse hne => exact hh.frames (hg.of_ne hne)
  case parent =>
    intro g q hg hq
    rw [Heap.parent?_pushFrame, hh.size] at hq
    split at hq
    case isTrue =>
      cases hq
      exact hp.mono w.le_addFrame
    case isFalse hne => exact (hh.parent (hg.of_ne hne) hq).mono w.le_addFrame
  case bound =>
    intro g x id hg hx
    rw [Heap.vars, hframes h hh.size] at hx
    split at hx
    case isTrue => cases hx
    case isFalse hne => exact hh.bound (hg.of_ne hne) hx
  case unseen =>
    intro g hg hr
    have hne : g ≠ w.frames := by
      have := hh.start_le
      omega
    rw [hframes h hh.size, if_neg hne]
    exact hh.unseen hg hr

theorem pushClosure (hh : o.Heaps w h k) {c : Closure} (hc : o.Runs w c.body c.frame) :
    o.Heaps w.addClosure (h.pushClosure c) (k.pushClosure c) := by
  constructor
  case start_le => exact hh.start_le
  case closures_le => exact Nat.le_succ_of_le hh.closures_le
  case size => exact hh.size
  case size_right => exact hh.size_right
  case frames => exact hh.frames
  case parent => exact hh.parent
  case bound => exact fun hg hx => (hh.bound hg hx).mono w.le_addClosure
  case unseen => exact hh.unseen
  case closures_size => simp [Heap.pushClosure, hh.closures_size, Extent.addClosure]
  case closures_size_right =>
    have hle := hh.closures_le
    have hsize := hh.closures_size_right
    simp only [number, renumber_of_le hle] at hsize
    simp only [Heap.pushClosure, Array.size_push, number, Extent.addClosure]
    rw [renumber_of_le (Nat.le_succ_of_le hle)]
    omega
  case closures =>
    intro id hid
    simp only [Heap.pushClosure, Array.getElem?_push, hh.closures_size, hh.closures_size_right,
      number_inj hid.1 (.inr hh.closures_le)]
    split
    case isTrue => rfl
    case isFalse hne => exact hh.closures (hid.of_ne hne)
  case code =>
    intro id d hid hd
    simp only [Heap.pushClosure, Array.getElem?_push, hh.closures_size] at hd
    split at hd
    case isTrue =>
      cases hd
      exact hc.mono w.le_addClosure
    case isFalse hne => exact (hh.code (hid.of_ne hne) hd).mono w.le_addClosure

/-- Declaring names goes on in both heaps until the same one is repeated. -/
theorem declares (hh : o.Heaps w h k) {g : Nat} (hg : o.Sees w g) {xs : List String}
    {vs vs' : List Value} (hvs : List.Forall₂ (o.Values w) vs vs') {repeated : Option String}
    {h' : Heap} (hd : Heap.Declares g (xs.zip vs) h repeated h') :
    ∃ k', Heap.Declares g (xs.zip vs') k repeated k' ∧ o.Heaps w h' k' := by
  induction xs generalizing vs vs' h k with
  | nil =>
    cases hd
    exact ⟨k, .done k, hh⟩
  | cons x xs ih =>
    cases hvs with
    | nil =>
      cases hd
      exact ⟨k, .done k, hh⟩
    | cons hv hvs =>
      cases hd with
      | next hb hd =>
        obtain ⟨k', hd', hh'⟩ := ih (hh.put hg x hv) hvs hd
        exact ⟨k', .next ((hh.binds_eq hg x).trans hb) hd', hh'⟩
      | repeated hb => exact ⟨k, .repeated ((hh.binds_eq hg x).trans hb), hh⟩

end Heaps

end Outlook

end Scriptlet
