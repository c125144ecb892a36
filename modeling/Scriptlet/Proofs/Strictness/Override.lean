import Scriptlet.Proofs.Evaluation.Growth

/-! Where a frame takes its strictness from. A frame that a call makes is as strict as the one it
hangs under, and a frame that was there before the call may be made strict or lax for its time. -/

namespace Scriptlet

namespace Heap

/-! ### One frame made strict or lax -/

section SetStrict

variable (h : Heap) (f g : Nat) (strict : Bool)

@[simp] theorem size_frames_setStrict :
    (h.setStrict f strict).frames.size = h.frames.size := by
  simp [setStrict]

@[simp] theorem parent?_setStrict : (h.setStrict f strict).parent? g = h.parent? g := by
  simp only [parent?, setStrict, Array.getElem?_modify]
  split <;> cases h.frames[g]? <;> rfl

@[simp] theorem chain_setStrict : (h.setStrict f strict).chain g = h.chain g :=
  chain_congr (h.parent?_setStrict f · strict) g

theorem strict_setStrict {f : Nat} (hf : f < h.frames.size) :
    (h.setStrict f strict).strict g = if f = g then strict else h.strict g := by
  simp only [Heap.strict, setStrict, Array.getElem?_modify]
  split
  · next heq =>
    subst heq
    simp [Array.getElem?_eq_getElem hf]
  · rfl

theorem Ordered.setStrict {h : Heap} (ho : h.Ordered) : (h.setStrict f strict).Ordered where
  parent_lt hp := ho.parent_lt (by simpa using hp)
  captured_lt hc := by simpa using ho.captured_lt hc

end SetStrict

/-- The heap with a frame made strict or lax, if asked. -/
def override (h : Heap) (f : Nat) (strict : Option Bool) : Heap := strict.elim h (h.setStrict f)

section Override

variable (h : Heap) (f g : Nat) (strict : Option Bool)

@[simp] theorem size_frames_override :
    (h.override f strict).frames.size = h.frames.size := by
  cases strict <;> simp [override]

@[simp] theorem closures_override : (h.override f strict).closures = h.closures := by
  cases strict <;> rfl

@[simp] theorem chain_override : (h.override f strict).chain g = h.chain g := by
  cases strict <;> simp [override]

theorem frames_override {h : Heap} {g : Nat} {frame : Frame} (hg : h.frames[g]? = some frame) :
    ∃ b, (h.override f strict).frames[g]? = some { frame with strict := b } := by
  cases strict with
  | none => exact ⟨frame.strict, hg⟩
  | some b =>
    simp only [override, Option.elim_some, setStrict, Array.getElem?_modify, hg]
    split
    · exact ⟨b, rfl⟩
    · exact ⟨frame.strict, rfl⟩

@[simp] theorem vars_override : (h.override f strict).vars g = h.vars g := by
  cases hg : h.frames[g]? with
  | some frame =>
    obtain ⟨b, hb⟩ := frames_override f strict hg
    simp [vars, hb, hg]
  | none =>
    have hnone : (h.override f strict).frames[g]? = none := by simpa using hg
    simp [vars, hg, hnone]

theorem strict_override {f : Nat} (hf : f < h.frames.size) :
    (h.override f strict).strict g = if f = g then strict.getD (h.strict f) else h.strict g := by
  cases strict with
  | none => split <;> simp [override, *]
  | some strict => exact h.strict_setStrict g strict hf

theorem Ordered.override {h : Heap} (ho : h.Ordered) : (h.override f strict).Ordered := by
  cases strict with
  | none => exact ho
  | some strict => exact ho.setStrict f strict

end Override

/-! ### Frames that are as strict as their parents -/

/-- The first frame with a number below `n`, going outward from a frame. -/
def base? (h : Heap) (n g : Nat) : Option Nat := (h.chain g).find? (· < n)

@[simp] theorem base?_override (h : Heap) (f : Nat) (strict : Option Bool) (n g : Nat) :
    (h.override f strict).base? n g = h.base? n g := by
  simp [base?]

theorem strict_pushFrame (h : Heap) (p g : Nat) :
    (h.pushFrame (some p) none).strict g =
      if g = h.frames.size then h.strict p else h.strict g := by
  simp only [strict, pushFrame, Array.getElem?_push]
  split <;> simp [strict]

/-- Every frame from number `n` on hangs under another one and is as strict as that one, be it
strict or lax as allowed. -/
structure Inherits (h : Heap) (n : Nat) (allowed : Bool → Prop) : Prop where
  ordered : h.Ordered
  parent {g} : n ≤ g → g < h.frames.size → ∃ p, h.parent? g = some p ∧ h.strict g = h.strict p
  policy {g} : n ≤ g → g < h.frames.size → allowed (h.strict g)

namespace Inherits

variable {h h' : Heap} {n : Nat} {allowed : Bool → Prop}

theorem of_size (ho : h.Ordered) : h.Inherits h.frames.size allowed where
  ordered := ho
  parent hn hg := absurd hg (Nat.not_lt.mpr hn)
  policy hn hg := absurd hg (Nat.not_lt.mpr hn)

theorem grow (hi : h.Inherits n allowed) (hh : h.Grows h') (ho : h'.Ordered)
    (hsize : h'.frames.size = h.frames.size) : h'.Inherits n allowed where
  ordered := ho
  parent {g} hn hg := by
    rw [hsize] at hg
    obtain ⟨p, hp, hstrict⟩ := hi.parent hn hg
    have hlt := hi.ordered.parent_lt hp
    exact ⟨p, by rw [hh.parent?_eq hg, hp],
      by rw [hh.strict_eq hg, hh.strict_eq (Nat.lt_trans hlt hg), hstrict]⟩
  policy {g} hn hg := by
    rw [hsize] at hg
    rw [hh.strict_eq hg]
    exact hi.policy hn hg

theorem pushFrame (hi : h.Inherits n allowed) {p : Nat} (hp : p < h.frames.size)
    (ha : allowed (h.strict p)) : (h.pushFrame (some p) none).Inherits n allowed where
  ordered := ((⟨hi.ordered, hp⟩ : h.Holds p).pushFrame_follows none).ordered
  parent {g} hn hg := by
    simp only [parent?_pushFrame, strict_pushFrame]
    by_cases hnew : g = h.frames.size
    · exact ⟨p, by simp [hnew], by simp [hnew, Nat.ne_of_lt hp]⟩
    · have hold : g < h.frames.size := by
        simp only [Heap.pushFrame, Array.size_push] at hg
        omega
      obtain ⟨q, hq, hstrict⟩ := hi.parent hn hold
      have hlt := hi.ordered.parent_lt hq
      exact ⟨q, by simp [hnew, hq], by simp [hnew, hstrict, show q ≠ h.frames.size by omega]⟩
  policy {g} hn hg := by
    rw [strict_pushFrame]
    split
    · exact ha
    · simp only [Heap.pushFrame, Array.size_push] at hg
      exact hi.policy hn (by omega)

/-- A frame is as strict as the one below `n` around it. -/
theorem strict_base (hi : h.Inherits n allowed) {g : Nat} (hg : g < h.frames.size) :
    ∃ b, h.base? n g = some b ∧ b < n ∧ h.strict g = h.strict b := by
  induction g using Nat.strongRecOn with
  | ind g ih =>
    by_cases hn : g < n
    · refine ⟨g, ?_, hn, rfl⟩
      cases hp : h.parent? g with
      | none => simp [base?, chain_of_global hp, hn]
      | some p => simp [base?, chain_of_parent hi.ordered hp, hn]
    · obtain ⟨p, hp, hstrict⟩ := hi.parent (Nat.le_of_not_lt hn) hg
      have hlt := hi.ordered.parent_lt hp
      obtain ⟨b, hb, hbn, hbs⟩ := ih p hlt (Nat.lt_trans hlt hg)
      refine ⟨b, ?_, hbn, hstrict.trans hbs⟩
      rw [base?, chain_of_parent hi.ordered hp, List.find?_cons_of_neg (by simpa using hn)]
      exact hb

end Inherits

end Heap

/-- The state with a frame made strict or lax, if asked. -/
def State.override (s : State) (f : Nat) (strict : Option Bool) : State :=
  { s with heap := s.heap.override f strict }

theorem EvalM.withStrict_eq {α : Type} (f : Nat) (strict : Option Bool) (x : EvalM α) (s : State) :
    withStrict f strict x s =
      let before := strict.map fun _ => s.heap.strict f
      match x (s.override f strict) with
      | .ok a s' => .ok a (s'.override f before)
      | .error fault s' => .error fault (s'.override f before) := by
  cases strict with
  | some strict => rfl
  | none =>
    rw [show s.override f none = s from rfl, show withStrict f none x s = x s from rfl]
    cases x s <;> rfl

end Scriptlet
