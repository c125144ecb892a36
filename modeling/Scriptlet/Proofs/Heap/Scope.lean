import Scriptlet.Proofs.Heap.Frame

/-! Going outward from a frame. In an ordered heap every frame hangs under an earlier one, so
a walk along the parents ends at a global frame, and the nearest binding of a name is the one
that such a walk meets first. -/

namespace Scriptlet

namespace Heap

/-- Every frame hangs under an earlier one, and every closure captured a frame that exists. -/
structure Ordered (h : Heap) : Prop where
  parent_lt : ∀ {f p : Nat}, h.parent? f = some p → p < f
  captured_lt : ∀ {id : Nat} {c : Closure}, h.closures[id]? = some c → c.frame < h.frames.size

/-- An ordered heap that has the frame. -/
structure Holds (h : Heap) (f : Nat) : Prop where
  ordered : h.Ordered
  lt : f < h.frames.size

/-- What one heap is after another: ordered, and without the loss of a frame. -/
structure Follows (h' h : Heap) : Prop where
  ordered : h'.Ordered
  size_le : h.frames.size ≤ h'.frames.size

/-- Going outward from a frame, `g` is the first one that binds the name. -/
inductive Nearest (h : Heap) (name : String) : Nat → Nat → Prop where
  | here {f} (hb : h.binds f name = true) : Nearest h name f f
  | outward {f p g} (hb : h.binds f name = false) (hp : h.parent? f = some p) :
      Nearest h name p g → Nearest h name f g

/-- Going outward from a frame, none binds the name, and `g` is the last one. -/
inductive Unbound (h : Heap) (name : String) : Nat → Nat → Prop where
  | last {f} (hb : h.binds f name = false) (hp : h.parent? f = none) : Unbound h name f f
  | outward {f p g} (hb : h.binds f name = false) (hp : h.parent? f = some p) :
      Unbound h name p g → Unbound h name f g

theorem ordered_empty : Heap.empty.Ordered where
  parent_lt hp := by simp [parent?, empty] at hp
  captured_lt hc := by simp [empty] at hc

theorem Holds.follows {h : Heap} {f : Nat} (hf : h.Holds f) : h.Follows h :=
  ⟨hf.ordered, Nat.le_refl _⟩

theorem Follows.holds {h h' : Heap} (hh : h'.Follows h) {f : Nat} (hf : h.Holds f) : h'.Holds f :=
  ⟨hh.ordered, Nat.lt_of_lt_of_le hf.lt hh.size_le⟩

theorem Follows.trans {h h' h'' : Heap} (hh' : h''.Follows h') (hh : h'.Follows h) :
    h''.Follows h :=
  ⟨hh'.ordered, Nat.le_trans hh.size_le hh'.size_le⟩

/-! ### Chains -/

theorem chain_of_parent {h : Heap} (ho : h.Ordered) {f p : Nat} (hp : h.parent? f = some p) :
    h.chain f = f :: h.chain p := by
  rw [chain, hp]
  simp [ho.parent_lt hp]

theorem chain_of_global {h : Heap} {f : Nat} (hp : h.parent? f = none) : h.chain f = [f] := by
  rw [chain, hp]

/-- The parents alone decide the chains. -/
theorem chain_congr {h h' : Heap} (hp : ∀ g, h'.parent? g = h.parent? g) (f : Nat) :
    h'.chain f = h.chain f := by
  induction f using Nat.strongRecOn with
  | ind f ih =>
    rw [chain, chain, hp]
    split
    · split
      · next hlt => rw [ih _ hlt]
      · rfl
    · rfl

theorem exists_chain_eq_cons (h : Heap) (f : Nat) : ∃ outer, h.chain f = f :: outer := by
  rw [chain]
  split
  · split <;> exact ⟨_, rfl⟩
  · exact ⟨_, rfl⟩

theorem chain_ne_nil (h : Heap) (f : Nat) : h.chain f ≠ [] := by
  obtain ⟨outer, hc⟩ := exists_chain_eq_cons h f
  simp [hc]

theorem global_of_parent {h : Heap} (ho : h.Ordered) {f p : Nat} (hp : h.parent? f = some p) :
    h.global f = h.global p := by
  obtain ⟨g, rest, hc⟩ := List.exists_cons_of_ne_nil (chain_ne_nil h p)
  simp only [global, chain_of_parent ho hp, hc, List.getLastD_cons]

theorem global_of_global {h : Heap} {f : Nat} (hp : h.parent? f = none) : h.global f = f := by
  simp [global, chain_of_global hp]

theorem global_mem_chain (h : Heap) (f : Nat) : h.global f ∈ h.chain f := by
  rw [global, List.getLastD_eq_getLast?, List.getLast?_eq_some_getLast (chain_ne_nil h f)]
  exact List.getLast_mem (chain_ne_nil h f)

/-- A chain goes on from each of its frames as the chain of that frame. -/
theorem chain_eq_append {h : Heap} (ho : h.Ordered) {f g : Nat} (hg : g ∈ h.chain f) :
    h.chain f = (h.chain f).takeWhile (· ≠ g) ++ h.chain g := by
  induction f using Nat.strongRecOn with
  | ind f ih =>
    by_cases hfg : f = g
    · subst hfg
      obtain ⟨outer, hc⟩ := exists_chain_eq_cons h f
      simp [hc]
    · cases hp : h.parent? f with
      | none => simp [chain_of_global hp, Ne.symm hfg] at hg
      | some p =>
        rw [chain_of_parent ho hp] at hg ⊢
        have hmem : g ∈ h.chain p := by simpa [Ne.symm hfg] using hg
        rw [List.takeWhile_cons_of_pos (by simpa using hfg), List.cons_append,
          ← ih p (ho.parent_lt hp) hmem]

theorem owner?_eq_none_iff {h : Heap} {f : Nat} {x : String} :
    h.owner? f x = none ↔ ∀ k ∈ h.chain f, h.binds k x = false := by
  simp [owner?]

theorem owner?_of_binds {h : Heap} {f : Nat} {name : String} (hb : h.binds f name = true) :
    h.owner? f name = some f := by
  obtain ⟨outer, hc⟩ := exists_chain_eq_cons h f
  simp [owner?, hc, hb]

theorem owner?_of_parent {h : Heap} (ho : h.Ordered) {f p : Nat} {name : String}
    (hb : h.binds f name = false) (hp : h.parent? f = some p) :
    h.owner? f name = h.owner? p name := by
  simp [owner?, chain_of_parent ho hp, hb]

theorem owner?_of_global {h : Heap} {f : Nat} {name : String} (hb : h.binds f name = false)
    (hp : h.parent? f = none) : h.owner? f name = none := by
  simp [owner?, chain_of_global hp, hb]

theorem Nearest.owner? {h : Heap} (ho : h.Ordered) {name : String} {f g : Nat}
    (hn : h.Nearest name f g) : h.owner? f name = some g := by
  induction hn with
  | here hb => exact owner?_of_binds hb
  | outward hb hp _ ih => rw [owner?_of_parent ho hb hp, ih]

theorem Nearest.binds {h : Heap} {name : String} {f g : Nat} (hn : h.Nearest name f g) :
    h.binds g name = true := by
  induction hn with
  | here hb => exact hb
  | outward _ _ _ ih => exact ih

theorem Unbound.owner? {h : Heap} (ho : h.Ordered) {name : String} {f g : Nat}
    (hu : h.Unbound name f g) : h.owner? f name = none := by
  induction hu with
  | last hb hp => exact owner?_of_global hb hp
  | outward hb hp _ ih => rw [owner?_of_parent ho hb hp, ih]

theorem Unbound.global {h : Heap} (ho : h.Ordered) {name : String} {f g : Nat}
    (hu : h.Unbound name f g) : h.global f = g := by
  induction hu with
  | last _ hp => exact global_of_global hp
  | outward _ hp _ ih => rw [global_of_parent ho hp, ih]

/-- A walk outward either meets the name or ends without it. -/
theorem nearest_or_unbound {h : Heap} (ho : h.Ordered) (name : String) (f : Nat) :
    (∃ g, h.Nearest name f g) ∨ ∃ g, h.Unbound name f g := by
  induction f using Nat.strongRecOn with
  | ind f ih =>
    cases hb : h.binds f name with
    | true => exact .inl ⟨f, .here hb⟩
    | false =>
      cases hp : h.parent? f with
      | none => exact .inr ⟨f, .last hb hp⟩
      | some p =>
        rcases ih p (ho.parent_lt hp) with ⟨g, hn⟩ | ⟨g, hu⟩
        · exact .inl ⟨g, .outward hb hp hn⟩
        · exact .inr ⟨g, .outward hb hp hu⟩

/-- The owner of a name is the frame that a walk outward meets first. -/
theorem owner?_eq_some_iff {h : Heap} (ho : h.Ordered) {name : String} {f g : Nat} :
    h.owner? f name = some g ↔ h.Nearest name f g := by
  refine ⟨fun hg => ?_, fun hn => hn.owner? ho⟩
  rcases nearest_or_unbound ho name f with ⟨g', hn⟩ | ⟨g', hu⟩
  · rw [hn.owner? ho] at hg
    cases hg
    exact hn
  · rw [hu.owner? ho] at hg
    cases hg

/-! ### Changing a heap keeps it ordered -/

theorem get?_of_binds {h : Heap} {f : Nat} {name : String} (hb : h.binds f name = true) :
    ∃ v, h.get? f name = some v := by
  unfold binds at hb
  cases hf : h.frames[f]? with
  | none => simp [hf] at hb
  | some frame =>
    rw [hf, Option.any_some, ← Frame.get?_isSome] at hb
    obtain ⟨v, hv⟩ := Option.isSome_iff_exists.mp hb
    exact ⟨v, by simp [get?, hf, hv]⟩

@[simp] theorem size_frames_put (h : Heap) (f : Nat) (name : String) (v : Value) :
    (h.put f name v).frames.size = h.frames.size := by
  simp [put]

@[simp] theorem closures_put (h : Heap) (f : Nat) (name : String) (v : Value) :
    (h.put f name v).closures = h.closures := rfl

theorem frames_put (h : Heap) (f g : Nat) (name : String) (v : Value) :
    (h.put f name v).frames[g]? =
      if f = g then h.frames[g]?.map (·.put name v) else h.frames[g]? := by
  simp only [put, Array.getElem?_modify]

theorem binds_put (h : Heap) {f g : Nat} {name other : String} (v : Value)
    (hf : f < h.frames.size) :
    (h.put f name v).binds g other = ((f == g && other == name) || h.binds g other) := by
  simp only [binds, frames_put]
  by_cases hg : f = g
  · subst hg
    simp [Array.getElem?_eq_getElem hf, Frame.binds_put]
  · simp [hg]

@[simp] theorem parent?_put (h : Heap) (f g : Nat) (name : String) (v : Value) :
    (h.put f name v).parent? g = h.parent? g := by
  simp only [parent?, put, Array.getElem?_modify]
  split
  · cases h.frames[g]? <;> simp
  · rfl

theorem parent?_pushFrame (h : Heap) (p : Option Nat) (strict : Option Bool) (g : Nat) :
    (h.pushFrame p strict).parent? g = if g = h.frames.size then p else h.parent? g := by
  simp only [parent?, pushFrame, Array.getElem?_push]
  split <;> rfl

@[simp] theorem binds_pushFrame (h : Heap) (p : Option Nat) (strict : Option Bool) (g : Nat)
    (name : String) : (h.pushFrame p strict).binds g name = h.binds g name := by
  simp only [binds, pushFrame, Array.getElem?_push]
  split
  · simp [*, Frame.binds, Frame.names]
  · rfl

theorem Ordered.holds_captured {h : Heap} (ho : h.Ordered) {v : Value} {c : Closure}
    (hc : h.closure? v = some c) : h.Holds c.frame := by
  cases v with
  | closure id => exact ⟨ho, ho.captured_lt hc⟩
  | _ => cases hc

theorem Ordered.put_follows {h : Heap} (ho : h.Ordered) (f : Nat) (name : String) (v : Value) :
    (h.put f name v).Follows h where
  ordered.parent_lt hp := ho.parent_lt (by simpa using hp)
  ordered.captured_lt hc := by simpa using ho.captured_lt hc
  size_le := by simp

theorem Ordered.pushFrame_follows {h : Heap} (ho : h.Ordered) {parent : Option Nat}
    (hparent : ∀ p ∈ parent, p < h.frames.size) (strict : Option Bool) :
    (h.pushFrame parent strict).Follows h where
  ordered.parent_lt {f q} hq := by
    rw [parent?_pushFrame] at hq
    split at hq
    · next hf => exact hf ▸ hparent q hq
    · exact ho.parent_lt hq
  ordered.captured_lt hc := by
    have hlt := ho.captured_lt hc
    simp only [Heap.pushFrame, Array.size_push]
    omega
  size_le := by simp [Heap.pushFrame]

theorem Holds.pushFrame_follows {h : Heap} {p : Nat} (hp : h.Holds p) (strict : Option Bool) :
    (h.pushFrame (some p) strict).Follows h :=
  hp.ordered.pushFrame_follows (by simpa using hp.lt) strict

theorem Holds.pushClosure_follows {h : Heap} {f : Nat} (hf : h.Holds f) (params : List String)
    (body : Expr) : (h.pushClosure ⟨params, body, f⟩).Follows h where
  ordered.parent_lt hp := hf.ordered.parent_lt hp
  ordered.captured_lt {id d} hd := by
    simp only [Heap.pushClosure, Array.getElem?_push] at hd
    split at hd
    · cases hd
      exact hf.lt
    · exact hf.ordered.captured_lt hd
  size_le := Nat.le_refl _

end Heap

end Scriptlet
