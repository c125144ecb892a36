import Scriptlet.Proofs.Heap.Scope

/-! What becomes of names and values when a name is given a value in a frame. The frame binds
the name, in its old place or as the last one, and no other frame changes; so the name that was
assigned to is found where the assignment was made, with the value that it was given. -/

namespace Scriptlet

theorem lookup_replace (vars : List (String × Value)) (name other : String) (v : Value) :
    (vars.map fun var => if var.1 = name then (name, v) else var).lookup other =
      (vars.lookup other).map fun w => if other = name then v else w := by
  induction vars with
  | nil => rfl
  | cons var vars ih =>
    obtain ⟨x, w⟩ := var
    rw [List.map_cons, List.lookup_cons, List.lookup_cons, ih]
    by_cases hx : x = name
    · subst hx
      cases ho : other == x with
      | true => simp [eq_of_beq ho]
      | false => simp [ho]
    · cases ho : other == x with
      | true => simp [hx, eq_of_beq ho]
      | false => simp [ho, hx]

theorem Frame.get?_put (f : Frame) (name other : String) (v : Value) :
    (f.put name v).get? other = if other = name then some v else f.get? other := by
  have hisSome := f.get?_isSome name
  unfold put
  split
  case isTrue hb =>
    obtain ⟨w, hw⟩ := Option.isSome_iff_exists.mp (hisSome.trans hb)
    simp only [get?, lookup_replace] at hw ⊢
    by_cases ho : other = name
    · simp [ho, hw]
    · simp [ho]
  case isFalse hb =>
    have hw : f.get? name = none := by simpa [hb] using hisSome
    simp only [get?, List.lookup_append, List.lookup_cons, List.lookup_nil] at hw ⊢
    by_cases ho : other = name
    · simp [ho, hw]
    · simp [ho, beq_eq_false_iff_ne.mpr ho]

namespace Heap

/-- The names that a frame binds, in their order. -/
def names (h : Heap) (f : Nat) : List String := (h.vars f).map Prod.fst

theorem names_of_frame {h : Heap} {f : Nat} {frame : Frame} (hf : h.frames[f]? = some frame) :
    h.names f = frame.names := by
  simp [names, vars, hf, Frame.names]

theorem names_put_of_ne {h : Heap} {f g : Nat} (hg : f ≠ g) (x : String) (v : Value) :
    (h.put f x v).names g = h.names g := by
  rw [names, names, vars, vars, frames_put, if_neg hg]

theorem names_put_self {h : Heap} {f : Nat} {x : String} (hf : f < h.frames.size) (v : Value) :
    (h.put f x v).names f = if h.binds f x then h.names f else h.names f ++ [x] := by
  have hframe := Array.getElem?_eq_getElem hf
  have hput : (h.put f x v).frames[f]? = some (h.frames[f].put x v) := by simp [frames_put, hframe]
  rw [names_of_frame hput, names_of_frame hframe, Frame.names_put, binds, hframe]
  rfl

theorem lt_size_of_binds {h : Heap} {f : Nat} {x : String} (hb : h.binds f x = true) :
    f < h.frames.size := by
  refine Nat.lt_of_not_le fun hle => ?_
  simp [binds, Array.getElem?_eq_none hle] at hb

/-- A name that is bound already makes no other names. -/
theorem names_put_of_binds {h : Heap} {f : Nat} {x : String} (hb : h.binds f x = true) (v : Value)
    (g : Nat) : (h.put f x v).names g = h.names g := by
  by_cases hg : f = g
  · subst hg
    rw [names_put_self (lt_size_of_binds hb), if_pos hb]
  · exact names_put_of_ne hg x v

theorem get?_put {h : Heap} {f : Nat} (hf : f < h.frames.size) (g : Nat) (x y : String)
    (v : Value) :
    (h.put f x v).get? g y = if f = g ∧ y = x then some v else h.get? g y := by
  rw [get?, get?, frames_put]
  by_cases hg : f = g
  · subst hg
    simp [Array.getElem?_eq_getElem hf, Frame.get?_put]
  · simp [hg]

theorem binds_of_get? {h : Heap} {f : Nat} {x : String} {v : Value} (hv : h.get? f x = some v) :
    h.binds f x = true := by
  obtain ⟨frame, hf, hx⟩ := Option.bind_eq_some_iff.mp hv
  simp [binds, hf, ← Frame.get?_isSome, hx]

theorem resolve?_of_get? {h : Heap} {f : Nat} {x : String} {v : Value} (hv : h.get? f x = some v) :
    h.resolve? f x = some v := by
  rw [resolve?, owner?_of_binds (binds_of_get? hv), Option.bind_some, hv]

/-! ### What is seen from a frame -/

/-- A binding of the name in `g` is the one that counts in `f`: going outward from `f` one comes to
`g`, and no frame before it binds the name. -/
def Unshadowed (h : Heap) (x : String) (f g : Nat) : Prop :=
  g ∈ h.chain f ∧ ∀ k ∈ (h.chain f).takeWhile (· ≠ g), h.binds k x = false

instance (h : Heap) (x : String) (f g : Nat) : Decidable (h.Unshadowed x f g) :=
  inferInstanceAs (Decidable (_ ∧ _))

theorem find?_eq_some_iff_takeWhile {p : Nat → Bool} {l : List Nat} {g : Nat} :
    l.find? p = some g ↔ p g = true ∧ g ∈ l ∧ ∀ k ∈ l.takeWhile (· ≠ g), p k = false := by
  induction l with
  | nil => simp
  | cons k l ih =>
    by_cases hk : k = g
    · cases hp : p k <;> simp_all
    · cases hp : p k with
      | true => simp [hk, hp]
      | false => simp [hk, hp, ih, Ne.symm hk]

/-- One more number to look for is found unless another one is found before. -/
theorem find?_or_eq (p : Nat → Bool) (g : Nat) (l : List Nat) :
    (l.find? fun k => g == k || p k) =
      if g ∈ l ∧ ∀ k ∈ l.takeWhile (· ≠ g), p k = false then some g else l.find? p := by
  induction l with
  | nil => rfl
  | cons k l ih =>
    by_cases hk : k = g
    · simp [hk]
    · have hg : (g == k) = false := beq_eq_false_iff_ne.mpr (Ne.symm hk)
      cases hp : p k with
      | true => simp [hk, hp]
      | false => simp [hk, hp, ih, Ne.symm hk]

/-- The owner of a name is the frame that binds it and whose binding counts. -/
theorem owner?_eq_some_iff_unshadowed {h : Heap} {x : String} {f g : Nat} :
    h.owner? f x = some g ↔ h.binds g x = true ∧ h.Unshadowed x f g :=
  find?_eq_some_iff_takeWhile

section Put

variable {h : Heap} {g : Nat} (hg : g < h.frames.size) (f : Nat) (x y : String) (v : Value)
include hg

theorem owner?_put :
    (h.put g x v).owner? f y =
      if y = x ∧ h.Unshadowed x f g then some g else h.owner? f y := by
  have hchain : (h.put g x v).chain f = h.chain f := chain_congr (parent?_put h g · x v) f
  simp only [owner?, hchain, binds_put h v hg]
  by_cases hy : y = x
  · subst hy
    simpa [Unshadowed] using find?_or_eq (h.binds · y) g (h.chain f)
  · simp [hy, beq_eq_false_iff_ne.mpr hy]

/-- A name that is given a value has it wherever that binding counts. Seen from elsewhere it is what
it was, and so are all other names. -/
theorem resolve?_put :
    (h.put g x v).resolve? f y =
      if y = x ∧ h.Unshadowed x f g then some v else h.resolve? f y := by
  rw [resolve?, owner?_put hg]
  split
  case isTrue hseen => rw [Option.bind_some, get?_put hg, if_pos ⟨rfl, hseen.1⟩]
  case isFalse hseen =>
    rw [resolve?]
    cases hq : h.owner? f y with
    | none => rfl
    | some q =>
      rw [Option.bind_some, Option.bind_some, get?_put hg, if_neg]
      rintro ⟨rfl, rfl⟩
      exact hseen ⟨rfl, (owner?_eq_some_iff_unshadowed.mp hq).2⟩

end Put

/-! ### Assignments -/

theorem parent?_global {h : Heap} (ho : h.Ordered) (f : Nat) : h.parent? (h.global f) = none := by
  induction f using Nat.strongRecOn with
  | ind f ih =>
    cases hp : h.parent? f with
    | none => rw [global_of_global hp, hp]
    | some p => rw [global_of_parent ho hp, ih p (ho.parent_lt hp)]

theorem global_le {h : Heap} (ho : h.Ordered) (f : Nat) : h.global f ≤ f := by
  induction f using Nat.strongRecOn with
  | ind f ih =>
    cases hp : h.parent? f with
    | none => exact Nat.le_of_eq (global_of_global hp)
    | some p =>
      have hlt := ho.parent_lt hp
      rw [global_of_parent ho hp]
      exact Nat.le_trans (ih p hlt) (Nat.le_of_lt hlt)

/-- An assignment makes new names in global frames only. -/
theorem names_assign {h : Heap} (ho : h.Ordered) (f : Nat) (x : String) (v : Value) {g : Nat}
    (hg : h.parent? g ≠ none) : (h.assign f x v).names g = h.names g := by
  rw [assign]
  cases hq : h.owner? f x with
  | none =>
    refine names_put_of_ne (fun heq => hg ?_) x v
    rw [← heq, Option.getD_none, parent?_global ho]
  | some q => exact names_put_of_binds ((owner?_eq_some_iff ho).mp hq).binds v g

/-- The frame that an assignment is made in: the owner of the name, or else the global frame. -/
def target (h : Heap) (f : Nat) (x : String) : Nat := (h.owner? f x).getD (h.global f)

theorem Holds.target_lt {h : Heap} {f : Nat} (hf : h.Holds f) (x : String) :
    h.target f x < h.frames.size := by
  rw [target]
  cases hq : h.owner? f x with
  | none => exact Nat.lt_of_le_of_lt (global_le hf.ordered f) hf.lt
  | some q => exact lt_size_of_binds (owner?_eq_some_iff_unshadowed.mp hq).1

theorem binds_target (h : Heap) (f : Nat) (x : String) :
    h.binds (h.target f x) x = (h.owner? f x).isSome := by
  rw [target]
  cases hq : h.owner? f x with
  | some q => exact (owner?_eq_some_iff_unshadowed.mp hq).1
  | none => exact owner?_eq_none_iff.mp hq _ (global_mem_chain h f)

/-- In a global frame a binding that is not there would count where the name is unbound and the
frame is the global one. -/
theorem unshadowed_global_iff {h : Heap} (ho : h.Ordered) {f g : Nat} {x : String}
    (hp : h.parent? g = none) (hb : h.binds g x = false) :
    h.Unshadowed x f g ↔ h.owner? f x = none ∧ h.global f = g := by
  constructor
  · rintro ⟨hg, hbefore⟩
    have hchain := chain_eq_append ho hg
    rw [chain_of_global hp] at hchain
    refine ⟨owner?_eq_none_iff.mpr fun k hk => ?_, ?_⟩
    · rw [hchain, List.mem_append, List.mem_singleton] at hk
      rcases hk with hk | rfl
      · exact hbefore k hk
      · exact hb
    · rw [global, hchain, List.getLastD_concat]
  · rintro ⟨hnone, rfl⟩
    exact ⟨global_mem_chain h f, fun k hk =>
      owner?_eq_none_iff.mp hnone k (List.takeWhile_subset _ hk)⟩

/-- The binding that an assignment in `e` makes or changes counts in the frames that shared it, or
where the name was unbound below the same global frame. -/
theorem unshadowed_target_iff {h : Heap} (ho : h.Ordered) (e f : Nat) (x : String) :
    h.Unshadowed x f (h.target e x) ↔
      h.binds (h.target e x) x = true ∧ h.owner? f x = some (h.target e x) ∨
      h.binds (h.target e x) x = false ∧ h.owner? f x = none ∧ h.global f = h.global e := by
  have hbinds := binds_target h e x
  cases hq : h.owner? e x with
  | some q =>
    rw [hq] at hbinds
    simp [owner?_eq_some_iff_unshadowed, hbinds]
  | none =>
    have heq : h.target e x = h.global e := by rw [target, hq, Option.getD_none]
    rw [hq, heq] at hbinds
    rw [heq, unshadowed_global_iff ho (parent?_global ho e) hbinds]
    simp [hbinds]

/-- The name that was assigned to has the value that it was given. -/
theorem resolve?_assign {h : Heap} {f : Nat} (hf : h.Holds f) (x : String) (v : Value) :
    (h.assign f x v).resolve? f x = some v := by
  have hseen : h.Unshadowed x f (h.target f x) := by
    rw [unshadowed_target_iff hf.ordered, binds_target]
    cases hq : h.owner? f x <;> simp [target, hq]
  exact (resolve?_put (hf.target_lt x) f x x v).trans (if_pos ⟨rfl, hseen⟩)

end Heap

end Scriptlet
