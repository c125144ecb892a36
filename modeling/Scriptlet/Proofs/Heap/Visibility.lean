import Scriptlet.Proofs.Evaluation.Primitive
import Scriptlet.Proofs.Heap.Binding

/-! What a change of one frame does to what is seen from all frames. An assignment changes a name
where it is found, or else makes it in the global frame; a declaration makes it in the frame itself.
Main statements: which frames see the new value, and that nothing else is seen to change. -/

namespace Scriptlet

open EvalM

/-- An assignment in `e` never fails. If the name was bound, the frames for which the same binding
counted see the new value; if not, the frames below the same global frame in which the name was
unbound do. Seen from all others the name is what it was, and other names are so from everywhere.
No frame changes but the one that the assignment is made in, and `e` sees the new value. -/
theorem assign_seen {s : State} {e : Nat} (he : s.heap.Holds e) (x : String) (v : Value) :
    let o := (s.heap.owner? e x).getD (s.heap.global e)
    ∃ t, assign e x v s = .ok () t ∧
      (∀ f y, t.heap.resolve? f y =
        if y = x ∧ (s.heap.binds o x = true ∧ s.heap.owner? f x = some o ∨
          s.heap.binds o x = false ∧ s.heap.owner? f x = none ∧ s.heap.global f = s.heap.global e)
        then some v else s.heap.resolve? f y) ∧
      (∀ g, g ≠ o → t.heap.frames[g]? = s.heap.frames[g]?) ∧
      t.heap.resolve? e x = some v := by
  intro o
  refine ⟨_, assign_eq e x v s, fun f y => ?_, fun g hg => ?_, Heap.resolve?_assign he x v⟩
  · have hiff := Heap.unshadowed_target_iff he.ordered e f x
    have hput := Heap.resolve?_put (he.target_lt x) f x y v
    simp only [hiff] at hput
    exact hput
  · exact (Heap.frames_put s.heap o g x v).trans (if_neg (Ne.symm hg))

/-- A forest of two trees. In the first, `x` is bound in the root and again in a frame below its
first child. From that child the root's `x` is assigned to, which the other child sees too, but not
the frame below that has its own; a name that is bound nowhere becomes one of the root. The root of
the other tree sees neither. -/
theorem assignments_seen_in_forest :
    let s : State := ⟨⟨#[⟨none, true, [("x", .number 1)]⟩, ⟨some 0, true, []⟩,
      ⟨some 1, true, [("x", .number 2)]⟩, ⟨some 0, true, []⟩, ⟨none, true, []⟩], #[]⟩, #[], #[]⟩
    s.heap.Holds 1 ∧
      (∃ t, assign 1 "x" .null s = .ok () t ∧ t.heap.resolve? 1 "x" = some .null ∧
        t.heap.resolve? 2 "x" = some (.number 2) ∧ t.heap.resolve? 3 "x" = some .null ∧
        t.heap.resolve? 4 "x" = none) ∧
      ∃ t, assign 1 "y" .null s = .ok () t ∧ t.heap.resolve? 1 "y" = some .null ∧
        t.heap.resolve? 2 "y" = some .null ∧ t.heap.resolve? 3 "x" = some (.number 1) ∧
        t.heap.resolve? 4 "y" = none := by
  intro s
  have he : s.heap.Holds 1 := by
    refine ⟨⟨?_, by simp [s]⟩, by decide⟩
    rintro (_ | _ | _ | _ | _ | f) p hp <;> simp [Heap.parent?, s] at hp <;> omega
  obtain ⟨t, ht, hseen, -, hx⟩ := assign_seen he "x" .null
  obtain ⟨u, hu, hseen', -, hy⟩ := assign_seen he "y" .null
  exact ⟨he, ⟨t, ht, hx, (hseen 2 "x").trans (by decide +kernel),
    (hseen 3 "x").trans (by decide +kernel), (hseen 4 "x").trans (by decide +kernel)⟩,
    u, hu, hy, (hseen' 2 "y").trans (by decide +kernel), (hseen' 3 "x").trans (by decide +kernel),
    (hseen' 4 "y").trans (by decide +kernel)⟩

/-- A declaration in `e` fails if and only if `e` itself binds the name, and then nothing changes.
Otherwise the name becomes the last one of `e`, and no other frame changes. It has the new value
seen from the frames that come to `e` outward and meet no binding of it before. Seen from all others
it is what it was, and other names are so from everywhere. -/
theorem declare_seen {s : State} {e : Nat} (he : e < s.heap.frames.size) (x : String) (v : Value) :
    (∀ fault t, declare e x v s = .error fault t ↔
      s.heap.binds e x = true ∧ fault = .ofCause (.duplicateDeclaration x) ∧ t = s) ∧
    (s.heap.binds e x = false → ∃ t, declare e x v s = .ok () t ∧
      (∃ frame, s.heap.frames[e]? = some frame ∧
        t.heap.frames[e]? = some { frame with vars := frame.vars ++ [(x, v)] }) ∧
      (∀ g, g ≠ e → t.heap.frames[g]? = s.heap.frames[g]?) ∧
      ∀ f y, t.heap.resolve? f y =
        if y = x ∧ s.heap.Unshadowed x f e then some v else s.heap.resolve? f y) := by
  have hrun := declare_eq e x v s
  refine ⟨fun fault t => ?_, fun hb => ?_⟩
  · cases hb : s.heap.binds e x with
    | true => simp [hrun, hb, Fault.ofCause, eq_comm]
    | false => simp [hrun, hb]
  · rw [if_neg (by simp [hb])] at hrun
    refine ⟨_, hrun, ⟨s.heap.frames[e], Array.getElem?_eq_getElem he, ?_⟩, fun g hg => ?_,
      fun f y => Heap.resolve?_put he f x y v⟩
    · have hframe : s.heap.frames[e].binds x = false := by
        simpa [Heap.binds, Array.getElem?_eq_getElem he] using hb
      simp [Heap.frames_put, Array.getElem?_eq_getElem he, Frame.put, hframe]
    · exact (Heap.frames_put s.heap e g x v).trans (if_neg (Ne.symm hg))

/-- A frame between others declares `x`, which is bound in the root and in one of the frames below.
The other frame below sees the new `x`; the frame with its own, the root, and what is beside see
what they did. Where `x` is bound already it cannot be declared. -/
theorem declaration_seen_below :
    let s : State := ⟨⟨#[⟨none, true, [("x", .number 1)]⟩, ⟨some 0, true, [("y", .null)]⟩,
      ⟨some 1, true, [("x", .number 2)]⟩, ⟨some 1, true, []⟩, ⟨some 0, true, []⟩], #[]⟩, #[], #[]⟩
    1 < s.heap.frames.size ∧ 2 < s.heap.frames.size ∧
      (∃ t, declare 1 "x" .null s = .ok () t ∧
        t.heap.frames[1]? = some ⟨some 0, true, [("y", .null), ("x", .null)]⟩ ∧
        t.heap.resolve? 0 "x" = some (.number 1) ∧ t.heap.resolve? 1 "x" = some .null ∧
        t.heap.resolve? 2 "x" = some (.number 2) ∧ t.heap.resolve? 3 "x" = some .null ∧
        t.heap.resolve? 4 "x" = some (.number 1)) ∧
      declare 2 "x" .null s = .error (.ofCause (.duplicateDeclaration "x")) s := by
  intro s
  have h₁ : 1 < s.heap.frames.size := by decide
  have h₂ : 2 < s.heap.frames.size := by decide
  obtain ⟨t, ht, ⟨frame, hframe, hlast⟩, -, hseen⟩ := (declare_seen h₁ "x" .null).2 (by decide)
  cases hframe
  exact ⟨h₁, h₂, ⟨t, ht, hlast, (hseen 0 "x").trans (by decide +kernel),
    (hseen 1 "x").trans (by decide +kernel), (hseen 2 "x").trans (by decide +kernel),
    (hseen 3 "x").trans (by decide +kernel), (hseen 4 "x").trans (by decide +kernel)⟩,
    ((declare_seen h₂ "x" .null).1 _ _).mpr ⟨by decide, rfl, rfl⟩⟩

end Scriptlet
