import Scriptlet.Proofs.Heap.Binding
import Scriptlet.Proofs.Heap.WellFormed
import Scriptlet.Proofs.Strictness.Policy

/-! In which frames a call can make names. Its code runs in the frame that it was given and in
frames that it makes, so it declares names there only; a name that it assigns to is bound already,
or becomes one of a global frame. Main statement: the frames that were there before a call only
grow, and only the frame of the call and global frames grow at all. -/

namespace Scriptlet

open EvalM Evaluator

/-- What may become of a heap whose frames below `n` were there before a call on the frame
`root`. -/
structure Heap.Confined (n root : Nat) (h h' : Heap) : Prop where
  grows : h.Grows h'
  names {g p} : g < n → g ≠ root → h.parent? g = some p → h'.names g = h.names g

namespace Heap.Confined

variable {n root : Nat} {h h' h'' : Heap}

theorem refl (h : Heap) : Confined n root h h := ⟨.refl h, fun _ _ _ => rfl⟩

theorem trans (hh : Confined n root h h') (hh' : Confined n root h' h'') :
    Confined n root h h'' where
  grows := hh.grows.trans hh'.grows
  names {g p} hg hne hp := by
    have hp' : h'.parent? g = some p := by rw [hh.grows.parent?_eq (lt_size_of_parent hp), hp]
    rw [hh'.names hg hne hp', hh.names hg hne hp]

theorem put {f : Nat} (hf : f = root ∨ n ≤ f) (x : String) (v : Value) :
    Confined n root h (h.put f x v) where
  grows := .put h f x v
  names hg hne _ := names_put_of_ne (by omega) x v

theorem assign (ho : h.Ordered) (f : Nat) (x : String) (v : Value) :
    Confined n root h (h.assign f x v) where
  grows := .put h _ x v
  names _ _ hp := names_assign ho f x v (by simp [hp])

/-- A call makes a frame, and binds its parameters there. -/
theorem enter (hn : n ≤ h.frames.size) {p : Nat} {vars : List (String × Value)}
    {repeated : Option String}
    (hd : Declares h.frames.size vars (h.pushFrame (some p) none) repeated h') :
    Confined n root h h' where
  grows := (Grows.pushFrame h (some p) none).trans hd.grows
  names {g _} hg _ _ := by
    have hframe : h'.frames[g]? = h.frames[g]? := by
      rw [hd.frames_of_ne (by omega), pushFrame, Array.getElem?_push, if_neg (by omega)]
    rw [Heap.names, Heap.names, Heap.vars, Heap.vars, hframe]

end Heap.Confined

/-- Code runs in the frame of the call and in frames that were made since. -/
def Invariant.confined (n root : Nat) : Invariant where
  Stage := Heap
  le := Heap.Confined n root
  heaps w h := w = h ∧ h.Ordered ∧ n ≤ h.frames.size
  values _ _ := True
  codes h _ f := f < h.frames.size ∧ (f = root ∨ n ≤ f)
  closures h c := c.frame < h.frames.size
  enters _ _ _ := True

theorem Invariant.confined_laws (n root : Nat) : (confined n root).Laws where
  le_refl := .refl
  le_trans h h' := h.trans h'
  values_mono _ _ := trivial
  codes_mono hw he := ⟨Nat.lt_of_lt_of_le he.1 hw.grows.size_le, he.2⟩
  closures_mono hw hc := Nat.lt_of_lt_of_le hc hw.grows.size_le
  part he _ := he
  const _ := trivial
  plain _ := trivial
  closure := by
    rintro w _ v c ⟨rfl, ho, -⟩ - hc
    exact (ho.holds_captured hc).lt
  read _ _ _ := trivial
  declare := by
    rintro w _ p x e f v ⟨rfl, ho, hn⟩ he - -
    obtain ⟨hordered, hsize⟩ := ho.put_follows f x v
    exact ⟨_, .put he.2 x v, rfl, hordered, Nat.le_trans hn hsize⟩
  assign := by
    rintro w _ p x e f v ⟨rfl, ho, hn⟩ - -
    obtain ⟨hordered, hsize⟩ := ho.put_follows ((Heap.owner? w f x).getD (Heap.global w f)) x v
    exact ⟨_, .assign ho f x v, rfl, hordered, Nat.le_trans hn hsize⟩
  func := by
    rintro w _ p xs b f ⟨rfl, ho, hn⟩ he
    have hordered := ((⟨ho, he.1⟩ : w.Holds f).pushClosure_follows xs b).ordered
    exact ⟨_, ⟨.pushClosure w ⟨xs, b, f⟩, fun _ _ _ => rfl⟩, ⟨rfl, hordered, hn⟩, trivial⟩
  enter := by
    rintro w c vs s repeated h' ⟨rfl, ho, hn⟩ hc - - - hd
    obtain ⟨hfollows, hnew⟩ := hd.follows_call ⟨ho, hc⟩
    exact ⟨h', .enter hn hd, ⟨rfl, hfollows.ordered, Nat.le_trans hn hfollows.size_le⟩,
      fun _ => ⟨hnew.lt, .inr hn⟩⟩

/-- From where a call begins to where it ends, before its frame has its own policy again. -/
theorem Limits.confined_call (limits : Limits) (strict : Option Bool) (e : Expr) {f : Nat}
    {s : State} (hf : s.heap.Holds f) :
    Heap.Confined s.heap.frames.size f (s.heap.override f strict)
      (finalState ((Activation.ofCall f strict e s).result limits.rounds limits.depth)).heap := by
  have hroot : Within limits.rounds limits.depth (.ofCall f strict e s) limits.depth
      (.ofCall f strict e s) := .root
  have hsize : (s.heap.override f strict).frames.size = s.heap.frames.size := by simp
  obtain ⟨h', hconfined, rfl, -⟩ := (Invariant.confined_laws s.heap.frames.size f).ends
    (fun _ _ => trivial) ⟨rfl, hf.ordered.override f strict, Nat.le_of_eq hsize.symm⟩
    ⟨Nat.lt_of_lt_of_eq hf.lt hsize.symm, .inl rfl⟩ hroot
  exact hconfined

/-- The frames that are there when a call on one of them begins are there when it is over, whether
it gives a value or fails, and why ever it fails. Each hangs where it hung and is as strict as it
was; it binds the names that it bound, in their order, and after them maybe others. But a frame that
is neither that of the call nor global binds no others. -/
theorem evalIn_frames (limits : Limits) (strict : Option Bool) (e : Expr) {f : Nat} {s : State}
    (hf : s.heap.Holds f) {g : Nat} {frame : Frame} (hg : s.heap.frames[g]? = some frame) :
    ∃ frame', (finalState (limits.evalIn f strict e s)).heap.frames[g]? = some frame' ∧
      frame'.parent = frame.parent ∧ frame'.strict = frame.strict ∧
      frame.names <+: frame'.names ∧
      (g ≠ f → frame.parent ≠ none → frame'.names = frame.names) := by
  have hlt : g < s.heap.frames.size := (Array.getElem?_eq_some_iff.mp hg).1
  -- the frame as the call finds it, as the call leaves it, and with its own policy again
  obtain ⟨b, hfound⟩ := Heap.frames_override f strict hg
  have hcall := limits.confined_call strict e hf
  obtain ⟨left, hleft, hgrown⟩ := hcall.grows.frames hfound
  obtain ⟨b', hafter⟩ := Heap.frames_override f (strict.map fun _ => s.heap.strict f) hleft
  change (State.override _ _ _).heap.frames[g]? = _ at hafter
  rw [← limits.finalState_evalIn] at hafter
  refine ⟨_, hafter, hgrown.parent, ?_, hgrown.names, fun hne hparent => ?_⟩
  · obtain ⟨-, hstrict, -⟩ := limits.strict_evalIn strict e hf.ordered hf.lt
    simpa [Heap.strict, hafter, hg] using hstrict g hlt
  · obtain ⟨p, hp⟩ := Option.ne_none_iff_exists'.mp hparent
    have hnames := hcall.names hlt hne (p := p) (by simpa [Heap.parent?, hfound] using hp)
    rwa [Heap.names_of_frame hleft, Heap.names_of_frame hfound] at hnames

/-- A lax call on a strict frame calls a function that captured another one. It assigns to a name of
that frame and to one that is bound nowhere, and what it gives is declared; then it is called again
where that nests too deep. The frame of the call and the global frame have new names, but the
captured frame has none, though its name has a new value. -/
theorem failed_call_makes_names :
    let body : Expr := .assign none "z" (.assign none "y" (.const none .null))
    let s : State := ⟨⟨#[⟨none, true, [("x", .null)]⟩, ⟨some 0, true, []⟩,
      ⟨some 0, false, [("y", .bool true)]⟩], #[⟨[], body, 2⟩]⟩, #[], #[]⟩
    let call : Expr := .call none (.const none (.closure 0)) []
    let e : Expr := .seq none (.declare none "w" call) (.print none (.declare none "v" call))
    let run := (⟨6, 0⟩ : Limits).evalIn 1 (some false) e
    let h := (finalState (run s)).heap
    s.heap.Holds 1 ∧ run.run' s = none ∧ h.names 0 = ["x", "z"] ∧ h.names 1 = ["w"] ∧
      ∃ frame, h.frames[2]? = some frame ∧ frame.parent = some 0 ∧
        frame.strict = false ∧ frame.names = ["y"] ∧ frame.get? "y" = some .null := by
  intro body s call e run h
  have hf : s.heap.Holds 1 := by
    refine ⟨⟨?_, ?_⟩, by decide⟩
    · rintro (_ | _ | _ | f) p hp <;> simp [Heap.parent?, s] at hp <;> omega
    · rintro (_ | id) c ⟨⟩
      decide
  refine ⟨hf, by decide +kernel, by decide +kernel, by decide +kernel, ?_⟩
  obtain ⟨frame, hframe, hparent, hstrict, -, hnames⟩ :=
    evalIn_frames ⟨6, 0⟩ (some false) e hf (g := 2) rfl
  have hy : h.get? 2 "y" = some .null := by decide +kernel
  rw [Heap.get?, hframe] at hy
  exact ⟨frame, hframe, hparent, hstrict, hnames (by decide) (Option.some_ne_none 0), hy⟩

end Scriptlet
