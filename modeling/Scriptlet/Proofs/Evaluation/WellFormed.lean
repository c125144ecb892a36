import Scriptlet.Proofs.Evaluation.Invariant
import Scriptlet.Proofs.Heap.WellFormed

/-! Evaluation keeps heaps well formed, at every point and whether or not it fails, and every frame
that it makes hangs under another one. So a program that begins with one global frame never has
another. -/

namespace Scriptlet

open EvalM

namespace Heap

/-- Every frame from number `n` on hangs under another one. -/
def HangsFrom (h : Heap) (n : Nat) : Prop :=
  ∀ g, n ≤ g → g < h.frames.size → ∃ p, h.parent? g = some p

theorem Has.grow {h h' : Heap} (hh : h.Grows h') {v : Value} (hv : h.Has v) : h'.Has v :=
  fun id hid => Nat.lt_of_lt_of_le (hv id hid) hh.closures_size_le

theorem Hosts.grow {h h' : Heap} (hh : h.Grows h') {e : Expr} {f : Nat} (he : h.Hosts e f) :
    h'.Hosts e f :=
  ⟨Nat.lt_of_lt_of_le he.frame_lt hh.size_le,
    fun hid => Nat.lt_of_lt_of_le (he.embedded hid) hh.closures_size_le⟩

theorem HangsFrom.of_eq {h h' : Heap} {n : Nat} (hn : h.HangsFrom n)
    (hsize : h'.frames.size = h.frames.size) (hp : ∀ g, h'.parent? g = h.parent? g) :
    h'.HangsFrom n := by
  intro g hle hlt
  rw [hp]
  exact hn g hle (hsize ▸ hlt)

theorem HangsFrom.pushFrame {h : Heap} {n : Nat} (hn : h.HangsFrom n) (p : Nat)
    (strict : Option Bool) : (h.pushFrame (some p) strict).HangsFrom n := by
  intro g hle hlt
  rw [parent?_pushFrame]
  split
  case isTrue => exact ⟨p, rfl⟩
  case isFalse hne =>
    simp only [Heap.pushFrame, Array.size_push] at hlt
    exact hn g hle (by omega)

section OneGlobal

variable {h : Heap} (h0 : h.parent? 0 = none) (hn : h.HangsFrom 1)
include h0 hn

theorem parent?_eq_none_iff {g : Nat} (hg : g < h.frames.size) : h.parent? g = none ↔ g = 0 := by
  refine ⟨fun hp => ?_, fun hg0 => hg0 ▸ h0⟩
  refine Nat.eq_zero_of_not_pos fun hpos => ?_
  obtain ⟨p, hp'⟩ := hn g hpos hg
  simp [hp] at hp'

theorem global_eq_zero (ho : h.Ordered) {g : Nat} (hg : g < h.frames.size) : h.global g = 0 := by
  induction g using Nat.strongRecOn with
  | ind g ih =>
    cases hp : h.parent? g with
    | none => rw [global_of_global hp, (parent?_eq_none_iff h0 hn hg).mp hp]
    | some p =>
      have hlt := ho.parent_lt hp
      rw [global_of_parent ho hp, ih p hlt (by omega)]

end OneGlobal

end Heap

namespace Invariant

/-- The heap is well formed, and every frame from number `n` on hangs under another one. -/
def wellFormed (n : Nat) : Invariant where
  Stage := Heap
  le := Heap.Grows
  heaps w h := w = h ∧ h.WellFormed ∧ h.HangsFrom n
  values := Heap.Has
  codes := Heap.Hosts
  closures h c := h.Hosts c.body c.frame
  enters _ _ _ := True

variable {n : Nat}

theorem wellFormed_put {h : Heap} (hh : h.WellFormed) (hn : h.HangsFrom n) (f : Nat) (x : String)
    {v : Value} (hv : h.Has v) :
    ∃ w, h.Grows w ∧ (wellFormed n).heaps w (h.put f x v) :=
  ⟨_, .put h f x v, rfl, hh.put f x hv, hn.of_eq (by simp) (by simp)⟩

/-- Binding parameters in a new frame, be it all of them or only some. -/
theorem wellFormed_declares {h : Heap} (hh : h.WellFormed) (hn : h.HangsFrom n) {c : Closure}
    (hc : c.frame < h.frames.size) {vars : List (String × Value)}
    (hvars : ∀ var ∈ vars, h.Has var.2) {repeated : Option String} {h' : Heap}
    (hd : Heap.Declares h.frames.size vars (h.pushFrame (some c.frame) none) repeated h') :
    h'.WellFormed ∧ h'.HangsFrom n :=
  ⟨(hh.pushFrame (by simpa using hc) none).declares hvars hd,
    (hn.pushFrame c.frame none).of_eq hd.size_eq hd.parent?_eq⟩

theorem wellFormed_laws (n : Nat) : (wellFormed n).Laws where
  le_refl := .refl
  le_trans h h' := h.trans h'
  values_mono hw hv := hv.grow hw
  codes_mono hw he := he.grow hw
  closures_mono hw hc := hc.grow hw
  part he hp := he.part (Expr.ownParts_subset_parts _ hp)
  const {w p v f} he id hid := he.embedded ⟨p, by simp [Expr.all, hid]⟩
  plain hv id hid := absurd hid (hv id)
  closure := by
    rintro w _ v c ⟨rfl, hh, -⟩ - hc
    exact hh.hosts_of_closure? hc
  read := by
    rintro w _ p x f v ⟨rfl, hh, -⟩ - hv
    exact hh.has_of_resolve? hv
  declare := by
    rintro w _ p x e f v ⟨rfl, hh, hn⟩ - hv -
    exact wellFormed_put hh hn f x hv
  assign := by
    rintro w _ p x e f v ⟨rfl, hh, hn⟩ - hv
    exact wellFormed_put hh hn _ x hv
  func := by
    rintro w _ p xs b f ⟨rfl, hh, hn⟩ he
    have hbody : w.Hosts b f := he.part (by simp [Expr.parts])
    refine ⟨_, .pushClosure w ⟨xs, b, f⟩, ⟨rfl, hh.pushClosure hbody, hn⟩, ?_⟩
    rintro id ⟨⟩
    simp [Heap.pushClosure]
  enter := by
    rintro w c vs s repeated h' ⟨rfl, hh, hn⟩ hc hvs - - hd
    have hvars : ∀ var ∈ c.params.zip vs, s.heap.Has var.2 := fun var hvar =>
      hvs var.2 (List.of_mem_zip hvar).2
    have hgrows := (Heap.Grows.pushFrame s.heap (some c.frame) none).trans hd.grows
    refine ⟨h', hgrows, ⟨rfl, wellFormed_declares hh hn hc.frame_lt hvars hd⟩, fun _ => ?_⟩
    refine ⟨?_, fun hid => Nat.lt_of_lt_of_le (hc.embedded hid) hgrows.closures_size_le⟩
    rw [hd.size_eq]
    simp [Heap.pushFrame]

/-- Every state through which evaluation goes has a well-formed heap. -/
theorem wellFormed_passes {rounds depth : Nat} {root : Activation} {s : State}
    (hs : root.state.heap.WellFormed) (hn : root.state.heap.HangsFrom n)
    (he : root.state.heap.Hosts root.expr root.frame) (hp : Passes rounds depth root s) :
    s.heap.WellFormed ∧ s.heap.HangsFrom n ∧ root.state.heap.Grows s.heap := by
  have hI := wellFormed_laws n
  have hroot : (wellFormed n).heaps root.state.heap root.state.heap := ⟨rfl, hs, hn⟩
  have henters {d : Nat} {a : Activation} {c : Closure} {vs : List Value} {s : State}
    (_ : Within rounds depth root (d + 1) a) (_ : (evalWithin rounds d).Applies a c vs s) :
    (wellFormed n).enters c vs s := trivial
  cases hp with
  | start ha =>
    obtain ⟨w, hw, ⟨rfl, hh, hn⟩, -⟩ := hI.begins henters ha hroot he
    exact ⟨hh, hn, hw⟩
  | finish ha =>
    obtain ⟨w, hw, rfl, hh, hn⟩ := hI.ends henters hroot he ha
    exact ⟨hh, hn, hw⟩
  | @binding d a c vs s ha hc k =>
    obtain ⟨w, hw, ⟨rfl, hh, hn⟩, hclosure, hvalues⟩ := hI.about_to_call henters hroot he ha hc
    obtain ⟨repeated, h', hd⟩ := Heap.Declares.total s.heap.frames.size
      ((c.params.zip vs).take k) (s.heap.pushFrame (some c.frame) none)
    obtain ⟨notices, hrun⟩ :=
      hd.declareAll { s with heap := s.heap.pushFrame (some c.frame) none } rfl
    have hvars : ∀ var ∈ (c.params.zip vs).take k, s.heap.Has var.2 := fun var hvar =>
      hvalues var.2 (List.of_mem_zip (List.mem_of_mem_take hvar)).2
    have hgrows := hw.trans ((Heap.Grows.pushFrame s.heap (some c.frame) none).trans hd.grows)
    obtain ⟨hh', hn'⟩ := wellFormed_declares hh hn hclosure.frame_lt hvars hd
    rw [hrun]
    cases repeated <;> exact ⟨hh', hn', hgrows⟩

end Invariant

theorem wellFormed_fresh (strict : Bool) : (State.fresh strict).heap.WellFormed :=
  Heap.wellFormed_empty.pushFrame (by simp) (some strict)

/-- From a well-formed heap evaluation goes through well-formed heaps only, whatever limits it is
given and however it ends: in all of them the walk from a frame outward comes to its end at a
global frame, and all frames that were made since hang under others. A closure that evaluation
gives captured a frame that exists. A program without closures in it that runs in a new
environment has one global frame at all times, and that is the global frame of all frames. -/
theorem eval_wellFormed (limits : Limits) (e : Expr) (f : Nat) (s : State)
    (hs : s.heap.WellFormed) (he : s.heap.Hosts e f) :
    (∀ s', Passes limits.rounds limits.depth ⟨e, f, s⟩ s' →
      s'.heap.WellFormed ∧ (∀ g, s'.heap.Outward g (s'.heap.chain g)) ∧
      s.heap.Grows s'.heap ∧
      ∀ g, s.heap.frames.size ≤ g → g < s'.heap.frames.size → ∃ p, s'.heap.parent? g = some p) ∧
    (∀ id s', limits.eval e f s = .ok (.closure id) s' →
      ∃ c, s'.heap.closures[id]? = some c ∧ c.frame < s'.heap.frames.size) ∧
    ((∀ id, ¬ e.Embeds id) → ∀ strict,
      let root : Activation := ⟨e, 0, .fresh strict⟩
      limits.evalFresh strict e .empty = root.result limits.rounds limits.depth ∧
      ∀ s', Passes limits.rounds limits.depth root s' →
        0 < s'.heap.frames.size ∧ ∀ g < s'.heap.frames.size,
          (s'.heap.parent? g = none ↔ g = 0) ∧ s'.heap.global g = 0) := by
  have hn : s.heap.HangsFrom s.heap.frames.size := fun g hle hlt => absurd hlt (by omega)
  refine ⟨fun s' hs' => ?_, fun id s' hr => ?_, fun hnone strict => ?_⟩
  · obtain ⟨hh, hn', hgrows⟩ := Invariant.wellFormed_passes hs hn he hs'
    exact ⟨hh, hh.ordered.outward_chain, hgrows, hn'⟩
  · have hroot : Within limits.rounds limits.depth ⟨e, f, s⟩ limits.depth ⟨e, f, s⟩ := .root
    have hrun := (Invariant.wellFormed_laws s.heap.frames.size).eval (fun _ _ => trivial) hroot
      s.heap ⟨rfl, hs, hn⟩ he
    obtain ⟨w, -, ⟨rfl, hh, -⟩, hv⟩ := hrun.of_ok hr
    have hc := Array.getElem?_eq_getElem (hv id rfl)
    exact ⟨_, hc, hh.ordered.captured_lt hc⟩
  · refine ⟨limits.evalFresh_eq strict e, fun s' hs' => ?_⟩
    have hpos : 0 < (State.fresh strict).heap.frames.size := Nat.one_pos
    have hroot : (State.fresh strict).heap.HangsFrom 1 := fun g hle hlt =>
      absurd hlt (Nat.not_lt.mpr hle)
    obtain ⟨hh, hn', hgrows⟩ := Invariant.wellFormed_passes (wellFormed_fresh strict) hroot
      ⟨hpos, fun hid => absurd hid (hnone _)⟩ hs'
    have h0 : s'.heap.parent? 0 = none := hgrows.parent?_eq hpos
    exact ⟨Nat.lt_of_lt_of_le hpos hgrows.size_le, fun g hg =>
      ⟨Heap.parent?_eq_none_iff h0 hn' hg, Heap.global_eq_zero h0 hn' hh.ordered hg⟩⟩

/-- A closure that stands in the program as a constant is called; it had captured a frame in which
it is bound itself, and it gives a closure that captured the frame of the call. -/
theorem wellFormed_call_of_embedded :
    let body : Expr := .func none [] (.var none "x")
    let s : State := ⟨⟨#[⟨none, true, []⟩, ⟨some 0, true, [("f", .closure 0)]⟩],
      #[⟨["x"], body, 1⟩]⟩, #[], #[]⟩
    let e : Expr := .call none (.const none (.closure 0)) [.const none (.number 2)]
    s.heap.WellFormed ∧ s.heap.Hosts e 0 ∧
      (∀ limits : Limits, ∀ s', Passes limits.rounds limits.depth ⟨e, 0, s⟩ s' →
        s'.heap.WellFormed) ∧
      ∃ s', (⟨2, 0⟩ : Limits).eval e 0 s = .ok (.closure 1) s' ∧
        ∃ c, s'.heap.closures[1]? = some c ∧ c.frame < s'.heap.frames.size := by
  intro body s e
  have hs : s.heap.WellFormed := by
    constructor
    case nodup => rintro (_ | _ | f) frame ⟨⟩ <;> decide
    case toClosed =>
      refine ⟨⟨?_, ?_⟩, ?_, ?_⟩
      · rintro (_ | _ | f) p hp <;> simp [Heap.parent?, s] at hp
        omega
      · rintro (_ | id) c ⟨⟩
        decide
      · rintro (_ | _ | f) x id hx <;> simp [Heap.vars, s] at hx
        simp [s, hx]
      · rintro (_ | id) id' c ⟨⟩ ⟨pos, hpos⟩
        change Expr.const pos (.closure id') ∈ body.all at hpos
        simp [body, Expr.all] at hpos
  have he : s.heap.Hosts e 0 := by
    refine ⟨by decide, ?_⟩
    rintro id ⟨pos, hpos⟩
    simp [e, Expr.all, Expr.allOf] at hpos
    simp [s, hpos]
  refine ⟨hs, he, fun limits s' hs' => ((eval_wellFormed limits e 0 s hs he).1 s' hs').1, ?_⟩
  obtain ⟨s', hrun⟩ : ∃ s', (⟨2, 0⟩ : Limits).eval e 0 s = .ok (.closure 1) s' :=
    ⟨_, by with_unfolding_all rfl⟩
  exact ⟨s', hrun, (eval_wellFormed ⟨2, 0⟩ e 0 s hs he).2.1 1 s' hrun⟩

end Scriptlet
