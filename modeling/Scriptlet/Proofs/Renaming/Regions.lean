import Scriptlet.Proofs.Heap.Scope
import Scriptlet.Proofs.Renaming.Names

/-! Two heaps that differ by a renaming. The frames fall into regions: those inside of the renamed
function bind the new name where the others bind the old one. A walk outward from an inner frame
meets the old name before it leaves the function, and so finds the same frame in both heaps. -/

namespace Scriptlet

/-- Where a frame belongs. A frame inside of the function is `unsettled` until its parameters are
bound; no frame hangs under one, and no closure captured one. -/
inductive Region where
  | outside
  | inside
  | unsettled
deriving DecidableEq

namespace Region

/-- Regions of the frames that exist stay as they are once they are settled. -/
def Grows (w w' : List Region) : Prop :=
  ∀ {f : Nat} {r : Region}, w[f]? = some r → r ≠ .unsettled → w'[f]? = some r

theorem grows_refl (w : List Region) : Grows w w :=
  fun hr _ => hr

theorem Grows.trans {w w' w'' : List Region} (h : Grows w w') (h' : Grows w' w'') : Grows w w'' :=
  fun hr hs => h' (h hr hs) hs

theorem grows_append (w : List Region) (r : Region) : Grows w (w ++ [r]) := by
  intro f q hq _
  obtain ⟨hlt, -⟩ := List.getElem?_eq_some_iff.mp hq
  rw [List.getElem?_append_left hlt, hq]

/-- The frames of a list of regions with one more at its end. -/
theorem of_append {w : List Region} {f : Nat} {q r : Region} (hq : (w ++ [r])[f]? = some q) :
    w[f]? = some q ∨ f = w.length ∧ q = r := by
  rw [List.getElem?_append] at hq
  split at hq
  · exact .inl hq
  · obtain ⟨hlt, hq⟩ := List.getElem?_eq_some_iff.mp hq
    simp only [List.length_cons, List.length_nil] at hlt
    exact .inr ⟨by omega, by simpa using hq.symm⟩

end Region

namespace Renaming

variable (ρ : Renaming)

def nameIn : Region → String → String
  | .outside => id
  | .inside | .unsettled => ρ.name

def frameIn : Region → Frame → Frame
  | .outside => id
  | .inside | .unsettled => ρ.frame

/-- An expression outside of the function is the same on both sides, or it has the function in it;
one inside is renamed all through. -/
def CodesIn (w : List Region) (e : Expr) (f : Nat) (e' : Expr) (f' : Nat) : Prop :=
  f' = f ∧ ρ.new ∉ e.names ∧
    (w[f]? = some .outside ∧ (e' = e ∨ ρ.OfParameter e e') ∨
      w[f]? = some .inside ∧ e' = ρ.expr e)

/-- Closures made by expressions that belong together. -/
def ClosuresIn (w : List Region) (c c' : Closure) : Prop :=
  ρ.CodesIn w (.func none c.params c.body) c.frame (.func none c'.params c'.body) c'.frame

/-- What holds between the heaps. Under an outer frame are only outer ones, and the old name is
bound in every inner frame under an outer one. -/
structure Heaps (w : List Region) (h k : Heap) : Prop where
  ordered : h.Ordered
  length : w.length = h.frames.size
  size : k.frames.size = h.frames.size
  frames {f : Nat} {r : Region} : w[f]? = some r → k.frames[f]? = h.frames[f]?.map (ρ.frameIn r)
  fresh (f : Nat) : h.binds f ρ.new = false
  outer {f p : Nat} : w[f]? = some .outside → h.parent? f = some p → w[p]? = some .outside
  inner {f : Nat} : w[f]? = some .inside → ∃ p, h.parent? f = some p ∧
    (w[p]? = some .inside ∨ w[p]? = some .outside ∧ h.binds f ρ.old = true)
  closures (id : Nat) : Option.Rel (ρ.ClosuresIn w) h.closures[id]? k.closures[id]?

variable {ρ} {w w' : List Region} {h k : Heap}

theorem CodesIn.mono (hw : Region.Grows w w') {e e' : Expr} {f f' : Nat}
    (hc : ρ.CodesIn w e f e' f') : ρ.CodesIn w' e f e' f' := by
  obtain ⟨hf, hn, ⟨hr, he⟩ | ⟨hr, he⟩⟩ := hc
  · exact ⟨hf, hn, .inl ⟨hw hr (by simp), he⟩⟩
  · exact ⟨hf, hn, .inr ⟨hw hr (by simp), he⟩⟩

namespace Heaps

/-- A region is known for every frame. -/
theorem region (hh : ρ.Heaps w h k) {f : Nat} {frame : Frame} (hf : h.frames[f]? = some frame) :
    ∃ r, w[f]? = some r := by
  obtain ⟨hlt, -⟩ := Array.getElem?_eq_some_iff.mp hf
  exact ⟨_, List.getElem?_eq_getElem (hh.length ▸ hlt)⟩

theorem binds_new_frame (hh : ρ.Heaps w h k) {f : Nat} {frame : Frame}
    (hf : h.frames[f]? = some frame) : frame.binds ρ.new = false := by
  simpa [Heap.binds, hf] using hh.fresh f

theorem parent?_eq (hh : ρ.Heaps w h k) (f : Nat) : k.parent? f = h.parent? f := by
  cases hf : h.frames[f]? with
  | none =>
    have hk : k.frames[f]? = none := by simpa [hh.size] using hf
    simp [Heap.parent?, hf, hk]
  | some frame =>
    obtain ⟨r, hr⟩ := hh.region hf
    have hk := hh.frames hr
    cases r <;> simp [Heap.parent?, hf, hk, frameIn, Renaming.frame]

theorem strict_eq (hh : ρ.Heaps w h k) (f : Nat) : k.strict f = h.strict f := by
  cases hf : h.frames[f]? with
  | none =>
    have hk : k.frames[f]? = none := by simpa [hh.size] using hf
    simp [Heap.strict, hf, hk]
  | some frame =>
    obtain ⟨r, hr⟩ := hh.region hf
    have hk := hh.frames hr
    cases r <;> simp [Heap.strict, hf, hk, frameIn, Renaming.frame]

theorem ordered_right (hh : ρ.Heaps w h k) : k.Ordered where
  parent_lt hp := hh.ordered.parent_lt (hh.parent?_eq _ ▸ hp)
  captured_lt {id c'} hc' := by
    have hrel := hh.closures id
    cases hc : h.closures[id]? with
    | none => simp [hc, hc'] at hrel
    | some c =>
      rw [hc, hc', Option.rel_some_some] at hrel
      rw [hrel.1, hh.size]
      exact hh.ordered.captured_lt hc

theorem binds_eq (hh : ρ.Heaps w h k) {f : Nat} {r : Region} (hr : w[f]? = some r) {x : String}
    (hx : x ≠ ρ.new) : k.binds f (ρ.nameIn r x) = h.binds f x := by
  cases hf : h.frames[f]? with
  | none => simp [Heap.binds, hf, hh.frames hr]
  | some frame =>
    have hb := ρ.binds_frame (hh.binds_new_frame hf) hx
    cases r <;> simp [Heap.binds, hf, hh.frames hr, frameIn, nameIn, hb]

theorem get?_eq (hh : ρ.Heaps w h k) {f : Nat} {r : Region} (hr : w[f]? = some r) {x : String}
    (hx : x ≠ ρ.new) : k.get? f (ρ.nameIn r x) = h.get? f x := by
  cases hf : h.frames[f]? with
  | none => simp [Heap.get?, hf, hh.frames hr]
  | some frame =>
    have hg := ρ.get?_frame (hh.binds_new_frame hf) hx
    cases r <;> simp [Heap.get?, hf, hh.frames hr, frameIn, nameIn, hg]

theorem closures_size (hh : ρ.Heaps w h k) : k.closures.size = h.closures.size := by
  have hl := hh.closures k.closures.size
  have hr := hh.closures h.closures.size
  have hl' : h.closures.size ≤ k.closures.size := by
    cases hc : h.closures[k.closures.size]? <;> simp_all
  have hr' : k.closures.size ≤ h.closures.size := by
    cases hc : k.closures[h.closures.size]? <;> simp_all
  omega

end Heaps

/-! ### Going outward -/

/-- How both heaps are searched for a name from one frame: they find it in the same frame and in
the form that it has there, or nowhere and in one form only. -/
inductive Lookup (ρ : Renaming) (w : List Region) (h k : Heap) (x x' : String) (f : Nat) :
    Prop where
  | found {g r} (hh : h.Nearest x f g) (hk : k.Nearest x' f g) (hr : w[g]? = some r)
      (hx : ρ.nameIn r x = x')
  | unbound {g} (hh : h.Unbound x f g) (hk : k.Unbound x' f g) (hr : w[g]? = some .outside)
      (hx : x = x')

theorem Lookup.outward {x x' : String} {f p : Nat} (hl : ρ.Lookup w h k x x' p)
    (hb : h.binds f x = false) (hbk : k.binds f x' = false) (hp : h.parent? f = some p)
    (hpk : k.parent? f = some p) : ρ.Lookup w h k x x' f := by
  cases hl with
  | found hn hnk hr hx => exact .found (.outward hb hp hn) (.outward hbk hpk hnk) hr hx
  | unbound hu huk hr hx => exact .unbound (.outward hb hp hu) (.outward hbk hpk huk) hr hx

namespace Heaps

theorem lookup (hh : ρ.Heaps w h k) {x : String} (hx : x ≠ ρ.new) {f : Nat} {r : Region}
    (hr : w[f]? = some r) (hs : r ≠ .unsettled) : ρ.Lookup w h k x (ρ.nameIn r x) f := by
  induction f using Nat.strongRecOn generalizing r with
  | ind f ih =>
    have hbinds := hh.binds_eq hr hx
    have hparent := hh.parent?_eq f
    cases hb : h.binds f x with
    | true => exact .found (.here hb) (.here (hbinds.trans hb)) hr rfl
    | false =>
      rw [hb] at hbinds
      cases r with
      | unsettled => exact absurd rfl hs
      | outside =>
        cases hp : h.parent? f with
        | none => exact .unbound (.last hb hp) (.last hbinds (hparent.trans hp)) hr rfl
        | some p =>
          have hnext := ih p (hh.ordered.parent_lt hp) (hh.outer hr hp) (by simp)
          exact hnext.outward hb hbinds hp (hparent.trans hp)
      | inside =>
        obtain ⟨p, hp, hq | ⟨hq, hold⟩⟩ := hh.inner hr
        · have hnext := ih p (hh.ordered.parent_lt hp) hq (by simp)
          exact hnext.outward hb hbinds hp (hparent.trans hp)
        · -- the frame binds the old name, so the search is for another one
          have hname : ρ.nameIn .inside x = ρ.nameIn .outside x := by
            have hne : x ≠ ρ.old := by
              rintro rfl
              simp [hold] at hb
            simp [nameIn, name, hne]
          have hnext := ih p (hh.ordered.parent_lt hp) hq (by simp)
          rw [← hname] at hnext
          exact hnext.outward hb hbinds hp (hparent.trans hp)

theorem resolve?_eq (hh : ρ.Heaps w h k) {x : String} (hx : x ≠ ρ.new) {f : Nat} {r : Region}
    (hr : w[f]? = some r) (hs : r ≠ .unsettled) :
    k.resolve? f (ρ.nameIn r x) = h.resolve? f x := by
  unfold Heap.resolve?
  cases hh.lookup hx hr hs with
  | @found g q hn hnk hq hname =>
    rw [hn.owner? hh.ordered, hnk.owner? hh.ordered_right, ← hname]
    exact hh.get?_eq hq hx
  | unbound hu huk _ _ =>
    rw [hu.owner? hh.ordered, huk.owner? hh.ordered_right]
    rfl

/-- A name that is nowhere to be found has one form only. -/
theorem nameIn_eq_of_unbound (hh : ρ.Heaps w h k) {x : String} (hx : x ≠ ρ.new) {f : Nat}
    {r : Region} (hr : w[f]? = some r) (hs : r ≠ .unsettled) (hn : h.resolve? f x = none) :
    ρ.nameIn r x = x := by
  cases hh.lookup hx hr hs with
  | found hnear _ _ _ =>
    obtain ⟨v, hv⟩ := Heap.get?_of_binds hnear.binds
    simp [Heap.resolve?, hnear.owner? hh.ordered, hv] at hn
  | unbound _ _ _ hname => exact hname.symm

/-! ### Changing both heaps -/

theorem put (hh : ρ.Heaps w h k) {f : Nat} {r : Region} (hr : w[f]? = some r) {x : String}
    (hx : x ≠ ρ.new) (v : Value) : ρ.Heaps w (h.put f x v) (k.put f (ρ.nameIn r x) v) := by
  have hlt : f < h.frames.size := hh.length ▸ (List.getElem?_eq_some_iff.mp hr).1
  constructor
  case ordered => exact (hh.ordered.put_follows f x v).ordered
  case length => simp [hh.length]
  case size => simp [hh.size]
  case closures => exact hh.closures
  case fresh =>
    intro g
    rw [Heap.binds_put h v hlt, hh.fresh g]
    simp [hx.symm]
  case outer =>
    intro g p hg hp
    exact hh.outer hg (by simpa using hp)
  case inner =>
    intro g hg
    obtain ⟨p, hp, hin⟩ := hh.inner hg
    refine ⟨p, by simpa using hp, hin.imp_right fun hout => ⟨hout.1, ?_⟩⟩
    rw [Heap.binds_put h v hlt, hout.2, Bool.or_true]
  case frames =>
    intro g q hq
    rw [Heap.frames_put, Heap.frames_put, hh.frames hq]
    split
    case isFalse => rfl
    case isTrue hg =>
      subst hg
      cases hr.symm.trans hq
      cases hf : h.frames[f]? with
      | none => rfl
      | some frame =>
        have hput := ρ.put_frame (hh.binds_new_frame hf) hx v
        cases r <;> simp [frameIn, nameIn, hput]

theorem assign (hh : ρ.Heaps w h k) {f : Nat} {r : Region} (hr : w[f]? = some r)
    (hs : r ≠ .unsettled) {x : String} (hx : x ≠ ρ.new) (v : Value) :
    ρ.Heaps w (h.assign f x v) (k.assign f (ρ.nameIn r x) v) := by
  unfold Heap.assign
  cases hh.lookup hx hr hs with
  | @found g q hn hnk hq hname =>
    rw [hn.owner? hh.ordered, hnk.owner? hh.ordered_right, ← hname]
    exact hh.put hq hx v
  | @unbound g hu huk hg hname =>
    rw [hu.owner? hh.ordered, huk.owner? hh.ordered_right, hu.global hh.ordered,
      huk.global hh.ordered_right, ← hname]
    exact hh.put hg hx v

/-- The frame of a region that is known is none that comes next. -/
theorem ne_size (hh : ρ.Heaps w h k) {f : Nat} {r : Region} (hr : w[f]? = some r) :
    f ≠ h.frames.size := by
  have hlt := (List.getElem?_eq_some_iff.mp hr).1
  have hlen := hh.length
  omega

theorem closures_grow (hh : ρ.Heaps w h k) (hw : Region.Grows w w') (id : Nat) :
    Option.Rel (ρ.ClosuresIn w') h.closures[id]? k.closures[id]? := by
  have hrel := hh.closures id
  cases hc : h.closures[id]? <;> cases hc' : k.closures[id]? <;>
    simp only [hc, hc', Option.rel_some_some, Option.not_rel_none_some,
      Option.not_rel_some_none] at hrel ⊢
  · exact .none
  · exact CodesIn.mono hw hrel

/-- A new frame, outside if its parent is, and otherwise to be settled later. -/
theorem pushFrame (hh : ρ.Heaps w h k) {p : Nat} {q r : Region} (hp : w[p]? = some q)
    (hr : r = .unsettled ∨ r = .outside ∧ q = .outside) :
    ρ.Heaps (w ++ [r]) (h.pushFrame (some p) none) (k.pushFrame (some p) none) := by
  have hlt : p < h.frames.size := hh.length ▸ (List.getElem?_eq_some_iff.mp hp).1
  constructor
  case ordered => exact (Heap.Holds.pushFrame_follows ⟨hh.ordered, hlt⟩ none).ordered
  case length => simp [Heap.pushFrame, hh.length]
  case size => simp [Heap.pushFrame, hh.size]
  case frames =>
    intro f r' hr'
    simp only [Heap.pushFrame, Array.getElem?_push, hh.size]
    rcases Region.of_append hr' with hf | ⟨rfl, rfl⟩
    · simpa [hh.ne_size hf] using hh.frames hf
    · have hstrict := hh.strict_eq p
      cases r' <;> simp [hh.length, frameIn, Renaming.frame, hstrict]
  case fresh => exact fun f => (Heap.binds_pushFrame ..).trans (hh.fresh f)
  case outer =>
    intro f p' hf hp'
    rw [Heap.parent?_pushFrame] at hp'
    rcases Region.of_append hf with hf | ⟨rfl, rfl⟩
    · rw [if_neg (hh.ne_size hf)] at hp'
      exact Region.grows_append w r (hh.outer hf hp') (by simp)
    · rw [hh.length, if_pos rfl] at hp'
      cases hp'
      obtain ⟨-, rfl⟩ := hr.resolve_left (by simp)
      exact Region.grows_append w _ hp (by simp)
  case inner =>
    intro f hf
    rcases Region.of_append hf with hf | ⟨-, rfl⟩
    · obtain ⟨p', hp', hin⟩ := hh.inner hf
      refine ⟨p', by rw [Heap.parent?_pushFrame, if_neg (hh.ne_size hf), hp'], ?_⟩
      rw [Heap.binds_pushFrame]
      exact hin.imp (fun hp => Region.grows_append w r hp (by simp))
        fun hout => ⟨Region.grows_append w r hout.1 (by simp), hout.2⟩
    · simp at hr
  case closures => exact hh.closures_grow (Region.grows_append w r)

/-- A frame is settled once it binds the old name or hangs under an inner frame. -/
theorem settle (hh : ρ.Heaps (w ++ [.unsettled]) h k) {p : Nat}
    (hp : h.parent? w.length = some p)
    (hin : w[p]? = some .inside ∨ w[p]? = some .outside ∧ h.binds w.length ρ.old = true) :
    ρ.Heaps (w ++ [.inside]) h k := by
  have hgrows : Region.Grows w (w ++ [.inside]) := Region.grows_append w .inside
  have hold : ∀ {f : Nat} {r : Region}, (w ++ [Region.unsettled])[f]? = some r → r ≠ .unsettled →
      w[f]? = some r := by
    intro f r hr hs
    rcases Region.of_append hr with hr | ⟨-, rfl⟩
    · exact hr
    · exact absurd rfl hs
  constructor
  case ordered => exact hh.ordered
  case length => simpa using hh.length
  case size => exact hh.size
  case fresh => exact hh.fresh
  case frames =>
    intro f r hr
    rcases Region.of_append hr with hr | ⟨rfl, rfl⟩
    · by_cases hs : r = .unsettled
      · subst hs
        exact hh.frames ((List.getElem?_append_left (List.getElem?_eq_some_iff.mp hr).1).trans hr)
      · exact hh.frames (Region.grows_append w .unsettled hr hs)
    · exact hh.frames (r := .unsettled) (by simp)
  case outer =>
    intro f p' hf hp'
    rcases Region.of_append hf with hf | ⟨-, hf⟩
    · exact hgrows (hold (hh.outer (Region.grows_append w _ hf (by simp)) hp') (by simp)) (by simp)
    · cases hf
  case inner =>
    intro f hf
    rcases Region.of_append hf with hf | ⟨rfl, -⟩
    · obtain ⟨p', hp', hin'⟩ := hh.inner (Region.grows_append w _ hf (by simp))
      exact ⟨p', hp', hin'.imp (fun hp => hgrows (hold hp (by simp)) (by simp))
        fun hout => ⟨hgrows (hold hout.1 (by simp)) (by simp), hout.2⟩⟩
    · exact ⟨p, hp, hin.imp (fun hp => hgrows hp (by simp))
        fun hout => ⟨hgrows hout.1 (by simp), hout.2⟩⟩
  case closures => exact hh.closures_grow fun hr hs => hgrows (hold hr hs) hs

theorem pushClosure (hh : ρ.Heaps w h k) {c c' : Closure} (hc : ρ.ClosuresIn w c c')
    (hlt : c.frame < h.frames.size) : ρ.Heaps w (h.pushClosure c) (k.pushClosure c') where
  ordered := (Heap.Holds.pushClosure_follows ⟨hh.ordered, hlt⟩ c.params c.body).ordered
  length := hh.length
  size := hh.size
  frames := hh.frames
  fresh := hh.fresh
  outer := hh.outer
  inner := hh.inner
  closures id := by
    simp only [Heap.pushClosure, Array.getElem?_push, hh.closures_size]
    split
    · exact .some hc
    · exact hh.closures id

/-- Declaring names goes on in both heaps until the same one is repeated. -/
theorem declares (hh : ρ.Heaps w h k) {f : Nat} {r : Region} (hr : w[f]? = some r)
    {vars : List (String × Value)} {repeated : Option String} {h' : Heap}
    (hd : Heap.Declares f vars h repeated h') (hvars : ∀ var ∈ vars, var.1 ≠ ρ.new) :
    ∃ k', Heap.Declares f (vars.map fun var => (ρ.nameIn r var.1, var.2)) k
      (repeated.map (ρ.nameIn r)) k' ∧ ρ.Heaps w h' k' := by
  induction hd generalizing k with
  | done h => exact ⟨k, .done k, hh⟩
  | @next x v rest h repeated h' hb _ ih =>
    have hx := hvars (x, v) (by simp)
    obtain ⟨k', hd', hh'⟩ := ih (hh.put hr hx v) fun var hvar => hvars var (by simp [hvar])
    exact ⟨k', .next ((hh.binds_eq hr hx).trans hb) hd', hh'⟩
  | @repeated x v rest h hb =>
    exact ⟨k, .repeated ((hh.binds_eq hr (hvars (x, v) (by simp))).trans hb), hh⟩

end Heaps

end Renaming

end Scriptlet
