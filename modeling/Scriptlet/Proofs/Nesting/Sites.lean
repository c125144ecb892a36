import Scriptlet.Proofs.Evaluation.Growth
import Scriptlet.Proofs.Expr.Parts
import Scriptlet.Proofs.Heap.Binding

/-! Frames and the places in a program that they belong to. Each frame but the global one was made
by a call of a function of the program; what it hangs under belongs to where that function stands,
and it binds the parameters of the function before what is declared in its body. -/

namespace Scriptlet

namespace Expr

/-- `e.Occurs n a`: the expression `a` stands in `e`, inside of `n` functions. -/
inductive Occurs (e : Expr) : Nat → Expr → Prop where
  | whole : Occurs e 0 e
  | part {n a b} (ha : Occurs e n a) (hb : b ∈ a.ownParts) : Occurs e n b
  | body {n pos params b} (hf : Occurs e n (.func pos params b)) : Occurs e (n + 1) b

theorem Occurs.trans {e a b : Expr} {n m : Nat} (ha : e.Occurs n a) (hb : a.Occurs m b) :
    e.Occurs (n + m) b := by
  induction hb with
  | whole => exact ha
  | part _ hp ih => exact .part ih hp
  | body _ ih => exact .body ih

/-- The name is declared in the expression, outside of all functions in it. -/
def DeclaresName (e : Expr) (name : String) : Prop :=
  ∃ pos init, e.Occurs 0 (.declare pos name init)

/-- The name is assigned to somewhere in the expression. -/
def AssignsName (e : Expr) (name : String) : Prop :=
  ∃ n pos rhs, e.Occurs n (.assign pos name rhs)

end Expr

/-! ### Parameters that differ -/

namespace Heap.Declares

variable {f : Nat} {vars : List (String × Value)} {h h' : Heap} {repeated : Option String}

/-- Names that are all different, and bound nowhere in the frame, are all declared. -/
theorem names_of_nodup (hd : Declares f vars h repeated h') {frame : Frame}
    (hf : h.frames[f]? = some frame) (hn : (frame.names ++ vars.map Prod.fst).Nodup) :
    repeated = none ∧ ∃ frame', h'.frames[f]? = some frame' ∧
      frame'.names = frame.names ++ vars.map Prod.fst := by
  induction hd generalizing frame with
  | done => exact ⟨rfl, frame, hf, by simp⟩
  | @next name v rest h repeated h' hb _ ih =>
    have hfresh : frame.binds name = false := by simpa [binds, hf] using hb
    have hput : (h.put f name v).frames[f]? = some (frame.put name v) := by simp [frames_put, hf]
    have hnames : (frame.put name v).names = frame.names ++ [name] := by
      rw [Frame.names_put, if_neg (by simp [hfresh])]
    have heq : (frame.put name v).names ++ rest.map Prod.fst =
        frame.names ++ ((name, v) :: rest).map Prod.fst := by simp [hnames]
    rw [← heq] at hn ⊢
    exact ih hput hn
  | @repeated name v rest h hb =>
    have hbound : name ∈ frame.names := by simpa [binds, hf, Frame.binds] using hb
    exact absurd rfl ((List.nodup_append.mp hn).2.2 name hbound name (by simp))

end Heap.Declares

/-! ### Sites -/

/-- A place in a program that frames belong to: the whole of it or the body of a function, which
stands inside of `level` functions. -/
structure Site where
  level : Nat
  params : List String
  code : Expr

/-- What a closure was made from stands in the code of the frame that it captured. -/
def Closure.BelongsTo (c : Closure) (w : List Site) : Prop :=
  ∃ site pos, w[c.frame]? = some site ∧ site.code.Occurs 0 (.func pos c.params c.body)

theorem getElem?_of_prefix {α : Type} {w w' : List α} (hw : w <+: w') {i : Nat} {a : α}
    (hi : w[i]? = some a) : w'[i]? = some a := by
  obtain ⟨rest, rfl⟩ := hw
  rw [List.getElem?_append_left (List.getElem?_eq_some_iff.mp hi).1, hi]

theorem of_getElem?_concat {α : Type} {w : List α} {a b : α} {i : Nat}
    (hi : (w ++ [a])[i]? = some b) : w[i]? = some b ∨ i = w.length ∧ b = a := by
  rw [List.getElem?_append] at hi
  split at hi
  · exact .inl hi
  · obtain ⟨hlt, hb⟩ := List.getElem?_eq_some_iff.mp hi
    simp at hlt hb
    exact .inr ⟨by omega, hb.symm⟩

/-- The frames of a heap belong to the sites, in their order. `made g c` says that the frame `g` was
made by a call of the closure. -/
structure Mirrors (program : Expr) (made : Nat → Closure → Prop) (w : List Site) (h : Heap) :
    Prop where
  ordered : h.Ordered
  size : h.frames.size = w.length
  global : h.parent? 0 = none
  root : w[0]? = some ⟨0, [], program⟩
  called {g site} : w[g]? = some site → 0 < g → ∃ p outer pos, h.parent? g = some p ∧
    w[p]? = some outer ∧ site.level = outer.level + 1 ∧
    outer.code.Occurs 0 (.func pos site.params site.code) ∧ made g ⟨site.params, site.code, p⟩
  names {g site} : w[g]? = some site → ∃ more, h.names g = site.params ++ more ∧
    ∀ x ∈ more, site.code.DeclaresName x ∨ g = 0 ∧ program.AssignsName x
  closures {id : Nat} {c : Closure} : h.closures[id]? = some c → c.BelongsTo w

namespace Mirrors

variable {program : Expr} {made : Nat → Closure → Prop} {w : List Site} {h : Heap}
  (hm : Mirrors program made w h)
include hm

/-- What holds of the whole program, and of a function's site whenever it holds of the site around
it, holds of all sites. -/
theorem induction {P : Nat → Site → Prop} (root : P 0 ⟨0, [], program⟩)
    (called : ∀ {g site p outer pos}, h.parent? g = some p → site.level = outer.level + 1 →
      outer.code.Occurs 0 (.func pos site.params site.code) → P p outer → P g site)
    {g : Nat} {site : Site} (hg : w[g]? = some site) : P g site := by
  induction g using Nat.strongRecOn generalizing site with
  | ind g ih =>
    by_cases hpos : 0 < g
    · obtain ⟨p, outer, pos, hp, houter, hlevel, hoccurs, -⟩ := hm.called hg hpos
      exact called hp hlevel hoccurs (ih p (hm.ordered.parent_lt hp) houter)
    · obtain rfl : g = 0 := by omega
      rw [hm.root] at hg
      cases hg
      exact root

/-- Every site lies where its level says. -/
theorem occurs {g : Nat} {site : Site} (hg : w[g]? = some site) :
    program.Occurs site.level site.code := by
  refine hm.induction (P := fun _ site => program.Occurs site.level site.code) .whole ?_ hg
  intro g site p outer pos _ hlevel hoccurs ih
  rw [hlevel]
  exact .body (ih.trans hoccurs)

/-- A frame is as deep as its site is nested. -/
theorem depth_eq {g : Nat} {site : Site} (hg : w[g]? = some site) : h.depth g = site.level := by
  have hlength : (h.chain g).length = site.level + 1 := by
    refine hm.induction (P := fun g site => (h.chain g).length = site.level + 1) ?_ ?_ hg
    · rw [Heap.chain_of_global hm.global]
      rfl
    · intro g site p outer pos hp hlevel _ ih
      rw [Heap.chain_of_parent hm.ordered hp, List.length_cons, ih, hlevel]
  rw [Heap.depth, hlength]
  rfl

theorem global_eq {g : Nat} {site : Site} (hg : w[g]? = some site) : h.global g = 0 := by
  refine hm.induction (P := fun g _ => h.global g = 0) (Heap.global_of_global hm.global) ?_ hg
  intro g site p outer pos hp _ _ ih
  rw [Heap.global_of_parent hm.ordered hp, ih]

theorem lt_size {g : Nat} {site : Site} (hg : w[g]? = some site) : g < h.frames.size :=
  hm.size ▸ (List.getElem?_eq_some_iff.mp hg).1

theorem getElem?_concat_size (site : Site) : (w ++ [site])[h.frames.size]? = some site := by
  rw [hm.size]
  simp

/-! ### Changes -/

/-- A name that is put into a frame is bound there already, or may be bound there. -/
theorem put {f : Nat} {x : String} (v : Value)
    (hx : ∀ {site}, w[f]? = some site →
      h.binds f x = true ∨ site.code.DeclaresName x ∨ f = 0 ∧ program.AssignsName x) :
    Mirrors program made w (h.put f x v) where
  ordered := (hm.ordered.put_follows f x v).ordered
  size := by rw [Heap.size_frames_put, hm.size]
  global := by rw [Heap.parent?_put, hm.global]
  root := hm.root
  called hg hpos := by simpa using hm.called hg hpos
  closures := hm.closures
  names {g site} hg := by
    obtain ⟨more, hnames, hmore⟩ := hm.names hg
    by_cases hfg : f = g
    case neg => exact ⟨more, by rw [Heap.names_put_of_ne hfg, hnames], hmore⟩
    subst hfg
    rw [Heap.names_put_self (hm.lt_size hg)]
    split
    case isTrue => exact ⟨more, hnames, hmore⟩
    case isFalse hb =>
      refine ⟨more ++ [x], by rw [hnames, List.append_assoc], fun y hy => ?_⟩
      rcases List.mem_append.mp hy with hy | hy
      · exact hmore y hy
      · obtain rfl := List.mem_singleton.mp hy
        exact (hx hg).resolve_left hb

theorem names_assign {f : Nat} {site : Site} (hf : w[f]? = some site) (x : String) (v : Value)
    {g : Nat} (hg : g ≠ 0) : (h.assign f x v).names g = h.names g := by
  rw [Heap.assign]
  cases ho : h.owner? f x with
  | none =>
    rw [Option.getD_none, hm.global_eq hf]
    exact Heap.names_put_of_ne (Ne.symm hg) x v
  | some q =>
    have hb := ((Heap.owner?_eq_some_iff hm.ordered).mp ho).binds
    exact Heap.names_put_of_binds hb v g

theorem assign {f : Nat} {site : Site} (hf : w[f]? = some site) {x : String} (v : Value)
    (hx : program.AssignsName x) : Mirrors program made w (h.assign f x v) := by
  rw [Heap.assign]
  cases ho : h.owner? f x with
  | none =>
    rw [Option.getD_none, hm.global_eq hf]
    exact hm.put v fun _ => .inr (.inr ⟨rfl, hx⟩)
  | some q =>
    have hb := ((Heap.owner?_eq_some_iff hm.ordered).mp ho).binds
    exact hm.put v fun _ => .inl hb

theorem pushClosure {c : Closure} (hc : c.BelongsTo w) :
    Mirrors program made w (h.pushClosure c) := by
  obtain ⟨params, body, f⟩ := c
  have hlt : f < h.frames.size := by
    obtain ⟨site, pos, hsite, -⟩ := hc
    exact hm.lt_size hsite
  refine { hm with
    ordered := ((⟨hm.ordered, hlt⟩ : h.Holds f).pushClosure_follows params body).ordered
    closures := fun {id d} hd => ?_ }
  rw [Heap.pushClosure, Array.getElem?_push] at hd
  split at hd
  · cases hd
    exact hc
  · exact hm.closures hd

/-- A call makes a frame for the site of the function. -/
theorem enter {c : Closure} {site : Site} {pos : Option Position} (hsite : w[c.frame]? = some site)
    (hoccurs : site.code.Occurs 0 (.func pos c.params c.body)) (hnodup : c.params.Nodup)
    {vs : List Value} (hlen : vs.length = c.params.length) (hmade : made h.frames.size c)
    {repeated : Option String} {h' : Heap}
    (hd : Heap.Declares h.frames.size (c.params.zip vs) (h.pushFrame (some c.frame) none)
      repeated h') :
    Mirrors program made (w ++ [⟨site.level + 1, c.params, c.body⟩]) h' := by
  have hlt := hm.lt_size hsite
  have hle : w <+: w ++ [⟨site.level + 1, c.params, c.body⟩] := List.prefix_append ..
  have hnew : (h.pushFrame (some c.frame) none).frames[h.frames.size]? =
      some ⟨some c.frame, h.strict c.frame, []⟩ := by simp [Heap.pushFrame]
  have hparent (g : Nat) :
      h'.parent? g = if g = h.frames.size then some c.frame else h.parent? g := by
    rw [hd.parent?_eq, Heap.parent?_pushFrame]
  have hzip : (c.params.zip vs).map Prod.fst = c.params := by simp [List.map_fst_zip, hlen]
  obtain ⟨-, frame, hframe, hnames⟩ :=
    hd.names_of_nodup hnew (by simpa [Frame.names, hzip] using hnodup)
  constructor
  case ordered => exact (hd.follows_call ⟨hm.ordered, hlt⟩).1.ordered
  case size => simp [hd.size_eq, Heap.pushFrame, hm.size]
  case global => rw [hparent, if_neg (by omega), hm.global]
  case root => exact getElem?_of_prefix hle hm.root
  case called =>
    intro g site' hg hpos
    rw [hparent]
    rcases of_getElem?_concat hg with hg | ⟨rfl, rfl⟩
    · obtain ⟨p, outer, pos, hp, houter, hrest⟩ := hm.called hg hpos
      have := hm.lt_size hg
      exact ⟨p, outer, pos, by rw [if_neg (by omega), hp], getElem?_of_prefix hle houter, hrest⟩
    · rw [← hm.size, if_pos rfl]
      exact ⟨c.frame, site, pos, rfl, getElem?_of_prefix hle hsite, rfl, hoccurs, hmade⟩
  case names =>
    intro g site' hg
    rcases of_getElem?_concat hg with hg | ⟨rfl, rfl⟩
    · have hne : h.frames.size ≠ g := Nat.ne_of_gt (hm.lt_size hg)
      have hsame : h'.frames[g]? = h.frames[g]? := by
        rw [hd.frames_of_ne hne, Heap.pushFrame, Array.getElem?_push, if_neg hne.symm]
      have heq : h'.names g = h.names g := by rw [Heap.names, Heap.vars, hsame]; rfl
      rw [heq]
      exact hm.names hg
    · refine ⟨[], ?_, by simp⟩
      rw [← hm.size, Heap.names_of_frame hframe, hnames, hzip]
      simp [Frame.names]
  case closures =>
    intro id d hid
    rw [hd.closures_eq] at hid
    obtain ⟨outer, pos', houter, hfunc⟩ := hm.closures hid
    exact ⟨outer, pos', getElem?_of_prefix hle houter, hfunc⟩

end Mirrors

end Scriptlet
