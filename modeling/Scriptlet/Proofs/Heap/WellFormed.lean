import Scriptlet.Proofs.Evaluation.Rules
import Scriptlet.Proofs.Expr.Parts

/-! Well-formed heaps: no reference leads out of the heap, frames hang under earlier ones, and no
frame binds a name twice. All that changes a heap keeps it so. -/

namespace Scriptlet

theorem Frame.nodup_names_put {f : Frame} (hf : f.names.Nodup) (name : String) (v : Value) :
    (f.put name v).names.Nodup := by
  rw [names_put]
  split
  case isTrue => exact hf
  case isFalse hb =>
    have hnew : name ∉ f.names := by simpa [binds] using hb
    exact List.nodup_append.mpr ⟨hf, by simp, by grind⟩

namespace Heap

theorem lt_size_of_parent {h : Heap} {f p : Nat} (hp : h.parent? f = some p) :
    f < h.frames.size := by
  unfold parent? at hp
  obtain ⟨frame, hf, -⟩ := Option.bind_eq_some_iff.mp hp
  exact (Array.getElem?_eq_some_iff.mp hf).1

/-- No reference leads out of the heap: frames hang under earlier ones, closures captured frames
that exist, and every closure that is bound in a frame or embedded in code exists. -/
structure Closed (h : Heap) : Prop where
  ordered : h.Ordered
  bound {f x id} : (x, .closure id) ∈ h.vars f → id < h.closures.size
  body {id id' : Nat} {c : Closure} : h.closures[id]? = some c → c.body.Embeds id' →
    id' < h.closures.size

/-- A closed heap in which no frame binds a name twice. -/
structure WellFormed (h : Heap) : Prop extends h.Closed where
  nodup {f : Nat} {frame : Frame} : h.frames[f]? = some frame → frame.names.Nodup

/-- The value is no closure, or one of the heap. -/
def Has (h : Heap) (v : Value) : Prop := ∀ id, v = .closure id → id < h.closures.size

/-- The heap has the frame, and the closures that are embedded in the expression. -/
structure Hosts (h : Heap) (e : Expr) (f : Nat) : Prop where
  frame_lt : f < h.frames.size
  embedded {id} : e.Embeds id → id < h.closures.size

theorem Hosts.part {h : Heap} {e part : Expr} {f : Nat} (he : h.Hosts e f) (hp : part ∈ e.parts) :
    h.Hosts part f :=
  ⟨he.frame_lt, fun hid => he.embedded (hid.of_part hp)⟩

/-- Going outward from a frame, these are the frames until the global one. -/
inductive Outward (h : Heap) : Nat → List Nat → Prop where
  | global {f} (hp : h.parent? f = none) : Outward h f [f]
  | parent {f p outer} (hp : h.parent? f = some p) : Outward h p outer → Outward h f (f :: outer)

theorem Ordered.outward_chain {h : Heap} (ho : h.Ordered) (f : Nat) : h.Outward f (h.chain f) := by
  induction f using Nat.strongRecOn with
  | ind f ih =>
    cases hp : h.parent? f with
    | none =>
      rw [chain_of_global hp]
      exact .global hp
    | some p =>
      rw [chain_of_parent ho hp]
      exact .parent hp (ih p (ho.parent_lt hp))

/-! ### Lookups -/

theorem mem_vars_put {h : Heap} {f g : Nat} {name : String} {v : Value} {var : String × Value}
    (hvar : var ∈ (h.put f name v).vars g) : var ∈ h.vars g ∨ var = (name, v) := by
  unfold vars at hvar ⊢
  rw [frames_put] at hvar
  cases hg : h.frames[g]? with
  | none => simp [hg] at hvar
  | some frame =>
    rw [hg] at hvar
    split at hvar
    · exact Frame.mem_vars_put hvar
    · exact .inl hvar

theorem mem_vars_of_get? {h : Heap} {f : Nat} {name : String} {v : Value}
    (hv : h.get? f name = some v) : (name, v) ∈ h.vars f := by
  obtain ⟨frame, hf, hv⟩ := Option.bind_eq_some_iff.mp hv
  simpa [vars, hf] using Frame.mem_vars_of_get? hv

theorem Closed.has_of_resolve? {h : Heap} (hh : h.Closed) {f : Nat} {name : String} {v : Value}
    (hv : h.resolve? f name = some v) : h.Has v := by
  obtain ⟨g, -, hg⟩ := Option.bind_eq_some_iff.mp hv
  rintro id rfl
  exact hh.bound (mem_vars_of_get? hg)

theorem Closed.hosts_of_closure? {h : Heap} (hh : h.Closed) {v : Value} {c : Closure}
    (hc : h.closure? v = some c) : h.Hosts c.body c.frame := by
  cases v with
  | closure id => exact ⟨hh.ordered.captured_lt hc, hh.body hc⟩
  | _ => cases hc

/-! ### Changes -/

theorem wellFormed_empty : Heap.empty.WellFormed where
  ordered := ordered_empty
  bound hx := by simp [vars, empty] at hx
  body hc := by simp [empty] at hc
  nodup hf := by simp [empty] at hf

namespace WellFormed

variable {h : Heap} (hh : h.WellFormed)
include hh

theorem put (f : Nat) (name : String) {v : Value} (hv : h.Has v) : (h.put f name v).WellFormed where
  ordered := (hh.ordered.put_follows f name v).ordered
  bound hx := by
    rcases mem_vars_put hx with hx | hx
    · exact hh.bound hx
    · exact hv _ (congrArg Prod.snd hx).symm
  body := hh.body
  nodup {g frame} hg := by
    rw [frames_put] at hg
    split at hg
    case isFalse => exact hh.nodup hg
    case isTrue =>
      obtain ⟨old, hold, rfl⟩ := Option.map_eq_some_iff.mp hg
      exact Frame.nodup_names_put (hh.nodup hold) name v

theorem pushFrame {parent : Option Nat} (hparent : ∀ p ∈ parent, p < h.frames.size)
    (strict : Option Bool) : (h.pushFrame parent strict).WellFormed := by
  have hframe {g : Nat} {frame : Frame}
      (hg : (h.pushFrame parent strict).frames[g]? = some frame) :
      h.frames[g]? = some frame ∨ frame.vars = [] := by
    rw [Heap.pushFrame, Array.getElem?_push] at hg
    split at hg
    · cases hg
      exact .inr rfl
    · exact .inl hg
  constructor
  case nodup =>
    intro g frame hg
    rcases hframe hg with hg | hvars
    · exact hh.nodup hg
    · simp [Frame.names, hvars]
  case toClosed =>
    refine ⟨(hh.ordered.pushFrame_follows hparent strict).ordered, ?_, hh.body⟩
    intro g x id hx
    rw [vars] at hx
    cases hg : (h.pushFrame parent strict).frames[g]? with
    | none => simp [hg] at hx
    | some frame =>
      rw [hg] at hx
      rcases hframe hg with hg | hvars
      · exact hh.bound (f := g) (x := x) (by simpa [vars, hg] using hx)
      · simp [hvars] at hx

theorem pushClosure {params : List String} {body : Expr} {f : Nat} (hc : h.Hosts body f) :
    (h.pushClosure ⟨params, body, f⟩).WellFormed where
  ordered := ((⟨hh.ordered, hc.frame_lt⟩ : h.Holds f).pushClosure_follows params body).ordered
  bound hx := Nat.lt_of_lt_of_le (hh.bound hx) (by simp [Heap.pushClosure])
  body {id id' c} hid he := by
    rw [Heap.pushClosure, Array.size_push]
    refine Nat.lt_succ_of_lt ?_
    rw [Heap.pushClosure, Array.getElem?_push] at hid
    split at hid
    · cases hid
      exact hc.embedded he
    · exact hh.body hid he
  nodup := hh.nodup

theorem declares {f : Nat} {vars : List (String × Value)} {repeated : Option String} {h' : Heap}
    (hvars : ∀ var ∈ vars, h.Has var.2) (hd : Declares f vars h repeated h') :
    h'.WellFormed := by
  induction hd with
  | done | repeated => exact hh
  | next _ _ ih =>
    obtain ⟨hv, hvars⟩ := List.forall_mem_cons.mp hvars
    exact ih (hh.put f _ hv) hvars

end WellFormed

end Heap

end Scriptlet
