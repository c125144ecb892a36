import Mathlib.Logic.Relation
import Scriptlet.Proofs.Evaluation.WellFormed
import Scriptlet.Proofs.Strictness.Policy
import Scriptlet.Proofs.Surface.Trees

/-! What environments can come to. They are made, names are declared in them and assigned to,
closures are called, expressions and texts are evaluated, in any order and however each of it
ends. Through all of it heaps stay well formed, and no closure is lost or becomes another. -/

namespace Scriptlet

open EvalM

/-! ### Histories -/

/-- Something is done with the environments of a state. What is done refers to nothing that is not
there; it may fail, and an evaluation may be looked at before it is over. -/
inductive State.Step : State → State → Prop where
  | environment {s parent} (hp : ∀ p ∈ parent, p < s.heap.frames.size) (strict : Option Bool) :
      Step s (finalState (newFrame parent strict s))
  | declare {s f v} (hf : f < s.heap.frames.size) (hv : s.heap.Has v) (x : String) :
      Step s (finalState (EvalM.declare f x v s))
  | assign {s f v} (hf : f < s.heap.frames.size) (hv : s.heap.Has v) (x : String) :
      Step s (finalState (EvalM.assign f x v s))
  | call {s v c args} (hc : s.heap.closure? v = some c) (hargs : ∀ a ∈ args, s.heap.Has a)
      (limits : Limits) : Step s (finalState (limits.eval.apply c args s))
  | eval {s e f} (he : s.heap.Hosts e f) (strict : Option Bool) (limits : Limits) :
      Step s (finalState (limits.evalIn f strict e s))
  | run {s f} (hf : f < s.heap.frames.size) (strict : Option Bool) (limits : Limits)
      (source : String) : Step s (finalState (Program.runIn limits f strict source s))
  | during {s e f s'} (he : s.heap.Hosts e f) {strict : Option Bool} {limits : Limits}
      (hp : Passes limits.rounds limits.depth (.ofCall f strict e s) s') : Step s s'

/-- One state becomes another when this and that is done. -/
def State.Leads : State → State → Prop := Relation.ReflTransGen State.Step

/-- A state that can come about, beginning with nothing. -/
def State.Reachable (s : State) : Prop := State.empty.Leads s

/-! ### What is kept -/

/-- What becomes of a well-formed heap: it is well formed, and its closures are what they were. -/
structure Heap.Evolves (h h' : Heap) : Prop where
  wellFormed : h'.WellFormed
  closures {id : Nat} {c : Closure} : h.closures[id]? = some c → h'.closures[id]? = some c

namespace Heap

theorem Evolves.trans {h h' h'' : Heap} (hh : h.Evolves h') (hh' : h'.Evolves h'') :
    h.Evolves h'' :=
  ⟨hh'.wellFormed, fun hc => hh'.closures (hh.closures hc)⟩

theorem WellFormed.evolves {h h' : Heap} (hh : h'.WellFormed) (hg : h.Grows h') : h.Evolves h' :=
  ⟨hh, hg.closures⟩

theorem Has.evolve {h h' : Heap} (hh : h.Evolves h') {v : Value} (hv : h.Has v) : h'.Has v := by
  intro id hid
  have hc := hh.closures (Array.getElem?_eq_getElem (hv id hid))
  exact (Array.getElem?_eq_some_iff.mp hc).1

theorem WellFormed.override {h : Heap} (hh : h.WellFormed) (f : Nat) (strict : Option Bool) :
    h.Evolves (h.override f strict) := by
  refine ⟨⟨⟨hh.ordered.override f strict, ?_, ?_⟩, ?_⟩, by simp⟩
  · intro g x id
    rw [vars_override, closures_override]
    exact hh.bound
  · rw [closures_override]
    exact hh.body
  · intro g frame' hg
    have hlt : g < h.frames.size := by simpa using (Array.getElem?_eq_some_iff.mp hg).1
    have hnodup := hh.nodup (Array.getElem?_eq_getElem hlt)
    obtain ⟨b, hb⟩ := frames_override f strict (Array.getElem?_eq_getElem hlt)
    rw [hb] at hg
    cases hg
    exact hnodup

theorem Hosts.override {h : Heap} {e : Expr} {g : Nat} (he : h.Hosts e g) (f : Nat)
    (strict : Option Bool) : (h.override f strict).Hosts e g :=
  ⟨by simpa using he.frame_lt, by rw [closures_override]; exact he.embedded⟩

theorem hangsFrom_size (h : Heap) : h.HangsFrom h.frames.size :=
  fun _ hle hlt => absurd hlt (Nat.not_lt.mpr hle)

section WellFormed

variable {s : State} (hs : s.heap.WellFormed)
include hs

theorem WellFormed.begins :
    (Invariant.wellFormed s.heap.frames.size).heaps s.heap s.heap :=
  ⟨rfl, hs, hangsFrom_size s.heap⟩

theorem WellFormed.eval_ok {e : Expr} {f : Nat} (he : s.heap.Hosts e f) {rounds depth : Nat}
    {v : Value} {s' : State} (hr : evalWithin rounds depth e f s = .ok v s') :
    s'.heap.WellFormed ∧ s.heap.Grows s'.heap ∧ s'.heap.Has v := by
  have hroot : Within rounds depth ⟨e, f, s⟩ depth ⟨e, f, s⟩ := .root
  have hrun := (Invariant.wellFormed_laws s.heap.frames.size).eval (fun _ _ => trivial) hroot
    s.heap hs.begins he
  obtain ⟨w, hgrows, ⟨rfl, hh, -⟩, hv⟩ := hrun.of_ok hr
  exact ⟨hh, hgrows, hv⟩

theorem WellFormed.during {e : Expr} {f : Nat} (he : s.heap.Hosts e f) {strict : Option Bool}
    {rounds depth : Nat} {s' : State} (hp : Passes rounds depth (.ofCall f strict e s) s') :
    s.heap.Evolves s'.heap := by
  have hover := hs.override f strict
  obtain ⟨hh, -, hgrows⟩ := Invariant.wellFormed_passes hover.wellFormed
    (hangsFrom_size (s.heap.override f strict)) (he.override f strict) hp
  exact hover.trans (hh.evolves hgrows)

theorem WellFormed.evalIn {e : Expr} {f : Nat} (he : s.heap.Hosts e f) (strict : Option Bool)
    (limits : Limits) : s.heap.Evolves (finalState (limits.evalIn f strict e s)).heap := by
  have hroot : Within limits.rounds limits.depth (.ofCall f strict e s) limits.depth
      (.ofCall f strict e s) := .root
  have hcall := hs.during he (.finish hroot)
  rw [limits.finalState_evalIn]
  exact hcall.trans (hcall.wellFormed.override f _)

theorem WellFormed.has_of_evalIn {e : Expr} {f : Nat} (he : s.heap.Hosts e f)
    {strict : Option Bool} {limits : Limits} {v : Value} {t : State}
    (hr : limits.evalIn f strict e s = .ok v t) : t.heap.Has v := by
  obtain ⟨s', hrun, rfl⟩ := limits.evalIn_ok hr
  have hbegin : (s.override f strict).heap.WellFormed := (hs.override f strict).wellFormed
  obtain ⟨hs', -, hv⟩ := hbegin.eval_ok (he.override f strict) hrun
  exact hv.evolve (hs'.override f _)

theorem WellFormed.apply {v : Value} {c : Closure} (hc : s.heap.closure? v = some c)
    {args : List Value} (hargs : ∀ a ∈ args, s.heap.Has a) (limits : Limits) :
    s.heap.Evolves (finalState (limits.eval.apply c args s)).heap := by
  have hI := Invariant.wellFormed_laws s.heap.frames.size
  have henter := hI.enters (E := fun _ _ => True) hs.begins (hs.hosts_of_closure? hc) hargs trivial
    fun _ => trivial
  have hbody {w : Heap} {g : Nat} {s' : State}
      (hs' : (Invariant.wellFormed s.heap.frames.size).heaps w s'.heap)
      (hcode : w.Hosts c.body g) :
      (Invariant.wellFormed s.heap.frames.size).Ends w Has (fun _ _ => True)
        (limits.eval c.body g s') := by
    have hroot : Within limits.rounds limits.depth ⟨c.body, g, s'⟩ limits.depth ⟨c.body, g, s'⟩ :=
      .root
    exact hI.eval (fun _ _ => trivial) hroot w hs' hcode
  rw [Evaluator.apply_eq]
  have hcall := hI.bind henter fun _ _ hs' hcode => hbody hs' hcode
  obtain ⟨h', hgrows, rfl, hh, -⟩ := hcall.final
  exact hh.evolves hgrows

end WellFormed

end Heap

/-- Whatever is done, heaps stay well formed and closures stay what they are. -/
theorem State.Step.evolves {s t : State} (hst : s.Step t) (hs : s.heap.WellFormed) :
    s.heap.Evolves t.heap := by
  cases hst with
  | environment hp strict => exact (hs.pushFrame hp strict).evolves (.pushFrame _ _ _)
  | @declare f v hf hv x =>
    rw [declare_eq]
    split
    · exact hs.evolves (.refl _)
    · exact (hs.put f x hv).evolves (.put _ _ _ _)
  | assign hf hv x =>
    rw [assign_eq]
    exact (hs.put _ x hv).evolves (.put _ _ _ _)
  | call hc hargs limits => exact hs.apply hc hargs limits
  | eval he strict limits => exact hs.evalIn he strict limits
  | run hf strict limits source =>
    cases hparse : Program.parse source with
    | error fault =>
      rw [Program.runIn_of_error hparse]
      exact hs.evolves (.refl _)
    | ok e =>
      rw [Program.runIn_of_ok hparse]
      have hnone := (Program.surface_of_parse hparse).not_embeds
      exact hs.evalIn ⟨hf, fun hid => absurd hid (hnone _)⟩ strict limits
  | during he hp => exact hs.during he hp

theorem State.Leads.evolves {s t : State} (hst : s.Leads t) (hs : s.heap.WellFormed) :
    s.heap.Evolves t.heap := by
  induction hst with
  | refl => exact hs.evolves (.refl _)
  | tail _ hstep ih => exact ih.trans (hstep.evolves ih.wellFormed)

theorem State.Reachable.wellFormed {s : State} (hs : s.Reachable) : s.heap.WellFormed :=
  (State.Leads.evolves hs Heap.wellFormed_empty).wellFormed

end Scriptlet
