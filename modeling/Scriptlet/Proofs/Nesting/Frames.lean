import Scriptlet.Proofs.Evaluation.WellFormed
import Scriptlet.Proofs.Grammar.Written
import Scriptlet.Proofs.Nesting.Sites

/-! The frames of a running program mirror its text: each of them belongs to a function of the
program, and is as deep as that function is nested there, however deep calls nest. -/

namespace Scriptlet

open EvalM

theorem Expr.Written.occurs {e a : Expr} {n : Nat} (he : e.Written) (ha : e.Occurs n a) :
    a.Written := by
  induction ha with
  | whole => exact he
  | part _ hb ih => exact ih.part (ownParts_subset_parts _ hb)
  | body _ ih => exact ih.2

namespace Nesting

/-- The calls that are made within an evaluation. -/
def Called (rounds depth : Nat) (root : Activation) (c : Closure) (vs : List Value) (s : State) :
    Prop :=
  ∃ d a, Within rounds depth root (d + 1) a ∧ (evalWithin rounds d).Applies a c vs s

/-- The frame was made by a call of the closure, as the next one when the call was made. -/
def Made (calls : Closure → List Value → State → Prop) (g : Nat) (c : Closure) : Prop :=
  ∃ vs s, calls c vs s ∧ vs.length = c.params.length ∧ s.heap.frames.size = g

/-- All frames belong to sites of the program. -/
def mirroring (program : Expr) (calls : Closure → List Value → State → Prop) : Invariant where
  Stage := List Site
  le := (· <+: ·)
  heaps := Mirrors program (Made calls)
  values _ _ := True
  codes w e f := ∃ site, w[f]? = some site ∧ site.code.Occurs 0 e
  closures w c := c.BelongsTo w
  enters := calls

variable {program : Expr} {calls : Closure → List Value → State → Prop}

theorem mirroring_laws (hp : program.Written) : (mirroring program calls).Laws where
  le_refl _ := List.prefix_rfl
  le_trans h h' := h.trans h'
  values_mono _ _ := trivial
  codes_mono := by
    rintro w w' e f hw ⟨site, hf, he⟩
    exact ⟨site, getElem?_of_prefix hw hf, he⟩
  closures_mono := by
    rintro w w' c hw ⟨site, pos, hf, hc⟩
    exact ⟨site, pos, getElem?_of_prefix hw hf, hc⟩
  part := by
    rintro w e f part ⟨site, hf, he⟩ hpart
    exact ⟨site, hf, he.part hpart⟩
  const _ := trivial
  plain _ := trivial
  closure := by
    intro w h v c hm _ hc
    cases v with
    | closure id => exact hm.closures hc
    | _ => cases hc
  read _ _ _ := trivial
  declare := by
    rintro w h p x e f v hm ⟨site, hf, he⟩ - -
    refine ⟨w, List.prefix_rfl, hm.put v fun hf' => .inr (.inl ?_)⟩
    rw [hf] at hf'
    cases hf'
    exact ⟨p, e, he⟩
  assign := by
    rintro w h p x e f v hm ⟨site, hf, he⟩ -
    exact ⟨w, List.prefix_rfl, hm.assign hf v ⟨_, p, e, (hm.occurs hf).trans he⟩⟩
  func := by
    rintro w h p xs b f hm ⟨site, hf, he⟩
    exact ⟨w, List.prefix_rfl, hm.pushClosure ⟨site, p, hf, he⟩, trivial⟩
  enter := by
    rintro w c vs s repeated h' hm ⟨site, pos, hsite, hoccurs⟩ - hcall hlen hd
    have hnodup : c.params.Nodup := (hp.occurs ((hm.occurs hsite).trans hoccurs)).1
    have hmade : Made calls s.heap.frames.size c := ⟨vs, s, hcall, hlen, rfl⟩
    exact ⟨_, List.prefix_append .., hm.enter hsite hoccurs hnodup hlen hmade hd,
      fun _ => ⟨_, hm.getElem?_concat_size _, .whole⟩⟩

theorem mirrors_fresh (strict : Bool) :
    Mirrors program (Made calls) [⟨0, [], program⟩] (State.fresh strict).heap where
  ordered := (wellFormed_fresh strict).ordered
  size := rfl
  global := rfl
  root := rfl
  called {g site} hg hpos := by
    have := (List.getElem?_eq_some_iff.mp hg).1
    simp at this
    omega
  names {g site} hg := by
    obtain ⟨hlt, rfl⟩ := List.getElem?_eq_some_iff.mp hg
    obtain rfl : g = 0 := by simpa using hlt
    exact ⟨[], rfl, by simp⟩
  closures hc := by simp [State.fresh, Heap.pushFrame, Heap.empty] at hc

section Run

variable {rounds depth d : Nat} {strict : Bool} (hp : program.Written)
include hp

/-- The frames mirror the program where an evaluation begins, which is in one of them, and where
it ends. -/
theorem mirrors_within {a : Activation} (ha : Within rounds depth ⟨program, 0, .fresh strict⟩ d a) :
    let made := Made (Called rounds depth ⟨program, 0, .fresh strict⟩)
    (∃ w, Mirrors program made w a.state.heap ∧ ∃ site, w[a.frame]? = some site) ∧
      ∃ w, Mirrors program made w (finalState (a.result rounds d)).heap := by
  let I := mirroring program (Called rounds depth ⟨program, 0, .fresh strict⟩)
  have hI : I.Laws := mirroring_laws hp
  have hheap : I.heaps [⟨0, [], program⟩] (State.fresh strict).heap := mirrors_fresh strict
  have hcode : I.codes [⟨0, [], program⟩] program 0 := ⟨_, rfl, .whole⟩
  obtain ⟨w, -, hm, site, hsite, -⟩ := hI.begins (fun ha hc => ⟨_, _, ha, hc⟩) ha hheap hcode
  obtain ⟨w', -, hm'⟩ := hI.ends (fun ha hc => ⟨_, _, ha, hc⟩) hheap hcode ha
  exact ⟨⟨w, hm, site, hsite⟩, w', hm'⟩

/-- An assignment makes names for the global frame only. -/
theorem names_assign {pos : Option Position} {x : String} {rhs : Expr} {f : Nat} {s : State}
    (ha : Within rounds depth ⟨program, 0, .fresh strict⟩ (d + 1) ⟨.assign pos x rhs, f, s⟩)
    {g : Nat} (hg : g ≠ 0) :
    (finalState (evalWithin rounds (d + 1) (.assign pos x rhs) f s)).heap.names g =
      (finalState (evalWithin rounds d rhs f s)).heap.names g := by
  have hrhs : Within rounds depth ⟨program, 0, .fresh strict⟩ d ⟨rhs, f, s⟩ := ha.call (.first rfl)
  obtain ⟨⟨w₀, hm₀, site₀, hsite₀⟩, w, hm⟩ := mirrors_within hp hrhs
  have hgrows := (evalWithin_growing rounds d rhs f).grows s
  rw [evalWithin, finalState_stamp, Evaluator.step]
  change Mirrors _ _ w (finalState (evalWithin rounds d rhs f s)).heap at hm
  cases hr : evalWithin rounds d rhs f s with
  | error fault s₁ =>
    rw [bind_of_error hr]
  | ok v s₁ =>
    rw [hr] at hm hgrows
    have hf : f < w.length := by
      rw [← hm.size]
      exact Nat.lt_of_lt_of_le (hm₀.lt_size hsite₀) hgrows.heap.size_le
    rw [bind_of_ok hr, bind_of_ok (assign_eq f x v s₁)]
    exact hm.names_assign (List.getElem?_eq_getElem hf) x v hg

end Run

/-- What the frames of a heap show of a program that runs in it. Each frame but the global one was
made by a call of a function of the program and hangs under the frame in which that function was
made. It is as deep as the function is nested in the program, and binds the parameters in their
order and then only names that are declared in the body, outside of functions in it. The global
frame binds only names that are declared outside of all functions or assigned to somewhere. -/
structure Shows (program : Expr) (made : Nat → Closure → Prop) (h : Heap) : Prop where
  called {g} : 0 < g → g < h.frames.size → ∃ n pos params body p more,
    program.Occurs n (.func pos params body) ∧ made g ⟨params, body, p⟩ ∧ h.parent? g = some p ∧
    h.depth g = n + 1 ∧ h.names g = params ++ more ∧ ∀ x ∈ more, body.DeclaresName x
  global {x} : x ∈ h.names 0 → program.DeclaresName x ∨ program.AssignsName x

theorem Shows.of_mirrors {made : Nat → Closure → Prop} {w : List Site} {h : Heap}
    (hm : Mirrors program made w h) : Shows program made h where
  called {g} hpos hlt := by
    obtain ⟨site, hsite⟩ : ∃ site, w[g]? = some site :=
      ⟨_, List.getElem?_eq_getElem (hm.size ▸ hlt)⟩
    obtain ⟨p, outer, pos, hp, houter, hlevel, hoccurs, hmade⟩ := hm.called hsite hpos
    obtain ⟨more, hnames, hmore⟩ := hm.names hsite
    refine ⟨outer.level, pos, site.params, site.code, p, more, (hm.occurs houter).trans hoccurs,
      hmade, hp, by rw [hm.depth_eq hsite, hlevel], hnames, fun x hx => ?_⟩
    exact (hmore x hx).resolve_right fun hg => absurd hg.1 (by omega)
  global {x} hx := by
    obtain ⟨more, hnames, hmore⟩ := hm.names hm.root
    rw [hnames] at hx
    exact (hmore x (by simpa using hx)).imp_right And.right

end Nesting

/-- While a program text runs in a new environment, under any limits, its frames show its text
wherever the evaluation of a node begins or ends, with a value or by a fault; and when an
assignment is carried out, no frame but the global one comes to bind another name. -/
theorem frames_show_program {source : String} {program : Expr}
    (hparse : Program.parse source = .ok program) (limits : Limits) (strict : Bool) :
    let root : Activation := ⟨program, 0, .fresh strict⟩
    let made := Nesting.Made (Nesting.Called limits.rounds limits.depth root)
    Program.runFresh limits strict source .empty = root.result limits.rounds limits.depth ∧
    (∀ d a, Within limits.rounds limits.depth root d a →
      Nesting.Shows program made a.state.heap ∧
      Nesting.Shows program made (finalState (a.result limits.rounds d)).heap) ∧
    ∀ d pos x rhs f s, Within limits.rounds limits.depth root (d + 1) ⟨.assign pos x rhs, f, s⟩ →
      ∀ g ≠ 0,
        (finalState (evalWithin limits.rounds (d + 1) (.assign pos x rhs) f s)).heap.names g =
          (finalState (evalWithin limits.rounds d rhs f s)).heap.names g := by
  intro root made
  have hp := Program.written_of_parse hparse
  have hrun : Program.runFresh limits strict source .empty =
      root.result limits.rounds limits.depth := by
    rw [Program.runFresh_of_ok hparse, limits.evalFresh_eq]
    rfl
  refine ⟨hrun, fun d a ha => ?_, fun d pos x rhs f s ha g hg => Nesting.names_assign hp ha hg⟩
  obtain ⟨⟨w, hm, -⟩, w', hm'⟩ := Nesting.mirrors_within hp ha
  exact ⟨.of_mirrors hm, .of_mirrors hm'⟩

/-- A function is called where it stands, and so is the function that it gives, which declares a
name and assigns to one that is declared nowhere: the three frames at the end show the text. -/
theorem frames_show_nested_functions :
    let source := "function(n)\x7bfunction()\x7bvar k=n;y=k\x7d\x7d(1)()"
    let start (column : Nat) : Option Position := some ⟨1, column⟩
    let inner : Expr := .func (start 13) [] (.seq none
      (.declare (start 24) "k" (.var (start 30) "n"))
      (.assign (start 32) "y" (.var (start 34) "k")))
    let program : Expr := .call (start 1)
      (.call (start 1) (.func (start 1) ["n"] inner) [.const (start 38) (.number 1)]) []
    let root : Activation := ⟨program, 0, .fresh true⟩
    let h := (finalState (root.result 0 4)).heap
    Program.parse source = .ok program ∧ h.frames.size = 3 ∧
      Nesting.Shows program (Nesting.Made (Nesting.Called 0 4 root)) h := by
  refine ⟨?parse, by decide +kernel, ((frames_show_program ?parse ⟨4, 0⟩ true).2.1 4 _ .root).2⟩
  set_option maxRecDepth 2000 in with_unfolding_all rfl

end Scriptlet
