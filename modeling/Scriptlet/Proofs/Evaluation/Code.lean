import Scriptlet.Proofs.Evaluation.Invariant

/-! What all code has in common that is evaluated within an evaluation. It comes from the expression
or from the closures of the heap, so what holds of these and passes on to parts holds of all. -/

namespace Scriptlet

/-- A closure was made from a function as `C` says. -/
def Closure.MadeFrom (C : Expr → Prop) (c : Closure) : Prop := ∃ pos, C (.func pos c.params c.body)

/-- All closures of a heap were made from functions as `C` says. -/
def Heap.MadeFrom (C : Expr → Prop) (h : Heap) : Prop :=
  ∀ {id : Nat} {c : Closure}, h.closures[id]? = some c → c.MadeFrom C

/-- All code is as `C` says. -/
def Invariant.code (C : Expr → Prop) : Invariant where
  Stage := Unit
  le _ _ := True
  heaps _ h := h.MadeFrom C
  values _ _ := True
  codes _ e _ := C e
  closures _ c := c.MadeFrom C
  enters _ _ _ := True

section

variable {C : Expr → Prop} (hC : ∀ {e part}, C e → part ∈ e.parts → C part)
include hC

theorem Invariant.code_laws : (code C).Laws where
  le_refl _ := trivial
  le_trans _ _ := trivial
  values_mono _ _ := trivial
  codes_mono _ he := he
  closures_mono _ hc := hc
  part he hp := hC he (Expr.ownParts_subset_parts _ hp)
  const _ := trivial
  plain _ := trivial
  closure := by
    intro _ h v c hh _ hc
    cases v with
    | closure id => exact hh hc
    | _ => cases hc
  read _ _ _ := trivial
  declare hh _ _ _ := ⟨(), trivial, hh⟩
  assign hh _ _ := ⟨(), trivial, hh⟩
  func := by
    intro _ h p xs b f hh he
    refine ⟨(), trivial, fun {id c} hc => ?_, trivial⟩
    rw [Heap.pushClosure, Array.getElem?_push] at hc
    split at hc
    · cases hc
      exact ⟨p, he⟩
    · exact hh hc
  enter := by
    rintro _ c vs s repeated h' hh ⟨pos, hc⟩ - - - hd
    refine ⟨(), trivial, fun {id c'} hc' => ?_, fun _ => hC hc (by simp [Expr.parts])⟩
    rw [hd.closures_eq] at hc'
    exact hh hc'

variable {rounds depth d : Nat} {root a : Activation} (hroot : C root.expr)
  (hheap : root.state.heap.MadeFrom C)
include hroot hheap

theorem Within.code (ha : Within rounds depth root d a) : C a.expr := by
  obtain ⟨_, -, -, he⟩ :=
    (Invariant.code_laws hC).begins (fun _ _ => trivial) (w := ()) ha hheap hroot
  exact he

theorem Within.madeFrom (ha : Within rounds depth root (d + 1) a) {c : Closure} {vs : List Value}
    {s : State} (hc : (evalWithin rounds d).Applies a c vs s) : c.MadeFrom C := by
  obtain ⟨_, -, -, hclosure, -⟩ :=
    (Invariant.code_laws hC).about_to_call (fun _ _ => trivial) (w := ()) hheap hroot ha hc
  exact hclosure

theorem Activation.madeFrom_result :
    (finalState (root.result rounds depth)).heap.MadeFrom C := by
  obtain ⟨_, -, hfinal⟩ :=
    (Invariant.code_laws hC).ends (fun _ _ => trivial) (w := ()) hheap hroot (.root)
  exact hfinal

end

end Scriptlet
