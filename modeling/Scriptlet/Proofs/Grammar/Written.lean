import Scriptlet.Proofs.Expr.Parts
import Scriptlet.Proofs.Grammar.Parse

/-! What the expressions are like that program texts stand for: the parameters of every function
differ, and all nodes have positions but for rows of statements and some constants. -/

namespace Scriptlet

namespace Expr

mutual

/-- Every function in the expression has parameters that differ. -/
@[simp] def Written : Expr → Prop
  | .const .. | .var .. | .foreign _ => True
  | .print _ a | .declare _ _ a | .assign _ _ a => a.Written
  | .binary _ _ a b | .loop _ a b | .seq _ a b => a.Written ∧ b.Written
  | .cond _ a b c => a.Written ∧ b.Written ∧ c.Written
  | .func _ params body => params.Nodup ∧ body.Written
  | .call _ a as => a.Written ∧ AllWritten as

@[simp] def AllWritten : List Expr → Prop
  | [] => True
  | e :: es => e.Written ∧ AllWritten es

end

theorem allWritten_iff {es : List Expr} : AllWritten es ↔ ∀ e ∈ es, e.Written := by
  induction es with
  | nil => simp
  | cons e es ih => simp [ih]

theorem Written.part {e part : Expr} (he : e.Written) (hp : part ∈ e.parts) : part.Written := by
  cases e <;> simp only [parts, List.mem_cons, List.not_mem_nil, or_false] at hp <;>
    simp only [Written, allWritten_iff] at he <;> grind

theorem written_sequence {first : Expr} {rest : List Expr} (hf : first.Written)
    (hr : AllWritten rest) : (sequence first rest).Written := by
  induction rest generalizing first with
  | nil => exact hf
  | cons second rest ih => exact ⟨hf, ih hr.1 hr.2⟩

theorem written_sequence? {es : List Expr} (hes : AllWritten es) (pos : Option Position) :
    ((sequence? es).getD (.const pos .null)).Written := by
  cases es with
  | nil => trivial
  | cons first rest => exact written_sequence hes.1 hes.2

mutual

/-- Every node in the expression has a position, constants and rows of statements left aside, and
none is foreign. -/
@[simp] def Placed : Expr → Prop
  | .const .. => True
  | .var p _ => p.isSome = true
  | .print p a | .declare p _ a | .assign p _ a | .func p _ a => p.isSome = true ∧ a.Placed
  | .binary p _ a b | .loop p a b => p.isSome = true ∧ a.Placed ∧ b.Placed
  | .cond p a b c => p.isSome = true ∧ a.Placed ∧ b.Placed ∧ c.Placed
  | .seq _ a b => a.Placed ∧ b.Placed
  | .call p a as => p.isSome = true ∧ a.Placed ∧ AllPlaced as
  | .foreign _ => False

@[simp] def AllPlaced : List Expr → Prop
  | [] => True
  | e :: es => e.Placed ∧ AllPlaced es

end

theorem allPlaced_iff {es : List Expr} : AllPlaced es ↔ ∀ e ∈ es, e.Placed := by
  induction es with
  | nil => simp
  | cons e es ih => simp [ih]

theorem Placed.part {e part : Expr} (he : e.Placed) (hp : part ∈ e.parts) : part.Placed := by
  cases e <;> simp only [parts, List.mem_cons, List.not_mem_nil, or_false] at hp <;>
    simp only [Placed, allPlaced_iff] at he <;> grind

theorem placed_sequence {first : Expr} {rest : List Expr} (hf : first.Placed)
    (hr : AllPlaced rest) : (sequence first rest).Placed := by
  induction rest generalizing first with
  | nil => exact hf
  | cons second rest ih => exact ⟨hf, ih hr.1 hr.2⟩

theorem placed_sequence? {es : List Expr} (hes : AllPlaced es) (pos : Option Position) :
    ((sequence? es).getD (.const pos .null)).Placed := by
  cases es with
  | nil => trivial
  | cons first rest => exact placed_sequence hes.1 hes.2

end Expr

/-- The expressions that the meaning of a derivation consists of. -/
@[simp] def Nonterminal.exprs : (c : Nonterminal) → c.Meaning → List Expr
  | .statements, es | .rows, es | .arguments, es => es
  | .statement, e | .block, e => [e]
  | .alternative, e => e.toList
  | .expr, o | .sum, o | .product, o | .unary, o | .call, o | .atom, o | .conditional, o => [o.expr]

/-- What a derivation stands for, if the parameters of every list differ. -/
theorem Derivation.written {c : Nonterminal} (d : Derivation c)
    (hd : ∀ check ∈ d.checks, check.Ok) : Expr.AllWritten (c.exprs d.meaning) := by
  induction d with
  | function word name opening params closing body ih =>
    simp only [checks, List.mem_append, or_imp, forall_and] at hd
    have hparams : ((params.map Parameters.names).getD []).Nodup := by
      cases params with
      | none => exact List.nodup_nil
      | some ps => exact hd.1 (.parameters ps) (by simp)
    have hbody : Expr.Written body.meaning := (ih hd.2).1
    cases name <;> simp [hparams, hbody]
  | block opening body closing ih => exact ⟨Expr.written_sequence? (ih hd) _, trivial⟩
  | conditional word opening test closing yes no iht ihy ihn =>
    simp only [checks, List.mem_append, or_imp, forall_and] at hd
    have hno := ihn hd.2
    refine ⟨⟨(iht hd.1.1).1, (ihy hd.1.2).1, ?_⟩, trivial⟩
    cases hm : no.meaning with
    | none => trivial
    | some e =>
      rw [Nonterminal.exprs, hm] at hno
      exact hno.1
  | _ => simp_all [or_imp, forall_and, binary, apply, Expr.allWritten_iff]

theorem Derivation.placed {c : Nonterminal} (d : Derivation c) :
    Expr.AllPlaced (c.exprs d.meaning) := by
  induction d with
  | function word name opening params closing body ih => cases name <;> simp_all
  | block opening body closing ih => exact ⟨Expr.placed_sequence? ih _, trivial⟩
  | conditional word opening test closing yes no iht ihy ihn =>
    cases hm : no.meaning <;> simp_all
  | _ => simp_all [or_imp, binary, apply, Expr.allPlaced_iff]

theorem Program.placed_of_parse {source : String} {e : Expr}
    (hp : Program.parse source = .ok e) : e.Placed := by
  obtain ⟨hread, -⟩ := Program.parse_eq_ok_iff.mp hp
  obtain ⟨-, d, -, rfl⟩ := Program.read_eq_ok_iff.mp hread
  exact Expr.placed_sequence? d.placed _

theorem Program.written_of_parse {source : String} {e : Expr}
    (hp : Program.parse source = .ok e) : e.Written := by
  obtain ⟨hread, hfault⟩ := Program.parse_eq_ok_iff.mp hp
  obtain ⟨-, d, hd, rfl⟩ := Program.read_eq_ok_iff.mp hread
  rw [← hd] at hfault
  exact Expr.written_sequence? (d.written (d.firstFault?_eq_none_iff.mp hfault)) _

end Scriptlet
