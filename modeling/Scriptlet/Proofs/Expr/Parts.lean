import Scriptlet.Expr

/-! What is inside of an expression: its parts, the expressions at any depth, and the names and
closures that occur in them. -/

namespace Scriptlet.Expr

/-- The expressions right below an expression. -/
def parts : Expr → List Expr
  | .const .. | .var .. | .foreign _ => []
  | .print _ a | .declare _ _ a | .assign _ _ a | .func _ _ a => [a]
  | .binary _ _ a b | .loop _ a b | .seq _ a b => [a, b]
  | .cond _ a b c => [a, b, c]
  | .call _ a as => a :: as

theorem ofParts {motive : Expr → Prop} (h : ∀ e, (∀ part ∈ e.parts, motive part) → motive e)
    (e : Expr) : motive e := by
  induction e with
  | _ =>
    refine h _ ?_
    simp_all [parts]

/-- Whether an expression is a row of statements. -/
def isRow : Expr → Bool
  | .seq .. => true
  | _ => false

/-- The parts that are evaluated in the same frame as the expression, not on a call. -/
@[simp] def ownParts : Expr → List Expr
  | .const .. | .var .. | .foreign _ | .func .. => []
  | .print _ a | .declare _ _ a | .assign _ _ a => [a]
  | .binary _ _ a b | .loop _ a b | .seq _ a b => [a, b]
  | .cond _ a b c => [a, b, c]
  | .call _ a as => a :: as

theorem ownParts_subset_parts (e : Expr) : e.ownParts ⊆ e.parts := by
  cases e <;> simp [parts]

mutual

/-- An expression and all that is inside of it. -/
def all : Expr → List Expr
  | .const p v => [.const p v]
  | .var p x => [.var p x]
  | .print p a => .print p a :: a.all
  | .binary p op a b => .binary p op a b :: (a.all ++ b.all)
  | .cond p a b c => .cond p a b c :: (a.all ++ b.all ++ c.all)
  | .loop p a b => .loop p a b :: (a.all ++ b.all)
  | .seq p a b => .seq p a b :: (a.all ++ b.all)
  | .declare p x a => .declare p x a :: a.all
  | .assign p x a => .assign p x a :: a.all
  | .func p xs a => .func p xs a :: a.all
  | .call p a as => .call p a as :: (a.all ++ allOf as)
  | .foreign type => [.foreign type]

def allOf : List Expr → List Expr
  | [] => []
  | e :: es => e.all ++ allOf es

end

theorem mem_allOf_iff {node : Expr} {es : List Expr} :
    node ∈ allOf es ↔ ∃ e ∈ es, node ∈ e.all := by
  induction es with
  | nil => simp [allOf]
  | cons e es ih => simp [allOf, ih]

/-- What is inside of an expression is the expression itself or inside of one of its parts. -/
theorem mem_all_iff {node e : Expr} :
    node ∈ e.all ↔ node = e ∨ ∃ part ∈ e.parts, node ∈ part.all := by
  cases e <;> simp [all, parts, mem_allOf_iff]

theorem all_subset_of_part {e part : Expr} (hp : part ∈ e.parts) : part.all ⊆ e.all :=
  fun _ hi => mem_all_iff.mpr (.inr ⟨part, hp, hi⟩)

theorem mem_all_self (e : Expr) : e ∈ e.all := mem_all_iff.mpr (.inl rfl)

theorem part_mem_all {e node part : Expr} (hn : node ∈ e.all) (hp : part ∈ node.parts) :
    part ∈ e.all := by
  induction e using ofParts with
  | h e ih =>
    obtain rfl | ⟨inner, hi, hn⟩ := mem_all_iff.mp hn
    · exact all_subset_of_part hp part.mem_all_self
    · exact all_subset_of_part hi (ih inner hi hn)

theorem all_subset {e node : Expr} (hn : node ∈ e.all) : node.all ⊆ e.all := by
  induction e using ofParts with
  | h e ih =>
    obtain rfl | ⟨inner, hi, hn⟩ := mem_all_iff.mp hn
    · exact List.Subset.refl _
    · exact List.Subset.trans (ih inner hi hn) (all_subset_of_part hi)

theorem mem_all_sequence {node first : Expr} {rest : List Expr}
    (hn : node ∈ (sequence first rest).all) :
    (∃ a b, node = .seq none a b) ∨ ∃ e ∈ first :: rest, node ∈ e.all := by
  induction rest generalizing first with
  | nil => exact .inr ⟨first, List.mem_singleton.mpr rfl, hn⟩
  | cons second rest ih =>
    simp only [sequence, all, List.mem_cons, List.mem_append] at hn
    obtain rfl | hn | hn := hn
    · exact .inl ⟨_, _, rfl⟩
    · exact .inr ⟨first, List.mem_cons_self, hn⟩
    · refine (ih hn).imp_right ?_
      rintro ⟨e, he, hn⟩
      exact ⟨e, List.mem_cons_of_mem _ he, hn⟩

/-- The names that a node itself reads, writes or binds. -/
def ownNames : Expr → List String
  | .var _ x | .declare _ x _ | .assign _ x _ => [x]
  | .func _ xs _ => xs
  | _ => []

/-- All names that occur in an expression. -/
def names (e : Expr) : List String := e.all.flatMap ownNames

theorem ownNames_subset_names (e : Expr) : e.ownNames ⊆ e.names :=
  fun _ hx => List.mem_flatMap.mpr ⟨e, e.mem_all_self, hx⟩

theorem names_subset_of_part {e part : Expr} (hp : part ∈ e.parts) : part.names ⊆ e.names := by
  intro x hx
  obtain ⟨inner, hi, hx⟩ := List.mem_flatMap.mp hx
  exact List.mem_flatMap.mpr ⟨inner, all_subset_of_part hp hi, hx⟩

/-- Whether a closure stands in the expression as a constant. -/
def Embeds (e : Expr) (id : Nat) : Prop := ∃ pos, .const pos (.closure id) ∈ e.all

theorem Embeds.of_part {e part : Expr} (hp : part ∈ e.parts) {id : Nat} (h : part.Embeds id) :
    e.Embeds id := by
  obtain ⟨pos, h⟩ := h
  exact ⟨pos, all_subset_of_part hp h⟩

end Scriptlet.Expr
