import Scriptlet.Proofs.Positions.Derivation
import Scriptlet.Proofs.Scanning.Lexemes

/-! How two texts are scanned that are put together. The tokens of the second one are those of the
text by itself, further down. -/

namespace Scriptlet

/-! ### Positions further down -/

def Position.down (n : Nat) (p : Position) : Position := ⟨p.line + n, p.column⟩

namespace Position

theorem down_zero : down 0 = id := rfl

theorem next_down (n : Nat) (p : Position) (c : Char) : (p.down n).next c = (p.next c).down n := by
  unfold next down
  split <;> simp [Nat.add_right_comm]

theorem after_down (n : Nat) (p : Position) (text : List Char) :
    (p.down n).after text = (p.after text).down n := by
  induction text generalizing p with
  | nil => rfl
  | cons c text ih => rw [after_cons, next_down, ih, after_cons]

/-- Behind a line end the next line begins. -/
theorem next_newline (p : Position) : p.next '\n' = start.down p.line := by
  simp [next, down, start, Nat.add_comm]

end Position

/-! ### Tokens of texts that are put together -/

namespace Scan

variable {p : Position} {cs : List Char} {ts : List Token}

theorem Reads.down (h : Reads p cs ts) (n : Nat) :
    Reads (p.down n) cs (ts.map (Token.move (Position.down n))) := by
  induction h with
  | nil => exact .nil
  | @cut p cs piece ts hc hrest ih =>
    have htoken := Reads.cut hc (p.after_down n piece.text ▸ ih)
    cases hsymbol : piece.symbol <;> simp_all [Token.move]

/-- Two texts and a separator on a line of its own between them. -/
theorem Reads.joined {cs₁ cs₂ : List Char} {ts₁ ts₂ : List Token} (h₁ : Reads .start cs₁ ts₁)
    (h₂ : Reads .start cs₂ ts₂) :
    Reads .start (cs₁ ++ '\n' :: ';' :: '\n' :: cs₂)
      (ts₁ ++ ⟨.separator, ⟨cs₁.count '\n' + 2, 1⟩⟩ ::
        ts₂.map (Token.move (Position.down (cs₁.count '\n' + 2)))) := by
  refine h₁.append_newline (.newline ?_)
  have hp : (Position.start.after cs₁).next '\n' = ⟨cs₁.count '\n' + 2, 1⟩ := by
    rw [Position.after_start, Position.next_newline]
    simp only [Position.behind, Position.down, Position.start]
    congr 1
    omega
  rw [hp]
  refine .separator (.newline ?_)
  rw [Position.next_newline]
  exact h₂.down (cs₁.count '\n' + 2)

end Scan

end Scriptlet
