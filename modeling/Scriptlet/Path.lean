/-! Paths of files. Repeated slashes and parts that stay in place are dropped, so that paths
written differently are one. -/

namespace Scriptlet

/-- Slashes in front, of which two differ from one, and the parts behind them. -/
structure Path where
  slashes : Nat
  parts : List String
deriving DecidableEq, Repr

namespace Path

/-- The slashes that count in front of a path: none, one, or exactly two. -/
def rootOf (text : List Char) : Nat :=
  match (text.takeWhile (· = '/')).length with
  | 0 => 0
  | 2 => 2
  | _ => 1

/-- The parts between slashes that lead anywhere. -/
def partsOf (text : String) : List String :=
  (text.splitOn "/").filter fun part => part ≠ "" && part ≠ "."

/-- The path that a text names. No path holds the null character. -/
def ofText? (text : String) : Option Path :=
  if text.toList.contains '\x00' then none
  else some ⟨rootOf text.toList, partsOf text⟩

/-- The text of a path. The empty path is the directory itself. -/
def text (p : Path) : String :=
  if p.slashes = 0 && p.parts.isEmpty then "."
  else String.ofList (List.replicate p.slashes '/') ++ "/".intercalate p.parts

end Path

end Scriptlet
