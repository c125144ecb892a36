import Scriptlet.Path

/-! What a path leads to in a working directory that holds given files. Beyond the files there
are only the directories around it. -/

namespace Scriptlet

/-- What is found at a path. -/
inductive Entry where
  | missing
  | tooLong
  | directory
  | file (bytes : List UInt8)
deriving DecidableEq, Repr

/-- The files of a working directory, each by the parts of its path. -/
abbrev Directory := List (List String × List UInt8)

namespace Directory

/-- The most bytes that a part of a path may have. -/
def partLimit : Nat := 255

/-- The most bytes that a path may have. -/
def pathLimit : Nat := 4095

/-- Where a walk along a path has come: some parts inside the working directory, the last one
first, or a directory around it. -/
inductive Spot where
  | inside (parts : List String)
  | around

/-- What stands at some parts inside the working directory. -/
def entryAt (d : Directory) (parts : List String) : Entry :=
  match d.find? (·.1 = parts) with
  | some (_, bytes) => .file bytes
  | none => if parts.isEmpty || d.any (parts.isPrefixOf ·.1) then .directory else .missing

/-- Walks along the parts of a path, one directory at a time. -/
def walk (d : Directory) : Spot → List String → Entry
  | .around, [] => .directory
  | .inside parts, [] => d.entryAt parts.reverse
  | spot, part :: rest =>
    if partLimit < part.utf8ByteSize then .tooLong
    else match spot, part with
      | .around, ".." => d.walk .around rest
      | .around, _ => .missing
      | .inside [], ".." => d.walk .around rest
      | .inside (_ :: parts), ".." => d.walk (.inside parts) rest
      | .inside parts, part =>
        match d.entryAt (part :: parts).reverse with
        | .directory => d.walk (.inside (part :: parts)) rest
        | entry => if rest.isEmpty then entry else .missing

/-- What a path leads to. -/
def lookup (d : Directory) (p : Path) : Entry :=
  if pathLimit < p.text.utf8ByteSize then .tooLong
  else d.walk (if p.slashes = 0 then .inside [] else .around) p.parts

end Directory

end Scriptlet
