import Scriptlet.Expr.Build
import Scriptlet.Main
import Scriptlet.Proofs.Blame.Endings
import Scriptlet.Proofs.Blame.Nodes
import Scriptlet.Proofs.Blame.Stack
import Scriptlet.Proofs.CommandLine.Files
import Scriptlet.Proofs.CommandLine.Outcome
import Scriptlet.Proofs.Concatenation.Run
import Scriptlet.Proofs.Evaluation.Agreement
import Scriptlet.Proofs.Evaluation.Depth
import Scriptlet.Proofs.Evaluation.Nests
import Scriptlet.Proofs.Evaluation.WellFormed
import Scriptlet.Proofs.Grammar.Malformed
import Scriptlet.Proofs.Grammar.Parse
import Scriptlet.Proofs.Grammar.Violations
import Scriptlet.Proofs.Heap.Visibility
import Scriptlet.Proofs.Identity.Closures
import Scriptlet.Proofs.Identity.Histories
import Scriptlet.Proofs.Layout.Edits
import Scriptlet.Proofs.Locality.Evaluation
import Scriptlet.Proofs.Locality.Names
import Scriptlet.Proofs.Nesting.Frames
import Scriptlet.Proofs.Operation.Exact
import Scriptlet.Proofs.Positions.Irrelevance
import Scriptlet.Proofs.Positions.Nodes
import Scriptlet.Proofs.Renaming.Parameter
import Scriptlet.Proofs.Scanning.Munch
import Scriptlet.Proofs.Strictness.Lax
import Scriptlet.Proofs.Strictness.Policy
import Scriptlet.Proofs.Surface.Printing
import Scriptlet.Proofs.Surface.Values
