import LoopSwap.Main
import LoopSwap.Proofs.Graph.Order
import LoopSwap.Proofs.Graph.Settle
import LoopSwap.Proofs.Graph.Dominance
import LoopSwap.Proofs.Loop.Natural
import LoopSwap.Proofs.Code.Retarget
import LoopSwap.Proofs.Loop.Forest
import LoopSwap.Proofs.Loop.Preorder
import LoopSwap.Proofs.Loop.Nesting
import LoopSwap.Proofs.Code.Split
import LoopSwap.Proofs.Code.Names
import LoopSwap.Proofs.Code.Token
import LoopSwap.Proofs.Code.Draft
import LoopSwap.Proofs.Code.Numbering
import LoopSwap.Proofs.Code.Resolution
import LoopSwap.Proofs.Code.Legible
import LoopSwap.Proofs.Code.Written
import LoopSwap.Proofs.Code.Renumber
import LoopSwap.Proofs.Code.RoundTrip
import LoopSwap.Proofs.Code.Reading
import LoopSwap.Proofs.Code.Growth
import LoopSwap.Proofs.Code.Layout
import LoopSwap.Proofs.Loop.Connections
import LoopSwap.Proofs.Loop.Renaming
import LoopSwap.Proofs.Loop.Cutting
import LoopSwap.Proofs.Interchange.Nest
import LoopSwap.Proofs.Interchange.Plan
import LoopSwap.Proofs.Interchange.Relink
import LoopSwap.Proofs.Interchange.Exchange
import LoopSwap.Proofs.Interchange.Materialize
import LoopSwap.Proofs.Interchange.Steps
import LoopSwap.Proofs.Interchange.Reach
import LoopSwap.Proofs.Interchange.Bypass
import LoopSwap.Proofs.Interchange.Mirror
import LoopSwap.Proofs.Interchange.CleanNest
import LoopSwap.Proofs.Interchange.Perfect
import LoopSwap.Proofs.Interchange.Reorder
import LoopSwap.Proofs.Interchange.Undo
import LoopSwap.Proofs.Interchange.Rediscover
import LoopSwap.Proofs.Interchange.Twice
import LoopSwap.Proofs.Code.Comments
import LoopSwap.Proofs.Code.Edits
import LoopSwap.Proofs.Loop.Agreement
import LoopSwap.Proofs.Loop.DeadCode
import LoopSwap.Proofs.Loop.Relayout
import LoopSwap.Proofs.Interchange.Count
import LoopSwap.Proofs.Interchange.Frame
import LoopSwap.Proofs.Access.Index
import LoopSwap.Proofs.Access.Records
import LoopSwap.Proofs.Cli.Independence
import LoopSwap.Proofs.Interchange.Captured
import LoopSwap.Proofs.Interchange.Outside
import LoopSwap.Proofs.Interchange.TakenIn
import LoopSwap.Proofs.Interchange.Isolation
import LoopSwap.Proofs.Interchange.Seams
import LoopSwap.Proofs.Interchange.Runs
import LoopSwap.Proofs.Code.Checked
import LoopSwap.Proofs.Interchange.Atomic
import LoopSwap.Proofs.Code.Execution
import LoopSwap.Proofs.Access.Enumeration
import LoopSwap.Proofs.Access.Addressing
import LoopSwap.Proofs.Access.Expression
import LoopSwap.Proofs.Access.Tokens
import LoopSwap.Proofs.Access.Guard
import LoopSwap.Proofs.Access.Marks
import LoopSwap.Proofs.Code.Place
import LoopSwap.Proofs.Code.Line
import LoopSwap.Proofs.Loop.Places
import LoopSwap.Proofs.Graph.Forward
import LoopSwap.Proofs.Graph.Stepwise
import LoopSwap.Proofs.Graph.Flat
import LoopSwap.Proofs.Loop.Crossing
import LoopSwap.Proofs.Access.Scope
import LoopSwap.Proofs.Interchange.Roles
import LoopSwap.Proofs.Graph.Recursion
import LoopSwap.Proofs.Code.Naming
import LoopSwap.Proofs.Code.Progress
