import FlowGraph.Builder
import FlowGraph.Builder.Operations
import FlowGraph.Catalog
import FlowGraph.Compiled
import FlowGraph.Config
import FlowGraph.Error
import FlowGraph.Folding
import FlowGraph.Frame
import FlowGraph.Graph
import FlowGraph.Graph.Expansion
import FlowGraph.Graph.Search
import FlowGraph.Graph.Validity
import FlowGraph.Json
import FlowGraph.Literal
import FlowGraph.Node
import FlowGraph.Number.Binary
import FlowGraph.Number.Layout
import FlowGraph.Number.Remainder
import FlowGraph.Number.Shortest
import FlowGraph.Number.Word
import FlowGraph.Operator
import FlowGraph.Process
import FlowGraph.Script.Control
import FlowGraph.Script.Operand
import FlowGraph.Script.Run
import FlowGraph.Script.Session
import FlowGraph.Script.Stmt
import FlowGraph.Switch
import FlowGraph.Switch.Label
import FlowGraph.Table
import FlowGraph.Text.Combining
import FlowGraph.Text.Invisible
import FlowGraph.Text.Quoted
import FlowGraph.Typing
import FlowGraph.Value
import FlowGraph.ValueType
import FlowGraph.Proofs.Outcome
import FlowGraph.Proofs.Building
import FlowGraph.Proofs.Control
import FlowGraph.Proofs.Structured
import FlowGraph.Proofs.Progress
import FlowGraph.Proofs.Actions
import FlowGraph.Proofs.Branches
import FlowGraph.Proofs.Switches
import FlowGraph.Proofs.Dispatch
import FlowGraph.Proofs.Journal
import FlowGraph.Proofs.Cursor
import FlowGraph.Proofs.Aliases
import FlowGraph.Proofs.Provenance
import FlowGraph.Proofs.Closed
import FlowGraph.Proofs.Expansion
import FlowGraph.Proofs.Acceptance
import FlowGraph.Proofs.Bodies
import FlowGraph.Proofs.Arms
import FlowGraph.Proofs.Unfolding
import FlowGraph.Proofs.Enclosure
import FlowGraph.Proofs.Persistence
import FlowGraph.Proofs.Guards
import FlowGraph.Proofs.Breaks
import FlowGraph.Proofs.Regions
import FlowGraph.Proofs.Confinement
import FlowGraph.Proofs.Folding
import FlowGraph.Proofs.Machine
import FlowGraph.Proofs.Meaning
import FlowGraph.Proofs.Settled
import FlowGraph.Proofs.Execution
import FlowGraph.Proofs.Constructs
import FlowGraph.Proofs.Choices
import FlowGraph.Proofs.Preservation
import FlowGraph.Proofs.Numbering
import FlowGraph.Proofs.Functions
import FlowGraph.Proofs.Sustained
import FlowGraph.Proofs.Scopes
import FlowGraph.Proofs.NodeTyping
import FlowGraph.Proofs.TypedScripts
import FlowGraph.Proofs.Gates
import FlowGraph.Proofs.FunctionGates
import FlowGraph.Proofs.Rests
import FlowGraph.Proofs.Appending
import FlowGraph.Proofs.Documents
import FlowGraph.Proofs.Wiring
import FlowGraph.Proofs.Leftovers
import FlowGraph.Proofs.Renumbering
import FlowGraph.Proofs.Tracking
import FlowGraph.Proofs.Portable
import FlowGraph.Proofs.Transport
import FlowGraph.Proofs.Exchange
import FlowGraph.Proofs.Circles
import FlowGraph.Proofs.Inlining
import FlowGraph.Proofs.Exactness
import FlowGraph.Proofs.Joins
import FlowGraph.Proofs.Rejoining
import FlowGraph.Proofs.Finishing
import FlowGraph.Proofs.Registration
import FlowGraph.Proofs.Stability
import FlowGraph.Proofs.Atomicity
import FlowGraph.Proofs.Chains
import FlowGraph.Proofs.Resolution
