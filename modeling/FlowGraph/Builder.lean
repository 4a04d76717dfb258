import FlowGraph.Catalog
import FlowGraph.Compiled
import FlowGraph.Config
import FlowGraph.Frame
import FlowGraph.Graph.Expansion
import FlowGraph.Process

/-
  Builders of graphs.

  A builder puts every exec node at the open exec outputs of
  its frame and goes on from the node's first exec output.

  Key definitions include:
    * `FlowGraph.Builder`
    * `FlowGraph.Builder.place`
    * `FlowGraph.Builder.placeOfType`
    * `FlowGraph.Builder.addData`
    * `FlowGraph.Builder.finish`
-/

------------------------------------------------------------
-- Builders
------------------------------------------------------------

namespace FlowGraph

/- A graph under construction, a frame and settings. -/
structure Builder where
  graph : Graph
  frame : Frame
  config : Config
  deriving DecidableEq

/- A step on a builder. -/
abbrev Build (α : Type) := Process Builder α

namespace Builder

/- A builder of a new graph. -/
def new
    (name : String)
    (config : Config) :
    Builder :=
  ⟨.empty name, .empty, config⟩

/- A change of the frame. -/
def onFrame
    (f : Frame → Frame) :
    Build Unit :=
  Process.update fun b => { b with frame := f b.frame }

/- A change of the frame that yields something. -/
def fromFrame
    {α : Type}
    (f : Frame → α × Frame) :
    Build α :=
  Process.transform fun b =>
    ((f b.frame).1, { b with frame := (f b.frame).2 })

/- The frame. -/
def frameNow : Build Frame :=
  Process.read Builder.frame

end Builder

end FlowGraph

------------------------------------------------------------
-- Nodes
------------------------------------------------------------

namespace FlowGraph.Builder

/- Add a node. -/
def add
    (n : Node) :
    Build Nat :=
  Process.transform fun b =>
    ((b.graph.add n).1,
      { b with graph := (b.graph.add n).2 })

/- The value at an output of a node. -/
def pinValue
    (id : Nat)
    (slot : String)
    (index : Nat) :
    Build Value := do
  let g ← Process.read Builder.graph
  g.pinValue id slot index

/- Link an exec output. -/
def connect
    (source : Endpoint)
    (target : Nat) :
    Build Unit :=
  fun b =>
    match b.graph.connect source target with
    | .ok g => (.ok (), { b with graph := g })
    | .error e => (.error e, b)

/-
  Add an exec node at the open exec outputs.  The flow goes
  on from the node's first exec output; a node without any
  ends it.
-/
def place
    (n : Node) :
    Build Nat := do
  let tail ← fromFrame Frame.takeTail
  let id ← add n
  Process.each (fun e => connect e id) tail
  if 0 < n.execOutputs then
    onFrame fun f => f.linkFrom id 0
  return id

/- Add a built-in exec node. -/
def placeBuiltin
    (kind : Builtin)
    (args : List Value)
    (dynamic : Option ValueType) :
    Build Nat :=
  place (kind.node args dynamic)

/- Add a built-in data node. -/
def addBuiltin
    (kind : Builtin)
    (args : List Value)
    (dynamic : Option ValueType) :
    Build Nat :=
  add (kind.node args dynamic)

/-
  Add an exec node of any type.  A built-in exec type brings
  its own outputs; any other has one exec output.
-/
def placeOfType
    (nodeType : String)
    (args : List Value) :
    Build Nat :=
  match Builtin.ofName? nodeType with
  | some kind =>
      if kind.nodeClass = .exec then
        placeBuiltin kind args none
      else
        place (.exec nodeType args 1)
  | none => place (.exec nodeType args 1)

/- Add a data node of any type. -/
def addData
    (nodeType : String)
    (args : List Value)
    (outputs : List OutputPin) :
    Build Nat :=
  add (.data nodeType args outputs)

/- Add the entry of a function. -/
def addEntry
    (event : String) :
    Build Nat :=
  add (Builtin.graphEntry.node [.str event] none)

/- Start a function in a frame of its own. -/
def beginFunction
    (event : String) :
    Build Nat := do
  let entry ← addEntry event
  onFrame fun _ => .rootedAt ⟨entry, 0⟩
  return entry

end FlowGraph.Builder

------------------------------------------------------------
-- Finishing
------------------------------------------------------------

namespace FlowGraph.Builder

/- The finished graph, inline lists expanded if so set. -/
def finish
    (b : Builder) :
    Except Error Compiled :=
  if b.config.expandLists then
    match b.graph.expandLists with
    | (.ok _, g) => g.compile
    | (.error e, _) => .error e
  else
    b.graph.compile

end FlowGraph.Builder
