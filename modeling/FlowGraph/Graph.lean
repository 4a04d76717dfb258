import FlowGraph.Error
import FlowGraph.Node
import FlowGraph.Table

/-
  Graphs under construction.

  A graph numbers its nodes and links exec outputs to nodes.
  An exec output is linked at most once.

  Key definitions include:
    * `FlowGraph.Graph`
    * `FlowGraph.Graph.add`
    * `FlowGraph.Graph.checkLink`
    * `FlowGraph.Graph.connect`
    * `FlowGraph.Graph.pinValue`
-/

------------------------------------------------------------
-- Endpoints As Keys
------------------------------------------------------------

namespace FlowGraph

/- Endpoints are ordered by node, then by index. -/
def Endpoint.before
    (a b : Endpoint) :
    Bool :=
  a.node < b.node || (a.node == b.node && a.index < b.index)

instance : Key Endpoint where
  before := Endpoint.before
  irrefl a := by simp [Endpoint.before]
  trans hab hbc := by
    simp only [Endpoint.before, Bool.or_eq_true,
      Bool.and_eq_true, decide_eq_true_eq, beq_iff_eq] at *
    omega
  eq_of_not_before := by
    intro a b hab hba
    obtain ⟨n, i⟩ := a
    obtain ⟨m, j⟩ := b
    simp only [Endpoint.before, Bool.or_eq_false_iff,
      Bool.and_eq_false_imp, decide_eq_false_iff_not,
      beq_iff_eq] at hab hba
    have hNode : n = m := by omega
    have hIndex : i = j := by
      have hij := hab.2 hNode
      have hji := hba.2 hNode.symm
      omega
    rw [hNode, hIndex]

end FlowGraph

------------------------------------------------------------
-- Graphs
------------------------------------------------------------

namespace FlowGraph

/- A graph: its nodes, its exec links and the next number. -/
structure Graph where
  name : String
  nodes : Table Nat Node
  links : Table Endpoint Nat
  nextId : Nat
  deriving DecidableEq

namespace Graph

/- The graph without nodes.  Numbers start at one. -/
def empty
    (name : String) :
    Graph :=
  ⟨name, .empty, .empty, 1⟩

/- Add a node under the next number. -/
def add
    (g : Graph)
    (n : Node) :
    Nat × Graph :=
  (g.nextId,
    { g with
      nodes := g.nodes.insert g.nextId n
      nextId := g.nextId + 1 })

/- The node with a given number. -/
def node
    (g : Graph)
    (id : Nat) :
    Except Error Node :=
  match g.nodes.get? id with
  | some n => .ok n
  | none => .error (.onNode .unknownNode id)

/- The exec node with a given number. -/
def execNode
    (g : Graph)
    (id : Nat) :
    Except Error Node := do
  let n ← g.node id
  if n.nodeClass = .exec then
    .ok n
  else
    .error (.onNode .notAnExecNode id)

/- The target of an exec output. -/
def execTarget
    (g : Graph)
    (e : Endpoint) :
    Option Nat :=
  g.links.get? e

/- The numbers of the nodes of a type. -/
def nodesOfType
    (g : Graph)
    (nodeType : String) :
    List Nat :=
  (g.nodes.entries.filter fun e =>
    e.2.nodeType = nodeType).map Prod.fst

end Graph

end FlowGraph

------------------------------------------------------------
-- Pins
------------------------------------------------------------

namespace FlowGraph.Graph

/- The value at output `index` of a node, named `slot`. -/
def pinValue
    (g : Graph)
    (id : Nat)
    (slot : String)
    (index : Nat) :
    Except Error Value := do
  let n ← g.node id
  match n.output? slot index with
  | some pin => .ok (.pin pin.type ⟨id, slot, index⟩)
  | none => .error (.onNode (.unknownPin slot index) id)

end FlowGraph.Graph

------------------------------------------------------------
-- Links
------------------------------------------------------------

namespace FlowGraph.Graph

/-
  Check that a link leads from an existing output of an exec
  node to an exec node.
-/
def checkLink
    (g : Graph)
    (source : Endpoint)
    (target : Nat) :
    Except Error Unit := do
  let n ← g.execNode source.node
  if source.index < n.execOutputs then
    let _ ← g.execNode target
    .ok ()
  else
    .error
      (.onNode (.execOutputOutOfRange source.index)
        source.node)

/- Link an exec output that has no link yet. -/
def connect
    (g : Graph)
    (source : Endpoint)
    (target : Nat) :
    Except Error Graph := do
  g.checkLink source target
  if g.links.contains source then
    .error
      (.onNode (.execOutputAlreadyConnected source.index)
        source.node)
  else
    .ok { g with links := g.links.insert source target }

end FlowGraph.Graph
