import FlowGraph.Catalog
import FlowGraph.Graph.Validity

/-
  Finished graphs and their documents.

  Key definitions include:
    * `FlowGraph.Compiled`
    * `FlowGraph.Groups.handOut`
    * `FlowGraph.Graph.compile`
    * `FlowGraph.Compiled.entries`
    * `FlowGraph.Compiled.toJson`
-/

------------------------------------------------------------
-- Finished Graphs
------------------------------------------------------------

namespace FlowGraph

/- A link of a node's exec output. -/
structure Connection where
  index : Nat
  target : Nat
  deriving DecidableEq, Repr

/- A node of a finished graph with its links. -/
structure CompiledNode where
  id : Nat
  nodeClass : NodeClass
  nodeType : String
  args : List Value
  outputs : List OutputPin
  connections : List Connection
  deriving DecidableEq

/- A finished graph. -/
structure Compiled where
  name : String
  nodes : List CompiledNode
  deriving DecidableEq

end FlowGraph

------------------------------------------------------------
-- Links By Node
------------------------------------------------------------

namespace FlowGraph

/- For each node the links of its exec outputs, in order. -/
abbrev Groups := Table Nat (List Connection)

namespace Groups

/- The links of a node. -/
def of
    (groups : Groups)
    (id : Nat) :
    List Connection :=
  (groups.get? id).getD []

/- One more link. -/
def add
    (groups : Groups)
    (link : Endpoint × Nat) :
    Groups :=
  Table.insert groups link.1.node
    (groups.of link.1.node ++ [⟨link.1.index, link.2⟩])

end Groups

/- The links of a graph by node. -/
def Graph.groups
    (g : Graph) :
    Groups :=
  g.links.entries.foldl Groups.add .empty

end FlowGraph

------------------------------------------------------------
-- Compilation
------------------------------------------------------------

namespace FlowGraph

/- A node under its number with its links. -/
def Node.finished
    (n : Node)
    (id : Nat)
    (connections : List Connection) :
    CompiledNode :=
  { id := id
    nodeClass := n.nodeClass
    nodeType := n.nodeType
    args := n.args
    outputs := n.outputs
    connections := connections }

/-
  Give every node its links, in order.  A node takes them
  out of the groups, and what no node has taken is left.
-/
def Groups.handOut : List (Nat × Node) → Groups →
    List CompiledNode × Groups
  | [], groups => ([], groups)
  | (id, n) :: rest, groups =>
      let (nodes, left) := handOut rest (Table.erase groups id)
      (n.finished id (groups.of id) :: nodes, left)

end FlowGraph

namespace FlowGraph.Graph

/- The nodes of a graph with their links, ascending. -/
def finished
    (g : Graph) :
    Compiled :=
  { name := g.name
    nodes := (Groups.handOut g.nodes.entries g.groups).1 }

/- The finished graph, provided that the graph is valid. -/
def compile
    (g : Graph) :
    Except Error Compiled := do
  g.validate
  .ok g.finished

end FlowGraph.Graph

------------------------------------------------------------
-- Queries
------------------------------------------------------------

namespace FlowGraph

/- The target of an exec output of a finished node. -/
def CompiledNode.execTarget
    (n : CompiledNode)
    (index : Nat) :
    Option Nat :=
  (n.connections.find? fun c => c.index = index).map
    Connection.target

namespace Compiled

/- The node with a given number. -/
def node?
    (c : Compiled)
    (id : Nat) :
    Option CompiledNode :=
  c.nodes.find? fun n => n.id = id

/- The nodes that start a function. -/
def entries
    (c : Compiled) :
    List CompiledNode :=
  c.nodes.filter fun n =>
    (Builtin.ofName? n.nodeType).any Builtin.isEntry

end Compiled

end FlowGraph

------------------------------------------------------------
-- Documents
------------------------------------------------------------

namespace FlowGraph

/- An output pin as a document. -/
def OutputPin.toJson
    (pin : OutputPin) :
    Json :=
  .obj [("name", .str pin.name), ("type", .str pin.type.name)]

/- A link as a document. -/
def Connection.toJson
    (c : Connection) :
    Json :=
  .obj [("source_index", .int c.index), ("target", .int c.target)]

/- A member that is left out when it has no items. -/
def optionalMember
    (key : String)
    (items : List Json) :
    List (String × Json) :=
  if items.isEmpty then [] else [(key, .arr items)]

/- A finished node as a document. -/
def CompiledNode.toJson
    (n : CompiledNode) :
    Json :=
  .obj
    ([("id", .int n.id),
      ("type", .str n.nodeClass.name),
      ("node_type", .str n.nodeType),
      ("args", .arr (n.args.map Value.toJson))]
      ++ optionalMember "outputs"
        (n.outputs.map OutputPin.toJson)
      ++ optionalMember "exec_connections"
        (n.connections.map Connection.toJson))

/- A finished graph as a document. -/
def Compiled.toJson
    (c : Compiled) :
    Json :=
  .obj
    [("name", .str c.name),
      ("nodes", .arr (c.nodes.map CompiledNode.toJson))]

end FlowGraph
