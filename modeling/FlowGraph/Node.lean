import FlowGraph.Value

/-
  Nodes and their outputs.

  Key definitions include:
    * `FlowGraph.NodeClass`
    * `FlowGraph.OutputPin`
    * `FlowGraph.Endpoint`
    * `FlowGraph.Node`
    * `FlowGraph.Node.output?`
-/

------------------------------------------------------------
-- Outputs
------------------------------------------------------------

namespace FlowGraph

/-
  The two classes of nodes.  Exec nodes have effects and are
  linked into the exec flow; data nodes are pure and are
  only referred to through their pins.
-/
inductive NodeClass where
  | exec
  | data
  deriving DecidableEq, Repr

/- The word for a class of nodes. -/
def NodeClass.name : NodeClass → String
  | .exec => "exec"
  | .data => "data"

/- A data output of a node. -/
structure OutputPin where
  name : String
  type : ValueType
  deriving DecidableEq, Repr

/- An exec output of a node. -/
structure Endpoint where
  node : Nat
  index : Nat
  deriving DecidableEq, Repr

end FlowGraph

------------------------------------------------------------
-- Nodes
------------------------------------------------------------

namespace FlowGraph

/-
  A node.  Its number belongs to the graph that holds it.
-/
structure Node where
  nodeClass : NodeClass
  nodeType : String
  args : List Value
  execOutputs : Nat
  outputs : List OutputPin
  deriving DecidableEq

namespace Node

/- An exec node without data outputs. -/
def exec
    (nodeType : String)
    (args : List Value)
    (execOutputs : Nat) :
    Node :=
  ⟨.exec, nodeType, args, execOutputs, []⟩

/- A data node. -/
def data
    (nodeType : String)
    (args : List Value)
    (outputs : List OutputPin) :
    Node :=
  ⟨.data, nodeType, args, 0, outputs⟩

/- The data output at an index, provided that it is `slot`. -/
def output?
    (n : Node)
    (slot : String)
    (index : Nat) :
    Option OutputPin :=
  n.outputs[index]?.filter fun pin => pin.name = slot

end Node

end FlowGraph
