import FlowGraph.Graph
import FlowGraph.Typing

/-
  Operands of a script.

  Statements refer to earlier results by name.  Values,
  variables and nodes have tables of names of their own.

  Key definitions include:
    * `FlowGraph.Script.Names`
    * `FlowGraph.Script.Operand`
    * `FlowGraph.Script.Argument`
    * `FlowGraph.Script.NodeRef`
    * `FlowGraph.Script.Draft`
-/

------------------------------------------------------------
-- Names
------------------------------------------------------------

namespace FlowGraph.Script

/- The results that have a name, the latest first. -/
structure Names where
  values : List (String × Value)
  locals : List (String × Variable)
  nodes : List (String × Nat)
  deriving DecidableEq

namespace Names

/- No names. -/
def empty : Names :=
  ⟨[], [], []⟩

/- Name a value. -/
def bindValue
    (names : Names)
    (name : String)
    (v : Value) :
    Names :=
  { names with values := (name, v) :: names.values }

/- Name a variable. -/
def bindVariable
    (names : Names)
    (name : String)
    (v : Variable) :
    Names :=
  { names with locals := (name, v) :: names.locals }

/- Name a node. -/
def bindNode
    (names : Names)
    (name : String)
    (id : Nat) :
    Names :=
  { names with nodes := (name, id) :: names.nodes }

/- The variable with a name. -/
def findVariable
    (names : Names)
    (name : String) :
    Except Error Variable :=
  match names.locals.lookup name with
  | some v => .ok v
  | none => .error (.of (.unboundName .variable name))

/-
  The value with a name, or the current value of the
  variable with that name.
-/
def findValue
    (names : Names)
    (name : String) :
    Except Error Value :=
  match names.values.lookup name with
  | some v => .ok v
  | none =>
      match names.locals.lookup name with
      | some v => .ok v.value
      | none => .error (.of (.unboundName .value name))

/- The node with a name. -/
def findNode
    (names : Names)
    (name : String) :
    Except Error Nat :=
  match names.nodes.lookup name with
  | some id => .ok id
  | none => .error (.of (.unboundName .node name))

end Names

end FlowGraph.Script

------------------------------------------------------------
-- Nodes By Number Or Name
------------------------------------------------------------

namespace FlowGraph.Script

/- A node by its number or its name. -/
inductive NodeRef where
  | id (n : Nat)
  | name (s : String)
  deriving DecidableEq, Repr

/- The number of a node. -/
def NodeRef.eval
    (names : Names) :
    NodeRef → Except Error Nat
  | .id n => .ok n
  | .name s => names.findNode s

/- An exec output of a node given by number or name. -/
structure EndpointRef where
  node : NodeRef
  index : Nat
  deriving DecidableEq, Repr

/- The exec output itself. -/
def EndpointRef.eval
    (names : Names)
    (e : EndpointRef) :
    Except Error Endpoint := do
  let node ← e.node.eval names
  return ⟨node, e.index⟩

end FlowGraph.Script

------------------------------------------------------------
-- Operands
------------------------------------------------------------

namespace FlowGraph.Script

/-
  An operand: a value, a literal or a pin under a type name,
  a named value, or the handle of a named variable.
-/
inductive Operand where
  | value (v : Value)
  | literal (typeName : String) (l : Literal)
  | pin (typeName : String)
      (node : NodeRef) (slot : String) (index : Nat)
  | ref (name : String)
  | handle (name : String)
  deriving DecidableEq

/-
  The value of an operand.  A type name is read before the
  literal or the node that stands under it.
-/
def Operand.eval
    (names : Names) :
    Operand → Except Error Value
  | .value v => .ok v
  | .literal typeName l => do
      let t ← ValueType.parse typeName
      Value.literal t l
  | .pin typeName node slot index => do
      let t ← ValueType.parse typeName
      let id ← node.eval names
      return .pin t ⟨id, slot, index⟩
  | .ref name => names.findValue name
  | .handle name => do
      let v ← names.findVariable name
      return v.handle

/- An argument: a bare literal or an operand. -/
inductive Argument where
  | literal (l : Literal)
  | operand (o : Operand)
  deriving DecidableEq

/- The input that an argument stands for. -/
def Argument.eval
    (names : Names) :
    Argument → Except Error Input
  | .literal l => .ok (.literal l)
  | .operand o => do
      let v ← o.eval names
      return .value v

end FlowGraph.Script

------------------------------------------------------------
-- Drafts
------------------------------------------------------------

namespace FlowGraph.Script

/- A data output under a type name. -/
structure PinDraft where
  name : String
  typeName : String
  deriving DecidableEq, Repr

/- The data output itself. -/
def PinDraft.eval
    (pin : PinDraft) :
    Except Error OutputPin := do
  let t ← ValueType.parse pin.typeName
  return ⟨pin.name, t⟩

/-
  A node in terms of operands.  Unless said otherwise an
  exec node has one exec output and a data node none.
-/
structure Draft where
  nodeClass : NodeClass
  nodeType : String
  args : List Operand
  execOutputs : Option Nat
  outputs : List PinDraft
  deriving DecidableEq

/- The node itself.  Arguments come before outputs. -/
def Draft.eval
    (names : Names)
    (d : Draft) :
    Except Error Node := do
  let args ← d.args.mapM (Operand.eval names)
  let outputs ← d.outputs.mapM PinDraft.eval
  let usual :=
    match d.nodeClass with
    | .exec => 1
    | .data => 0
  return {
    nodeClass := d.nodeClass
    nodeType := d.nodeType
    args := args
    execOutputs := d.execOutputs.getD usual
    outputs := outputs }

end FlowGraph.Script
