import FlowGraph.Node
import FlowGraph.Operator

/-
  The catalog of built-in node types.

  Key definitions include:
    * `FlowGraph.Builtin`
    * `FlowGraph.Builtin.all`
    * `FlowGraph.Builtin.ofName?`
    * `FlowGraph.Builtin.node`
-/

------------------------------------------------------------
-- Node Types
------------------------------------------------------------

namespace FlowGraph

/- The built-in node types. -/
inductive Builtin where
  | graphEntry
  | doubleBranch
  | multipleBranches
  | finiteLoop
  | listIterationLoop
  | breakLoop
  | getLocalVariable
  | setLocalVariable
  | printString
  | assemblyList
  | assemblyDictionary
  | binary (op : BinaryOp)
  | unary (op : UnaryOp)
  deriving DecidableEq, Repr

namespace Builtin

/- Every built-in node type. -/
def all : List Builtin :=
  [.graphEntry, .doubleBranch, .multipleBranches,
    .finiteLoop, .listIterationLoop, .breakLoop,
    .getLocalVariable, .setLocalVariable, .printString,
    .assemblyList, .assemblyDictionary]
    ++ BinaryOp.all.map .binary ++ UnaryOp.all.map .unary

/- The name of a node type. -/
def name : Builtin → String
  | .graphEntry => "graph_entry"
  | .doubleBranch => "double_branch"
  | .multipleBranches => "multiple_branches"
  | .finiteLoop => "finite_loop"
  | .listIterationLoop => "list_iteration_loop"
  | .breakLoop => "break_loop"
  | .getLocalVariable => "get_local_variable"
  | .setLocalVariable => "set_local_variable"
  | .printString => "print_string"
  | .assemblyList => "assembly_list"
  | .assemblyDictionary => "assembly_dictionary"
  | .binary op => op.nodeType
  | .unary op => op.nodeType

/- The built-in node type with a given name. -/
def ofName?
    (s : String) :
    Option Builtin :=
  all.find? fun b => b.name = s

end Builtin

end FlowGraph

------------------------------------------------------------
-- Descriptions
------------------------------------------------------------

namespace FlowGraph

/- The headings under which node types are listed. -/
inductive Category where
  | event
  | flowControl
  | variable
  | math
  | logic
  | collection
  | utility
  deriving DecidableEq, Repr

/- The text of a heading. -/
def Category.title : Category → String
  | .event => "Events"
  | .flowControl => "Flow Control"
  | .variable => "Variables"
  | .math => "Math"
  | .logic => "Logic"
  | .collection => "Collections"
  | .utility => "Utilities"

namespace Builtin

/- The heading of a node type. -/
def category : Builtin → Category
  | .graphEntry => .event
  | .doubleBranch | .multipleBranches | .finiteLoop
  | .listIterationLoop | .breakLoop => .flowControl
  | .getLocalVariable | .setLocalVariable => .variable
  | .printString => .utility
  | .assemblyList | .assemblyDictionary => .collection
  | .binary op => if op.isArithmetic then .math else .logic
  | .unary .not => .logic
  | .unary _ => .math

/- What a node type does, for people. -/
def description : Builtin → String
  | .graphEntry =>
      "Fires when the named event or function is invoked."
  | .doubleBranch =>
      "Executes one of two paths based on a boolean condition."
  | .multipleBranches =>
      "Executes the path matching the control value, "
        ++ "or the default path."
  | .finiteLoop =>
      "Runs the loop body once for every value "
        ++ "from start to end."
  | .listIterationLoop =>
      "Runs the loop body once for every element of a list."
  | .breakLoop =>
      "Stops the listed loops; each of them fires its "
        ++ "completion output."
  | .getLocalVariable =>
      "Declares a local variable and reads its current value."
  | .setLocalVariable =>
      "Writes a new value into a local variable."
  | .printString => "Prints a string to the output log."
  | .assemblyList =>
      "Builds a list from up to 100 elements of one type."
  | .assemblyDictionary =>
      "Builds a dictionary from up to 50 key/value pairs."
  | .binary _ | .unary _ => ""

end Builtin

end FlowGraph

------------------------------------------------------------
-- Outputs
------------------------------------------------------------

namespace FlowGraph

/- How many exec outputs a node type has. -/
inductive ExecOutputs where
  | fixed (n : Nat)
  | perCase
  deriving DecidableEq, Repr

/-
  A data output of a node type.  Without a type of its own
  it takes the type decided where the node is used.
-/
structure PinSpec where
  name : String
  type : Option ValueType
  deriving DecidableEq, Repr

/- The output that a node gets for a pin of its type. -/
def PinSpec.pin
    (spec : PinSpec)
    (dynamic : Option ValueType) :
    OutputPin :=
  ⟨spec.name, spec.type.getD (dynamic.getD (.scalar .generic))⟩

namespace Builtin

/- The class of a node type. -/
def nodeClass : Builtin → NodeClass
  | .getLocalVariable | .assemblyList | .assemblyDictionary
  | .binary _ | .unary _ => .data
  | _ => .exec

/-
  The exec outputs of a node type.  A switch has one for the
  default and one for every case.
-/
def execOutputs : Builtin → ExecOutputs
  | .doubleBranch | .finiteLoop | .listIterationLoop =>
      .fixed 2
  | .multipleBranches => .perCase
  | .breakLoop => .fixed 0
  | b =>
      match b.nodeClass with
      | .exec => .fixed 1
      | .data => .fixed 0

/- The data outputs of a node type. -/
def outputs : Builtin → List PinSpec
  | .finiteLoop => [⟨"current_loop_value", some .int⟩]
  | .listIterationLoop => [⟨"iteration_value", none⟩]
  | .getLocalVariable =>
      [⟨"variable", some .localVariable⟩, ⟨"value", none⟩]
  | .assemblyList => [⟨"list", none⟩]
  | .assemblyDictionary =>
      [⟨"dictionary", some (.scalar .dict)⟩]
  | .binary _ | .unary _ => [⟨"result", none⟩]
  | _ => []

/- Whether nodes of the type start a function. -/
def isEntry : Builtin → Bool
  | .graphEntry => true
  | _ => false

/-
  The number of exec outputs of a node with given arguments.
  The arguments of a switch are its control value and its
  labels, so they are as many as its outputs.
-/
def execOutputCount
    (b : Builtin)
    (args : List Value) :
    Nat :=
  match b.execOutputs with
  | .fixed n => n
  | .perCase => args.length

/-
  A node of the type.  `dynamic` is the type of the outputs
  that have none of their own.
-/
def node
    (b : Builtin)
    (args : List Value)
    (dynamic : Option ValueType) :
    Node :=
  { nodeClass := b.nodeClass
    nodeType := b.name
    args := args
    execOutputs := b.execOutputCount args
    outputs := b.outputs.map fun spec => spec.pin dynamic }

end Builtin

end FlowGraph
