import FlowGraph.Graph
import FlowGraph.Graph.Search

/-
  Validity of a finished graph.

  Every link has to join exec nodes, every pin argument has
  to name an output of its type, and the exec flow must not
  run in a circle.

  Key definitions include:
    * `FlowGraph.Graph.checkArg`
    * `FlowGraph.Graph.successors`
    * `FlowGraph.Graph.cyclicNode?`
    * `FlowGraph.Graph.validate`
-/

------------------------------------------------------------
-- Links And Pins
------------------------------------------------------------

namespace FlowGraph.Graph

/- Check every link, in order. -/
def checkLinks
    (g : Graph) :
    Except Error Unit :=
  g.links.entries.forM fun (source, target) =>
    g.checkLink source target

/-
  Check that an argument of node `user` that is a pin names
  an output of the argument's type.
-/
def checkArg
    (g : Graph)
    (user : Nat)
    (arg : Value) :
    Except Error Unit :=
  match arg.pin? with
  | none => .ok ()
  | some p =>
      match g.nodes.get? p.node with
      | none => .error (.onNode .unknownNode user)
      | some n =>
          match n.output? p.slot p.index with
          | none =>
              .error
                (.onNode (.unknownPin p.slot p.index) user)
          | some pin =>
              if pin.type = arg.type then
                .ok ()
              else
                .error
                  ((Error.mismatch (.type arg.type)
                    (.type pin.type) none).withNode user)

/- Check the arguments of every node, in order. -/
def checkArgs
    (g : Graph) :
    Except Error Unit :=
  g.nodes.entries.forM fun (id, n) =>
    n.args.forM (g.checkArg id)

end FlowGraph.Graph

------------------------------------------------------------
-- Circles
------------------------------------------------------------

namespace FlowGraph.Graph

/- The targets of the links of each node, in order. -/
def successors
    (g : Graph) :
    Successors :=
  (g.links.entries.map fun (source, target) =>
    (source.node, target)).foldl Successors.add .empty

/- The smallest node from which the flow runs into a circle. -/
def cyclicNode?
    (g : Graph) :
    Option Nat :=
  Search.firstCyclic g.successors g.nodes.keys .new

end FlowGraph.Graph

------------------------------------------------------------
-- Validation
------------------------------------------------------------

namespace FlowGraph.Graph

/- Check links, then arguments, then the exec flow. -/
def validate
    (g : Graph) :
    Except Error Unit := do
  g.checkLinks
  g.checkArgs
  match g.cyclicNode? with
  | none => .ok ()
  | some id => .error (.onNode .execCycle id)

end FlowGraph.Graph
