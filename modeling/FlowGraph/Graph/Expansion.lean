import FlowGraph.Catalog
import FlowGraph.Graph
import FlowGraph.Typing

/-
  Expansion of inline lists.

  A list literal among the arguments of a node becomes a
  node of its own that assembles the list.

  Key definitions include:
    * `FlowGraph.Collection.check`
    * `FlowGraph.Graph.inlineLists`
    * `FlowGraph.Graph.expandList`
    * `FlowGraph.Graph.expandLists`
-/

------------------------------------------------------------
-- Sizes
------------------------------------------------------------

namespace FlowGraph

/-
  Check that a collection has neither too few nor too many
  entries.
-/
def Collection.check
    (c : Collection)
    (found : Nat) :
    Except Error Unit :=
  if found = 0 then
    .error (.of (.emptyCollection c))
  else if c.limit < found then
    .error (.of (.tooManyElements c found))
  else
    .ok ()

end FlowGraph

------------------------------------------------------------
-- Inline Lists
------------------------------------------------------------

namespace FlowGraph

/- A list literal among the arguments of a node. -/
structure InlineList where
  node : Nat
  position : Nat
  element : Scalar
  items : List Literal

/- The items of a value that is an inline list. -/
def Value.inlineItems?
    (v : Value) :
    Option (Scalar × List Literal) :=
  match v.type, v.source with
  | .list s, .literal (.list items) => some (s, items)
  | _, _ => none

namespace Graph

/- The inline lists of a graph, by node and position. -/
def inlineLists
    (g : Graph) :
    List InlineList :=
  g.nodes.entries.flatMap fun (id, n) =>
    n.args.zipIdx.filterMap fun (v, position) =>
      v.inlineItems?.map fun (s, items) =>
        ⟨id, position, s, items⟩

/- Replace an argument of a node. -/
def replaceArg
    (g : Graph)
    (id : Nat)
    (position : Nat)
    (v : Value) :
    Graph :=
  { g with
    nodes := g.nodes.adjust id fun n =>
      { n with args := n.args.set position v } }

end Graph

end FlowGraph

------------------------------------------------------------
-- Expansion
------------------------------------------------------------

namespace FlowGraph.Graph

/- Give an inline list a node of its own. -/
def expandList
    (g : Graph)
    (inline : InlineList) :
    Except Error Graph := do
  match Collection.list.check inline.items.length with
  | .ok () => pure ()
  | .error e => throw (e.withNode inline.node)
  let args ← inline.items.mapM
    (Value.literal (.scalar inline.element))
  let (id, g) := g.add
    (Builtin.assemblyList.node args
      (some (.list inline.element)))
  let pin ← g.pinValue id "list" 0
  .ok (g.replaceArg inline.node inline.position pin)

/-
  Expand inline lists one after the other.  A refusal leaves
  those before it expanded.
-/
def expandEach : List InlineList → Graph →
    Except Error Unit × Graph
  | [], g => (.ok (), g)
  | inline :: rest, g =>
      match g.expandList inline with
      | .ok g => expandEach rest g
      | .error e => (.error e, g)

/- Expand all inline lists and count them. -/
def expandLists
    (g : Graph) :
    Except Error Nat × Graph :=
  let inline := g.inlineLists
  let (outcome, g) := expandEach inline g
  (outcome.map fun () => inline.length, g)

end FlowGraph.Graph
