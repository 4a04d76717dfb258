import FlowGraph.Literal
import FlowGraph.ValueType

/-
  Typed values.

  A value is a literal or refers to an output pin of a node.
  Either way it carries its type.

  Key definitions include:
    * `FlowGraph.PinRef`
    * `FlowGraph.Source`
    * `FlowGraph.Value`
    * `FlowGraph.Value.text`
    * `FlowGraph.Value.toJson`
-/

------------------------------------------------------------
-- Values
------------------------------------------------------------

namespace FlowGraph

/- An output pin of a node, which is known by its number. -/
structure PinRef where
  node : Nat
  slot : String
  index : Nat
  deriving DecidableEq, Repr

/- Where a value comes from. -/
inductive Source where
  | literal (l : Literal)
  | pin (p : PinRef)
  deriving DecidableEq

/- A typed value. -/
structure Value where
  type : ValueType
  source : Source
  deriving DecidableEq

namespace Value

/- The value of an output pin. -/
def pin
    (type : ValueType)
    (p : PinRef) :
    Value :=
  ⟨type, .pin p⟩

/- A truth value. -/
def bool
    (b : Bool) :
    Value :=
  ⟨.bool, .literal (.bool b)⟩

/- A whole number. -/
def int
    (i : Int64) :
    Value :=
  ⟨.int, .literal (.int i)⟩

/- A floating-point number. -/
def float
    (x : Float) :
    Value :=
  ⟨.float, .literal (.float x)⟩

/- Text. -/
def str
    (s : String) :
    Value :=
  ⟨.str, .literal (.str s)⟩

/- The literal behind a value. -/
def literal?
    (v : Value) :
    Option Literal :=
  match v.source with
  | .literal l => some l
  | .pin _ => none

/- The pin behind a value. -/
def pin?
    (v : Value) :
    Option PinRef :=
  match v.source with
  | .literal _ => none
  | .pin p => some p

/- Whether a value is a literal. -/
def isLiteral
    (v : Value) :
    Bool :=
  v.literal?.isSome

end Value

end FlowGraph

------------------------------------------------------------
-- Text And Documents
------------------------------------------------------------

namespace FlowGraph.Value

/- The text of a value in messages. -/
def text
    (v : Value) :
    String :=
  match v.source with
  | .literal l => v.type.name ++ " literal " ++ l.text
  | .pin p =>
      v.type.name ++ " pin (node " ++ p.node.repr ++ " `"
        ++ p.slot ++ "`[" ++ p.index.repr ++ "])"

/- A value as a document. -/
def toJson
    (v : Value) :
    Json :=
  let type := ("type", Json.str v.type.name)
  match v.source with
  | .literal l =>
      .obj [type, ("kind", .str "literal"),
        ("value", l.toJson)]
  | .pin p =>
      .obj [type, ("kind", .str "pin"),
        ("node", .int p.node), ("slot", .str p.slot),
        ("source_index", .int p.index)]

end FlowGraph.Value

------------------------------------------------------------
-- Local Variables
------------------------------------------------------------

namespace FlowGraph

/-
  A local variable: the node that declares it, the handle by
  which it is written, and its current value.
-/
structure Variable where
  node : Nat
  handle : Value
  value : Value
  deriving DecidableEq

end FlowGraph
