/-
  Types of the values that flow between nodes.

  A type is a scalar, a list of a scalar, or one of two
  kinds of variable handle.

  Key definitions include:
    * `FlowGraph.Scalar`
    * `FlowGraph.ValueType`
    * `FlowGraph.ValueType.name`
    * `FlowGraph.ValueType.ofName?`
    * `FlowGraph.ValueType.related`
-/

------------------------------------------------------------
-- Scalars
------------------------------------------------------------

namespace FlowGraph

/- The scalar types. -/
inductive Scalar where
  | bool
  | int
  | float
  | str
  | vec3
  | guid
  | entity
  | faction
  | configId
  | prefabId
  | record
  | dict
  | enumeration
  | generic
  deriving DecidableEq, Repr

namespace Scalar

/- Every scalar type, in the order in which they compare. -/
def all : List Scalar :=
  [.bool, .int, .float, .str, .vec3, .guid, .entity,
    .faction, .configId, .prefabId, .record, .dict,
    .enumeration, .generic]

/- The name under which a scalar type is written. -/
def name : Scalar → String
  | .bool => "bool"
  | .int => "int"
  | .float => "float"
  | .str => "str"
  | .vec3 => "vec3"
  | .guid => "guid"
  | .entity => "entity"
  | .faction => "faction"
  | .configId => "config_id"
  | .prefabId => "prefab_id"
  | .record => "struct"
  | .dict => "dict"
  | .enumeration => "enum"
  | .generic => "generic"

/- Whether arithmetic applies to the type. -/
def isNumeric : Scalar → Bool
  | .int | .float => true
  | _ => false

/- Whether a value of the type may be written inline. -/
def acceptsLiteral : Scalar → Bool
  | .entity | .record | .dict | .generic => false
  | _ => true

/- Whether the type identifies something by a number. -/
def isIdentifier : Scalar → Bool
  | .guid | .faction | .configId | .prefabId => true
  | _ => false

end Scalar

end FlowGraph

------------------------------------------------------------
-- Value Types
------------------------------------------------------------

namespace FlowGraph

/- The type of a value. -/
inductive ValueType where
  | scalar (s : Scalar)
  | list (element : Scalar)
  | localVariable
  | customVariableSnapshot
  deriving DecidableEq, Repr

namespace ValueType

/- Truth values. -/
abbrev bool : ValueType := .scalar .bool

/- Whole numbers. -/
abbrev int : ValueType := .scalar .int

/- Floating-point numbers. -/
abbrev float : ValueType := .scalar .float

/- Text. -/
abbrev str : ValueType := .scalar .str

/- Whether the type is a list type. -/
def isList : ValueType → Bool
  | .list _ => true
  | _ => false

/- The type of a list's elements. -/
def element? : ValueType → Option ValueType
  | .list s => some (.scalar s)
  | _ => none

/- The type of lists of a scalar type. -/
def listOf? : ValueType → Option ValueType
  | .scalar s => some (.list s)
  | _ => none

/- The scalar type that a type is made from. -/
def base? : ValueType → Option Scalar
  | .scalar s | .list s => some s
  | _ => none

/- Whether the type is a scalar number type. -/
def isNumeric : ValueType → Bool
  | .scalar s => s.isNumeric
  | _ => false

/-
  Whether one type is likely to be meant where the other is
  written: they share their scalar, or both are made from
  numbers.
-/
def related
    (a b : ValueType) :
    Bool :=
  match a.base?, b.base? with
  | some s, some t => s == t || (s.isNumeric && t.isNumeric)
  | _, _ => false

end ValueType

end FlowGraph

------------------------------------------------------------
-- Names
------------------------------------------------------------

namespace FlowGraph.ValueType

/- The name under which a type is written. -/
def name : ValueType → String
  | .scalar s => s.name
  | .list s => s.name ++ "_list"
  | .localVariable => "local_variable"
  | .customVariableSnapshot => "custom_variable_snapshot"

/- Every type, scalars first. -/
def all : List ValueType :=
  Scalar.all.map .scalar ++ Scalar.all.map .list
    ++ [.localVariable, .customVariableSnapshot]

/-
  The type with a given name.  Enumerations may also be
  spelled out.
-/
def ofName?
    (s : String) :
    Option ValueType :=
  if s = "enumeration" then
    some (.scalar .enumeration)
  else if s = "enumeration_list" then
    some (.list .enumeration)
  else
    all.find? fun t => t.name = s

end FlowGraph.ValueType

------------------------------------------------------------
-- Order
------------------------------------------------------------

namespace FlowGraph.ValueType

/-
  The place of a type in the order of all types: scalars,
  lists, then the two variable handles.
-/
def rank
    (t : ValueType) :
    Nat :=
  all.idxOf t

/- How two types compare. -/
def order
    (a b : ValueType) :
    Ordering :=
  compare a.rank b.rank

end FlowGraph.ValueType
