import FlowGraph.ValueType

/-
  Operators on values.

  Key definitions include:
    * `FlowGraph.BinaryOp`
    * `FlowGraph.UnaryOp`
    * `FlowGraph.BinaryOp.resultType`
-/

------------------------------------------------------------
-- Binary Operators
------------------------------------------------------------

namespace FlowGraph

/- The operators with two operands. -/
inductive BinaryOp where
  | add
  | sub
  | mul
  | div
  | mod
  | eq
  | ne
  | lt
  | le
  | gt
  | ge
  | and
  | or
  | xor
  deriving DecidableEq, Repr

namespace BinaryOp

/- Every binary operator. -/
def all : List BinaryOp :=
  [.add, .sub, .mul, .div, .mod, .eq, .ne, .lt, .le, .gt,
    .ge, .and, .or, .xor]

/- The node type that applies an operator. -/
def nodeType : BinaryOp → String
  | .add => "addition"
  | .sub => "subtraction"
  | .mul => "multiplication"
  | .div => "division"
  | .mod => "modulo"
  | .eq => "equal"
  | .ne => "not_equal"
  | .lt => "less_than"
  | .le => "less_than_or_equal"
  | .gt => "greater_than"
  | .ge => "greater_than_or_equal"
  | .and => "logical_and"
  | .or => "logical_or"
  | .xor => "logical_xor"

/- Whether the result is a number. -/
def isArithmetic : BinaryOp → Bool
  | .add | .sub | .mul | .div | .mod => true
  | _ => false

/- Whether numbers are compared by size. -/
def isOrdering : BinaryOp → Bool
  | .lt | .le | .gt | .ge => true
  | _ => false

/- Whether the operands are truth values. -/
def isLogical : BinaryOp → Bool
  | .and | .or | .xor => true
  | _ => false

/- The type of the result for operands of a type. -/
def resultType
    (op : BinaryOp)
    (operand : ValueType) :
    ValueType :=
  if op.isArithmetic then operand else .bool

end BinaryOp

end FlowGraph

------------------------------------------------------------
-- Unary Operators
------------------------------------------------------------

namespace FlowGraph

/- The operators with one operand. -/
inductive UnaryOp where
  | neg
  | abs
  | not
  deriving DecidableEq, Repr

namespace UnaryOp

/- Every unary operator. -/
def all : List UnaryOp :=
  [.neg, .abs, .not]

/- The node type that applies an operator. -/
def nodeType : UnaryOp → String
  | .neg => "negation"
  | .abs => "absolute_value"
  | .not => "logical_not"

end UnaryOp

end FlowGraph
