import FlowGraph.Number.Remainder
import FlowGraph.Operator
import FlowGraph.Value

/-
  Evaluation of operators on literals.

  Folding is best effort.  There is no result if an operand
  is not a literal, a whole number overflows, a float is not
  finite, or folding is switched off.

  Key definitions include:
    * `FlowGraph.Folding.ints`
    * `FlowGraph.Folding.floats`
    * `FlowGraph.Folding.binary`
    * `FlowGraph.Folding.unary`
-/

------------------------------------------------------------
-- Comparison
------------------------------------------------------------

namespace FlowGraph.Folding

/- Whether an ordering satisfies a comparison operator. -/
def compared
    (op : BinaryOp)
    (o : Ordering) :
    Option Bool :=
  match op with
  | .eq => some (o == .eq)
  | .ne => some (o != .eq)
  | .lt => some (o == .lt)
  | .le => some (o != .gt)
  | .gt => some (o == .gt)
  | .ge => some (o != .lt)
  | _ => none

/- How two floats compare, if they do. -/
def floatOrder?
    (x y : Float) :
    Option Ordering :=
  if x < y then some .lt
  else if y < x then some .gt
  else if x == y then some .eq
  else none

/- A float value, if it is finite. -/
def finite?
    (x : Float) :
    Option Value :=
  if x.isFinite then some (.float x) else none

end FlowGraph.Folding

------------------------------------------------------------
-- Operators On Literals
------------------------------------------------------------

namespace FlowGraph.Folding

/- A binary operator on whole numbers. -/
def ints
    (op : BinaryOp)
    (x y : Int64) :
    Option Value :=
  match op with
  | .add => (Number.Word.add? x y).map .int
  | .sub => (Number.Word.sub? x y).map .int
  | .mul => (Number.Word.mul? x y).map .int
  | .div => (Number.Word.div? x y).map .int
  | .mod => (Number.Word.rem? x y).map .int
  | _ => (compared op (compare x.toInt y.toInt)).map .bool

/- A binary operator on floats. -/
def floats
    (op : BinaryOp)
    (x y : Float) :
    Option Value :=
  match op with
  | .add => finite? (x + y)
  | .sub => finite? (x - y)
  | .mul => finite? (x * y)
  | .div => finite? (x / y)
  | .mod => finite? (Number.remainder x y)
  | _ => do
      let o ← floatOrder? x y
      (compared op o).map .bool

/- A binary operator on truth values. -/
def bools
    (op : BinaryOp)
    (x y : Bool) :
    Option Value :=
  match op with
  | .and => some (.bool (x && y))
  | .or => some (.bool (x || y))
  | .xor | .ne => some (.bool (x != y))
  | .eq => some (.bool (x == y))
  | _ => none

/- A binary operator on text. -/
def strs
    (op : BinaryOp)
    (x y : String) :
    Option Value :=
  match op with
  | .eq => some (.bool (x == y))
  | .ne => some (.bool (x != y))
  | _ => none

/- A binary operator on literals. -/
def literals
    (op : BinaryOp) :
    Literal → Literal → Option Value
  | .int x, .int y => ints op x y
  | .float x, .float y => floats op x y
  | .bool x, .bool y => bools op x y
  | .str x, .str y => strs op x y
  | _, _ => none

/- A unary operator on a literal. -/
def literal : UnaryOp → Literal → Option Value
  | .neg, .int x => (Number.Word.neg? x).map .int
  | .neg, .float x => finite? (-x)
  | .abs, .int x => (Number.Word.abs? x).map .int
  | .abs, .float x => finite? x.abs
  | .not, .bool x => some (.bool !x)
  | _, _ => none

end FlowGraph.Folding

------------------------------------------------------------
-- Operators On Values
------------------------------------------------------------

namespace FlowGraph.Folding

/-
  The literal that a binary operator yields.  The operands
  must be literals of one type.
-/
def binary
    (enabled : Bool)
    (op : BinaryOp)
    (a b : Value) :
    Option Value :=
  if enabled ∧ a.type = b.type then do
    let x ← a.literal?
    let y ← b.literal?
    literals op x y
  else
    none

/- The literal that a unary operator yields. -/
def unary
    (enabled : Bool)
    (op : UnaryOp)
    (a : Value) :
    Option Value :=
  if enabled then do
    let x ← a.literal?
    literal op x
  else
    none

end FlowGraph.Folding
