import FlowGraph.Builder
import FlowGraph.Folding

/-
  Typed operations of a builder.

  Every operation checks all of its operands before it adds
  a node.

  Key definitions include:
    * `FlowGraph.Builder.declareVariable`
    * `FlowGraph.Builder.setVariable`
    * `FlowGraph.Builder.binary`
    * `FlowGraph.Builder.unary`
    * `FlowGraph.Builder.assembleList`
    * `FlowGraph.Builder.assembleDictionary`
-/

------------------------------------------------------------
-- Variables And Text
------------------------------------------------------------

namespace FlowGraph.Builder

/- Declare a local variable with an initial value. -/
def declareVariable
    (initial : Value) :
    Build Variable := do
  let node ←
    addBuiltin .getLocalVariable [initial] (some initial.type)
  let handle ← pinValue node "variable" 0
  let value ← pinValue node "value" 1
  return ⟨node, handle, value⟩

/- Write a local variable. -/
def setVariable
    (v : Variable)
    (input : Input) :
    Build Nat := do
  let value ← input.read v.value.type
  placeBuiltin .setLocalVariable [v.handle, value] none

/- Print text. -/
def printString
    (input : Input) :
    Build Nat := do
  let text ← input.read .str
  placeBuiltin .printString [text] none

end FlowGraph.Builder

------------------------------------------------------------
-- Operators
------------------------------------------------------------

namespace FlowGraph

/- A whole number literal that meets a float is a float. -/
def Value.widen
    (v other : Value) :
    Except Error Value :=
  match v.literal? with
  | some l =>
      if v.type = .int ∧ other.type = .float then
        Value.literal .float l
      else
        .ok v
  | none => .ok v

/- Check the operands that an operator takes. -/
def BinaryOp.checkOperand
    (op : BinaryOp)
    (a : Value) :
    Except Error Unit := do
  if op.isArithmetic || op.isOrdering then
    let _ ← a.expectNumber
  else if op.isLogical then
    let _ ← a.expect .bool

/- Check the operand that an operator takes. -/
def UnaryOp.checkOperand
    (op : UnaryOp)
    (a : Value) :
    Except Error Unit := do
  match op with
  | .neg | .abs => let _ ← a.expectNumber
  | .not => let _ ← a.expect .bool

/-
  The operands of a binary operator, widened to one type and
  checked.
-/
def BinaryOp.operands
    (op : BinaryOp)
    (a b : Value) :
    Except Error (Value × Value) := do
  let a ← a.widen b
  let b ← b.widen a
  let _ ← b.expect a.type
  op.checkOperand a
  return (a, b)

namespace Builder

/- Apply a binary operator, at once if that is possible. -/
def binary
    (op : BinaryOp)
    (a b : Value) :
    Build Value := do
  let (a, b) ← op.operands a b
  let config ← Process.read Builder.config
  match Folding.binary config.precompute op a b with
  | some v => return v
  | none =>
      let node ←
        addBuiltin (.binary op) [a, b]
          (some (op.resultType a.type))
      pinValue node "result" 0

/- Apply a unary operator, at once if that is possible. -/
def unary
    (op : UnaryOp)
    (a : Value) :
    Build Value := do
  op.checkOperand a
  let config ← Process.read Builder.config
  match Folding.unary config.precompute op a with
  | some v => return v
  | none =>
      let node ← addBuiltin (.unary op) [a] (some a.type)
      pinValue node "result" 0

end Builder

end FlowGraph

------------------------------------------------------------
-- Collections
------------------------------------------------------------

namespace FlowGraph.Builder

/- The items of a list as values of one type. -/
def readItems
    (t : ValueType)
    (items : List Input) :
    Except Error (List Value) :=
  items.mapM fun item => item.read t

/- Build a list. -/
def assembleList
    (element : Scalar)
    (items : List Input) :
    Build Value := do
  Collection.list.check items.length
  let args ← readItems (.scalar element) items
  let node ← addBuiltin .assemblyList args (some (.list element))
  pinValue node "list" 0

/- The key and the value of a pair. -/
def readPair
    (key value : ValueType)
    (pair : Input × Input) :
    Except Error (List Value) := do
  let k ← pair.1.read key
  let v ← pair.2.read value
  return [k, v]

/- The pairs of a dictionary, keys and values alternating. -/
def readPairs
    (key value : ValueType)
    (pairs : List (Input × Input)) :
    Except Error (List Value) := do
  let args ← pairs.mapM (readPair key value)
  return args.flatten

/- Build a dictionary. -/
def assembleDictionary
    (key value : ValueType)
    (pairs : List (Input × Input)) :
    Build Value := do
  Collection.dictionary.check pairs.length
  let args ← readPairs key value pairs
  let node ← addBuiltin .assemblyDictionary args none
  pinValue node "dictionary" 0

end FlowGraph.Builder

------------------------------------------------------------
-- Leaving Loops And Functions
------------------------------------------------------------

namespace FlowGraph.Builder

/- The loops that a break stops: the innermost by default. -/
def breakTargets
    (f : Frame)
    (loops : List Nat) :
    Except Error (List Nat) :=
  if loops.isEmpty then
    match f.loops with
    | [] => .error (.of .breakOutsideLoop)
    | innermost :: _ => .ok [innermost]
  else
    match loops.find? fun id => !f.isInside id with
    | some id => .error (.onNode (.notAnActiveLoop id) id)
    | none => .ok loops

/- Stop loops and end the current path. -/
def breakLoop
    (loops : List Nat) :
    Build Nat := do
  let f ← frameNow
  let targets ← breakTargets f loops
  let args := targets.map fun id => Value.int (Int64.ofNat id)
  let node ← placeBuiltin .breakLoop args none
  onFrame fun f => f.sealPath false
  return node

/-
  The variable that a return raises, declared when it is
  first needed.
-/
def returnGate : Build Variable := do
  let f ← frameNow
  match f.gate with
  | some gate => return gate
  | none =>
      let gate ← declareVariable (.bool false)
      onFrame fun f => f.setGate gate
      return gate

/-
  Return from the function: raise the gate, stop every loop
  around, and end the path.
-/
def returnNow : Build Unit := do
  let gate ← returnGate
  let _ ← setVariable gate (.literal (.bool true))
  let f ← frameNow
  if f.inLoop then
    let _ ← breakLoop f.loops
  onFrame fun f => f.sealPath true

/- End the current round of the innermost loop. -/
def continueLoop : Build Unit := do
  let f ← frameNow
  if f.inLoop then
    onFrame fun f => f.sealPath false
  else
    Process.refuse (.of .continueOutsideLoop)

end FlowGraph.Builder
