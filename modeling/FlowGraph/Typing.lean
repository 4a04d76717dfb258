import FlowGraph.Error

/-
  Agreement of literals and values with types.

  A literal is accepted at a type if it has the form that
  the type asks for.  Acceptance may adapt it: a whole
  number becomes a float where a float is asked for, and
  three numbers become a vector.

  Key definitions include:
    * `FlowGraph.ValueType.parse`
    * `FlowGraph.Literal.conform`
    * `FlowGraph.Value.literal`
    * `FlowGraph.Value.expect`
    * `FlowGraph.Input.read`
-/

------------------------------------------------------------
-- Type Names
------------------------------------------------------------

namespace FlowGraph

/- Read a type name. -/
def ValueType.parse
    (s : String) :
    Except Error ValueType :=
  match ofName? s with
  | some t => .ok t
  | none => .error (.mismatch .typeName (.name s) none)

end FlowGraph

------------------------------------------------------------
-- Literals
------------------------------------------------------------

namespace FlowGraph.Literal

/- The refusal of a literal at a scalar type. -/
def refuse
    (s : Scalar)
    (l : Literal)
    (hint : Option Hint) :
    Error :=
  .mismatch (.type (.scalar s)) (.literal l) hint

/- A component of a vector. -/
def component
    (l : Literal) :
    Except Error Float :=
  match l.number? with
  | some x => .ok x
  | none => .error (refuse .vec3 l (some .numericComponents))

/- A literal of a scalar type that may be written inline. -/
def conformInline : Scalar → Literal → Except Error Literal
  | .bool, .bool b => .ok (.bool b)
  | .int, .int i => .ok (.int i)
  | .int, .float x =>
      .error
        (refuse .int (.float x) (some (.didYouMean .float)))
  | .float, .float x => .ok (.float x)
  | .float, .int i => .ok (.float (Number.Word.toFloat i))
  | .str, .str s => .ok (.str s)
  | .enumeration, .str s => .ok (.str s)
  | .vec3, .vec3 x y z => .ok (.vec3 x y z)
  | .vec3, .list [a, b, c] => do
      let x ← component a
      let y ← component b
      let z ← component c
      .ok (.vec3 x y z)
  | s, .list items =>
      .error
        (refuse s (.list items) (some (.didYouMean (.list s))))
  | s, .int i =>
      if s.isIdentifier then
        if i < 0 then
          .error (refuse s (.int i) (some .nonNegative))
        else
          .ok (.int i)
      else
        .error (refuse s (.int i) none)
  | s, l => .error (refuse s l none)

/- A literal of a scalar type. -/
def conformScalar
    (s : Scalar)
    (l : Literal) :
    Except Error Literal :=
  if s.acceptsLiteral then
    conformInline s l
  else
    .error (.of (.literalNotAllowed (.scalar s)))

/-
  The literal as a literal of type `t`.  The items of a list
  are taken in order, and the first refused one decides.
-/
def conform : ValueType → Literal → Except Error Literal
  | .scalar s, l => conformScalar s l
  | .list s, .list items => do
      let items ← items.mapM (conformScalar s)
      .ok (.list items)
  | .list s, l =>
      .error
        (.mismatch (.type (.list s)) (.literal l)
          (some .wrapInList))
  | .localVariable, _ =>
      .error (.of (.literalNotAllowed .localVariable))
  | .customVariableSnapshot, _ =>
      .error (.of (.literalNotAllowed .customVariableSnapshot))

end FlowGraph.Literal

------------------------------------------------------------
-- Values
------------------------------------------------------------

namespace FlowGraph.Value

/- A literal value of type `t`. -/
def literal
    (t : ValueType)
    (l : Literal) :
    Except Error Value := do
  let l ← l.conform t
  .ok ⟨t, .literal l⟩

/- The value itself, provided that it has type `t`. -/
def expect
    (v : Value)
    (t : ValueType) :
    Except Error Value :=
  if v.type = t then
    .ok v
  else
    .error
      (.mismatch (.type t) (.value v) (Hint.suggest? t v.type))

/- The value itself, provided that it is a number. -/
def expectNumber
    (v : Value) :
    Except Error Value :=
  if v.type.isNumeric then
    .ok v
  else
    .error (.mismatch .number (.value v) none)

end FlowGraph.Value

------------------------------------------------------------
-- Inputs
------------------------------------------------------------

namespace FlowGraph

/- An argument: a bare literal, or a value made earlier. -/
inductive Input where
  | literal (l : Literal)
  | value (v : Value)
  deriving DecidableEq

/- The argument as a value of type `t`. -/
def Input.read
    (input : Input)
    (t : ValueType) :
    Except Error Value :=
  match input with
  | .literal l => Value.literal t l
  | .value v => v.expect t

end FlowGraph
