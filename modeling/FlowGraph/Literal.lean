import FlowGraph.Json
import FlowGraph.Number.Word

/-
  Values written inline.

  Key definitions include:
    * `FlowGraph.Literal`
    * `FlowGraph.Literal.Shape`
    * `FlowGraph.Literal.number?`
    * `FlowGraph.Literal.text`
    * `FlowGraph.Literal.toJson`
-/

------------------------------------------------------------
-- Literals
------------------------------------------------------------

namespace FlowGraph

/- A value that is known while a graph is being built. -/
inductive Literal where
  | bool (b : Bool)
  | int (i : Int64)
  | float (x : Float)
  | str (s : String)
  | vec3 (x y z : Float)
  | list (items : List Literal)

namespace Literal

/- The outermost form of a literal. -/
inductive Shape where
  | bool
  | int
  | float
  | str
  | vec3
  | list
  deriving DecidableEq, Repr

/- The name of a form. -/
def Shape.name : Shape → String
  | .bool => "bool"
  | .int => "int"
  | .float => "float"
  | .str => "str"
  | .vec3 => "vec3"
  | .list => "list"

/- The form of a literal. -/
def shape : Literal → Shape
  | .bool _ => .bool
  | .int _ => .int
  | .float _ => .float
  | .str _ => .str
  | .vec3 _ _ _ => .vec3
  | .list _ => .list

/- The literal as a float, if it is a number. -/
def number? : Literal → Option Float
  | .int i => some (Number.Word.toFloat i)
  | .float x => some x
  | _ => none

end Literal

end FlowGraph

------------------------------------------------------------
-- Equality
------------------------------------------------------------

namespace FlowGraph.Literal

mutual

/- Whether two literals are the same. -/
def decEq : (a b : Literal) → Decidable (a = b)
  | .bool a, .bool b => decidable_of_iff (a = b) (by simp)
  | .int a, .int b => decidable_of_iff (a = b) (by simp)
  | .float a, .float b => decidable_of_iff (a = b) (by simp)
  | .str a, .str b => decidable_of_iff (a = b) (by simp)
  | .vec3 a b c, .vec3 x y z =>
      decidable_of_iff (a = x ∧ b = y ∧ c = z) (by simp)
  | .list a, .list b =>
      match decEqItems a b with
      | isTrue h => isTrue (by rw [h])
      | isFalse h => isFalse (by simpa using h)
  | .bool _, .int _
  | .bool _, .float _
  | .bool _, .str _
  | .bool _, .vec3 _ _ _
  | .bool _, .list _
  | .int _, .bool _
  | .int _, .float _
  | .int _, .str _
  | .int _, .vec3 _ _ _
  | .int _, .list _
  | .float _, .bool _
  | .float _, .int _
  | .float _, .str _
  | .float _, .vec3 _ _ _
  | .float _, .list _
  | .str _, .bool _
  | .str _, .int _
  | .str _, .float _
  | .str _, .vec3 _ _ _
  | .str _, .list _
  | .vec3 _ _ _, .bool _
  | .vec3 _ _ _, .int _
  | .vec3 _ _ _, .float _
  | .vec3 _ _ _, .str _
  | .vec3 _ _ _, .list _
  | .list _, .bool _
  | .list _, .int _
  | .list _, .float _
  | .list _, .str _
  | .list _, .vec3 _ _ _ => isFalse nofun

/- Whether two lists of literals are the same. -/
def decEqItems : (a b : List Literal) → Decidable (a = b)
  | [], [] => isTrue rfl
  | [], _ :: _ | _ :: _, [] => isFalse nofun
  | a :: as, b :: bs =>
      match decEq a b, decEqItems as bs with
      | isTrue h, isTrue hs => isTrue (by rw [h, hs])
      | isFalse h, _ => isFalse (by simp [h])
      | _, isFalse hs => isFalse (by simp [hs])

end

instance : DecidableEq Literal :=
  decEq

end FlowGraph.Literal

------------------------------------------------------------
-- Text In Messages
------------------------------------------------------------

namespace FlowGraph.Literal

/-
  In messages floats are positional from `10 ^ -4` up to
  below `10 ^ 16`, an exponent has a sign only if it is
  negative, and a tie goes up.
-/
def floatLayout : Number.Layout :=
  ⟨-4, 16, "", .up⟩

/- The text of a float in messages. -/
def floatText
    (x : Float) :
    String :=
  if x.isNaN then "NaN"
  else if x.isInf then
    (if Number.isNegative x then "-inf" else "inf")
  else floatLayout.finite x

mutual

/- The text of a literal in messages. -/
def text : Literal → String
  | .bool b => Json.boolText b
  | .int i => i.toInt.repr
  | .float x => floatText x
  | .str s => Text.quoted s
  | .vec3 x y z =>
      "(" ++ floatText x ++ ", " ++ floatText y ++ ", "
        ++ floatText z ++ ")"
  | .list items => "[" ++ textItems items ++ "]"

/- The items of a list, separated by commas. -/
def textItems : List Literal → String
  | [] => ""
  | [item] => item.text
  | item :: rest => item.text ++ ", " ++ textItems rest

end

end FlowGraph.Literal

------------------------------------------------------------
-- Documents
------------------------------------------------------------

namespace FlowGraph.Literal

/- A float as a document.  Only finite floats are numbers. -/
def floatJson
    (x : Float) :
    Json :=
  if x.isFinite then .float x else .null

mutual

/- A literal as a document, without a mark of its form. -/
def toJson : Literal → Json
  | .bool b => .bool b
  | .int i => .int i.toInt
  | .float x => floatJson x
  | .str s => .str s
  | .vec3 x y z =>
      .arr [floatJson x, floatJson y, floatJson z]
  | .list items => .arr (toJsonItems items)

/- The items of a list as documents. -/
def toJsonItems : List Literal → List Json
  | [] => []
  | item :: rest => item.toJson :: toJsonItems rest

end

end FlowGraph.Literal
