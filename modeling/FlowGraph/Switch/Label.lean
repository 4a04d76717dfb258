import FlowGraph.Value

/-
  Labels of a switch.

  Key definitions include:
    * `FlowGraph.Label`
    * `FlowGraph.CaseKey`
-/

------------------------------------------------------------
-- Labels
------------------------------------------------------------

namespace FlowGraph

/- The label of a case. -/
inductive Label where
  | int (i : Int64)
  | str (s : String)
  deriving DecidableEq

namespace Label

/- The label as a value. -/
def value : Label → Value
  | .int i => .int i
  | .str s => .str s

/- The type of the label. -/
def type : Label → ValueType
  | .int _ => .int
  | .str _ => .str

/- The text of a label in messages. -/
def text : Label → String
  | .int i => i.toInt.repr
  | .str s => Text.quoted s

end Label

/- A branch of a switch: the default or a labelled case. -/
inductive CaseKey where
  | default
  | label (l : Label)
  deriving DecidableEq

/- The text of a branch in messages. -/
def CaseKey.text : CaseKey → String
  | .default => "default"
  | .label l => l.text

end FlowGraph
