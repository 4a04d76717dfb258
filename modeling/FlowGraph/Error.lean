import FlowGraph.Switch.Label

/-
  Why an operation was refused.

  Key definitions include:
    * `FlowGraph.Cause`
    * `FlowGraph.Error`
    * `FlowGraph.Error.message`
-/

------------------------------------------------------------
-- Type Mismatches
------------------------------------------------------------

namespace FlowGraph

/- What a type mismatch asked for. -/
inductive Expected where
  | type (t : ValueType)
  | typeName
  | number
  | label
  | list
  deriving DecidableEq

/- The text of what was asked for. -/
def Expected.text : Expected → String
  | .type t => t.name
  | .typeName => "a known type name"
  | .number => "int or float"
  | .label => "int or str"
  | .list => "a list"

/- What a type mismatch came upon. -/
inductive Found where
  | name (s : String)
  | literal (l : Literal)
  | value (v : Value)
  | type (t : ValueType)
  | case (l : Label)
  deriving DecidableEq

/- The text of what was found. -/
def Found.text : Found → String
  | .name s => s
  | .literal l => l.shape.name ++ " literal " ++ l.text
  | .value v => v.text
  | .type t => t.name
  | .case l => "case " ++ l.text

/- Advice that accompanies a type mismatch. -/
inductive Hint where
  | didYouMean (t : ValueType)
  | wrapInList
  | numericComponents
  | nonNegative
  deriving DecidableEq

/- The text of a hint. -/
def Hint.text : Hint → String
  | .didYouMean t => "did you mean `" ++ t.name ++ "`?"
  | .wrapInList => "wrap the value in a list"
  | .numericComponents => "vec3 components must be numbers"
  | .nonNegative => "ids are non-negative"

/-
  The hint for a value of type `found` where `expected` was
  asked for.
-/
def Hint.suggest?
    (expected found : ValueType) :
    Option Hint :=
  if expected.related found then
    some (.didYouMean found)
  else
    none

end FlowGraph

------------------------------------------------------------
-- Collections
------------------------------------------------------------

namespace FlowGraph

/- The collections that a node can assemble. -/
inductive Collection where
  | list
  | dictionary
  deriving DecidableEq, Repr

/- The node type that assembles a collection. -/
def Collection.name : Collection → String
  | .list => "assembly_list"
  | .dictionary => "assembly_dictionary"

/- The most entries that a collection takes. -/
def Collection.limit : Collection → Nat
  | .list => 100
  | .dictionary => 50

end FlowGraph

------------------------------------------------------------
-- Causes
------------------------------------------------------------

namespace FlowGraph

/- The tables in which a script keeps its names. -/
inductive NameKind where
  | value
  | variable
  | node
  deriving DecidableEq, Repr

/- The word for a kind of name. -/
def NameKind.word : NameKind → String
  | .value => "value"
  | .variable => "variable"
  | .node => "node"

/- The reasons for which an operation is refused. -/
inductive Cause where
  | typeMismatch
      (expected : Expected)
      (found : Found)
      (hint : Option Hint)
  | literalNotAllowed (t : ValueType)
  | continueOutsideLoop
  | breakOutsideLoop
  | notAnActiveLoop (node : Nat)
  | unknownCase (l : Label)
  | aliasCycle (path : List CaseKey)
  | duplicateCase (l : Label)
  | tooManyElements (c : Collection) (found : Nat)
  | emptyCollection (c : Collection)
  | unknownNode
  | notAnExecNode
  | execOutputOutOfRange (index : Nat)
  | execOutputAlreadyConnected (index : Nat)
  | unknownPin (slot : String) (index : Nat)
  | execCycle
  | invalidConfig
  | unboundName (kind : NameKind) (name : String)
  deriving DecidableEq

/- A node as it is named in messages. -/
def nodeText
    (id : Nat) :
    String :=
  "NodeId(" ++ id.repr ++ ")"

/- The text of a cause. -/
def Cause.text : Cause → String
  | .typeMismatch expected found hint =>
      "type mismatch: expected " ++ expected.text
        ++ ", found " ++ found.text
        ++ (match hint with
          | some h => " (" ++ h.text ++ ")"
          | none => "")
  | .literalNotAllowed t =>
      t.name
        ++ " values cannot be literals, they must come from a pin"
  | .continueOutsideLoop => "continue used outside of a loop"
  | .breakOutsideLoop => "break used outside of a loop"
  | .notAnActiveLoop node =>
      "node " ++ nodeText node ++ " is not an active loop"
  | .unknownCase l =>
      "alias refers to undeclared case `" ++ l.text ++ "`"
  | .aliasCycle path =>
      "circular case alias: "
        ++ String.intercalate " -> " (path.map CaseKey.text)
  | .duplicateCase l =>
      "case `" ++ l.text ++ "` declared more than once"
  | .tooManyElements c found =>
      c.name ++ " accepts at most " ++ c.limit.repr
        ++ " entries, got " ++ found.repr
  | .emptyCollection c => c.name ++ " requires at least one entry"
  | .unknownNode => "unknown node"
  | .notAnExecNode => "node is not an exec node"
  | .execOutputOutOfRange index =>
      "exec output " ++ index.repr ++ " does not exist"
  | .execOutputAlreadyConnected index =>
      "exec output " ++ index.repr ++ " is already connected"
  | .unknownPin slot index =>
      "pin `" ++ slot ++ "` at index " ++ index.repr
        ++ " does not exist"
  | .execCycle => "exec flow cycle detected"
  | .invalidConfig => "invalid config"
  | .unboundName kind name =>
      "unbound " ++ kind.word ++ " " ++ name

end FlowGraph

------------------------------------------------------------
-- Errors
------------------------------------------------------------

namespace FlowGraph

/- A refusal and the node that it concerns, if any. -/
structure Error where
  cause : Cause
  node : Option Nat
  deriving DecidableEq

namespace Error

/- A refusal that concerns no particular node. -/
def of
    (cause : Cause) :
    Error :=
  ⟨cause, none⟩

/- A refusal that concerns a node. -/
def onNode
    (cause : Cause)
    (node : Nat) :
    Error :=
  ⟨cause, some node⟩

/- The same refusal, blamed on a node. -/
def withNode
    (e : Error)
    (node : Nat) :
    Error :=
  ⟨e.cause, some node⟩

/- A type mismatch. -/
def mismatch
    (expected : Expected)
    (found : Found)
    (hint : Option Hint) :
    Error :=
  of (.typeMismatch expected found hint)

/-
  The message of a refusal.  An unbound name stands alone;
  every other cause is followed by the node.
-/
def message
    (e : Error) :
    String :=
  match e.cause with
  | .unboundName _ _ => e.cause.text
  | _ =>
      let node :=
        match e.node with
        | some id => "Some(" ++ nodeText id ++ ")"
        | none => "None"
      "compile failed: " ++ e.cause.text
        ++ " (node=" ++ node ++ ")"

end Error

end FlowGraph
