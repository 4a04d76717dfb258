import FlowGraph.Operator
import FlowGraph.Catalog
import FlowGraph.Script.Operand
import FlowGraph.Switch

/-
  Scripts.

  A script is a list of statements.  An action is a single
  operation on the builder; the other statements have bodies
  of their own.

  Key definitions include:
    * `FlowGraph.Script.Binding`
    * `FlowGraph.Script.Action`
    * `FlowGraph.Script.Stmt`
-/

------------------------------------------------------------
-- Actions
------------------------------------------------------------

namespace FlowGraph.Script

/- The names under which a result is kept. -/
structure Binding where
  value : Option String
  node : Option String
  deriving DecidableEq, Repr

/- Keep nothing. -/
def Binding.none : Binding :=
  ⟨.none, .none⟩

/- The operations without a body. -/
inductive Action where
  | beginFunction (event : String)
  | placeOfType (nodeType : String) (args : List Operand)
  | addData
      (args : List Operand)
      (nodeType : String)
      (outputs : List PinDraft)
  | place (draft : Draft)
  | placeBuiltin
      (args : List Operand)
      (kind : Builtin)
      (dynamic : Option String)
  | addBuiltin
      (args : List Operand)
      (kind : Builtin)
      (dynamic : Option String)
  | pin (node : NodeRef) (slot : String) (index : Nat)
  | keep (operand : Operand)
  | binary (op : BinaryOp) (a b : Operand)
  | unary (op : UnaryOp) (a : Operand)
  | declare (initial : Operand)
  | set (name : String) (input : Argument)
  | print (input : Argument)
  | list (items : List Argument) (element : String)
  | dict
      (pairs : List (Argument × Argument))
      (key value : String)
  | breakLoop (loops : List NodeRef)
  | returnNow
  | continueLoop
  | sealPath (returning : Bool)
  | returnGate
  | gateVariable
  | setTail (tail : List EndpointRef)
  | linkFrom (node : NodeRef) (index : Nat)
  deriving DecidableEq

end FlowGraph.Script

------------------------------------------------------------
-- Statements
------------------------------------------------------------

namespace FlowGraph.Script

/- The statements of a script. -/
inductive Stmt where
  | action (bind : Binding) (a : Action)
  | function
      (bind : Binding)
      (event : String)
      (body : List Stmt)
  | ifThen
      (bind : Binding)
      (condition : Operand)
      (thenBody : List Stmt)
  | ifElse
      (bind : Binding)
      (condition : Operand)
      (thenBody elseBody : List Stmt)
  | switch
      (bind : Binding)
      (control : Operand)
      (cases : List (Label × Arm (List Stmt)))
      (default : Arm (List Stmt))
  | forRange
      (bind : Binding)
      (start stop : Argument)
      (body : List Stmt)
  | forEach
      (bind : Binding)
      (list : Operand)
      (body : List Stmt)
  | branch (node : NodeRef) (index : Nat) (body : List Stmt)
  | loop (node : NodeRef) (body : List Stmt)
  | attempt (body : List Stmt)

end FlowGraph.Script
