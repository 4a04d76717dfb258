import FlowGraph.Script.Control
import FlowGraph.Script.Stmt

/-
  Running scripts.

  A refused statement ends the body that it is in, and the
  refusal goes outwards until an attempt or the top level
  stops it.  Every statement leaves a journal entry.

  Key definitions include:
    * `FlowGraph.Script.Action.prepare`
    * `FlowGraph.Script.runStmt`
    * `FlowGraph.Script.runBlock`
    * `FlowGraph.Script.run`
-/

------------------------------------------------------------
-- Actions
------------------------------------------------------------

namespace FlowGraph.Script

/- The scalar type with a given name. -/
def parseScalar
    (s : String) :
    Except Error Scalar := do
  match ← ValueType.parse s with
  | .scalar e => return e
  | _ => throw (.mismatch .typeName (.name s) none)

/- The type with a given name, if there is a name. -/
def parseDynamic : Option String →
    Except Error (Option ValueType)
  | none => return none
  | some s => do
      let t ← ValueType.parse s
      return some t

/- A pair of arguments. -/
def evalPair
    (names : Names)
    (pair : Argument × Argument) :
    Except Error (Input × Input) := do
  let a ← pair.1.eval names
  let b ← pair.2.eval names
  return (a, b)

namespace Action

/- A step whose result is a node. -/
def ofNode
    (m : Build Nat) :
    Build Result := do
  let id ← m
  return .node id

/- A step whose result is a value. -/
def ofValue
    (m : Build Value) :
    Build Result := do
  let v ← m
  return .value v

/- A step whose result is a variable. -/
def ofVariable
    (m : Build Variable) :
    Build Result := do
  let v ← m
  return .variable v

/- A step whose result is a return gate. -/
def ofGate
    (m : Build Variable) :
    Build Result := do
  let v ← m
  return .gate v

/- A step without a result. -/
def ofUnit
    (m : Build Unit) :
    Build Result := do
  m
  return .none

/-
  The step on the builder that an action stands for.  The
  operands are evaluated from left to right before it.
-/
def prepare
    (names : Names) :
    Action → Except Error (Build Result)
  | .beginFunction event =>
      return ofNode (Builder.beginFunction event)
  | .placeOfType nodeType args => do
      let args ← args.mapM (Operand.eval names)
      return ofNode (Builder.placeOfType nodeType args)
  | .addData args nodeType outputs => do
      let args ← args.mapM (Operand.eval names)
      let outputs ← outputs.mapM PinDraft.eval
      return ofNode (Builder.addData nodeType args outputs)
  | .place draft => do
      let n ← draft.eval names
      return ofNode (Builder.place n)
  | .placeBuiltin args kind dynamic => do
      let args ← args.mapM (Operand.eval names)
      let dynamic ← parseDynamic dynamic
      return ofNode (Builder.placeBuiltin kind args dynamic)
  | .addBuiltin args kind dynamic => do
      let args ← args.mapM (Operand.eval names)
      let dynamic ← parseDynamic dynamic
      return ofNode (Builder.addBuiltin kind args dynamic)
  | .pin node slot index => do
      let id ← node.eval names
      return ofValue (Builder.pinValue id slot index)
  | .keep operand => do
      let v ← operand.eval names
      return ofValue (pure v)
  | .binary op a b => do
      let a ← a.eval names
      let b ← b.eval names
      return ofValue (Builder.binary op a b)
  | .unary op a => do
      let a ← a.eval names
      return ofValue (Builder.unary op a)
  | .declare initial => do
      let v ← initial.eval names
      return ofVariable (Builder.declareVariable v)
  | .set name input => do
      let v ← names.findVariable name
      let input ← input.eval names
      return ofNode (Builder.setVariable v input)
  | .print input => do
      let input ← input.eval names
      return ofNode (Builder.printString input)
  | .list items element => do
      let items ← items.mapM (Argument.eval names)
      let element ← parseScalar element
      return ofValue (Builder.assembleList element items)
  | .dict pairs key value => do
      let pairs ← pairs.mapM (evalPair names)
      let key ← ValueType.parse key
      let value ← ValueType.parse value
      return ofValue
        (Builder.assembleDictionary key value pairs)
  | .breakLoop loops => do
      let loops ← loops.mapM (NodeRef.eval names)
      return ofNode (Builder.breakLoop loops)
  | .returnNow => return ofUnit Builder.returnNow
  | .continueLoop => return ofUnit Builder.continueLoop
  | .sealPath returning =>
      return ofUnit
        (Builder.onFrame fun f => f.sealPath returning)
  | .returnGate => return ofGate Builder.returnGate
  | .gateVariable => return ofVariable Builder.returnGate
  | .setTail tail => do
      let tail ← tail.mapM (EndpointRef.eval names)
      return ofUnit (Builder.onFrame fun f => f.setTail tail)
  | .linkFrom node index => do
      let id ← node.eval names
      return ofUnit
        (Builder.onFrame fun f => f.linkFrom id index)

/- Run an action. -/
def run
    (a : Action) :
    Run Result := do
  let step ← resolved fun names => a.prepare names
  step

end Action

end FlowGraph.Script

------------------------------------------------------------
-- Names And Entries
------------------------------------------------------------

namespace FlowGraph.Script

/- Keep something under a name, if there is one. -/
def keepAs
    {α : Type}
    (bind : Names → String → α → Names)
    (name : Option String)
    (a : α) :
    Run Unit :=
  match name with
  | some name =>
      Process.update fun s =>
        { s with names := bind s.names name a }
  | none => Process.yield ()

/-
  Keep a result.  A gate is shown but not kept; it is kept as
  a variable if it is asked for as one.
-/
def keepResult
    (bind : Binding) :
    Result → Run Unit
  | .node id => keepAs Names.bindNode bind.node id
  | .value v => keepAs Names.bindValue bind.value v
  | .variable v => keepAs Names.bindVariable bind.value v
  | _ => Process.yield ()

/- Keep the node of a loop and the value of its rounds. -/
def keepLoop
    (bind : Binding)
    (node : Nat)
    (value : Value) :
    Run Unit := do
  keepAs Names.bindValue bind.value value
  keepAs Names.bindNode bind.node node

/- Run a statement, keep its result and journal it. -/
def journaled
    (path : Path)
    (bind : Binding)
    (m : Run Result) :
    Run Unit := do
  match ← m.observe with
  | .ok r =>
      keepResult bind r
      note path (.finished r)
  | .error e =>
      note path (.failed e)
      Process.refuse e

/- Run a body after journaling that it was entered. -/
def entered
    (path : Path)
    (body : Run Unit) :
    Run Unit := do
  note path .entered
  body

end FlowGraph.Script

------------------------------------------------------------
-- Statements
------------------------------------------------------------

namespace FlowGraph.Script

mutual

/- Run a statement. -/
def runStmt (path : Path) : Stmt → Run Unit
  | .action bind a => journaled path bind a.run
  | .function bind event body =>
      let inner := path ++ [.function]
      journaled path bind do
        let id ← inFunction event
          (entered inner (runBlock inner 0 body))
        return .node id
  | .ifThen bind condition thenBody =>
      let inner := path ++ [.thenBody]
      journaled path bind do
        let c ← resolved fun names => condition.eval names
        let id ← conditional c
          (entered inner (runBlock inner 0 thenBody))
          (Process.yield ())
        return .node id
  | .ifElse bind condition thenBody elseBody =>
      let onTrue := path ++ [.thenBody]
      let onFalse := path ++ [.elseBody]
      journaled path bind do
        let c ← resolved fun names => condition.eval names
        let id ← conditional c
          (entered onTrue (runBlock onTrue 0 thenBody))
          (entered onFalse (runBlock onFalse 0 elseBody))
        return .node id
  | .switch bind control cases default =>
      journaled path bind do
        let c ← resolved fun names => control.eval names
        let id ← dispatch c
          ⟨prepareCases path 0 cases,
            prepareArm (path ++ [.default]) default⟩
        return .node id
  | .forRange bind start stop body =>
      let inner := path ++ [.loopBody]
      journaled path .none do
        let start ← resolved fun names => start.eval names
        let stop ← resolved fun names => stop.eval names
        let id ← countingLoop start stop fun node value => do
          keepLoop bind node value
          entered inner (runBlock inner 0 body)
        return .node id
  | .forEach bind list body =>
      let inner := path ++ [.loopBody]
      journaled path .none do
        let list ← resolved fun names => list.eval names
        let id ← itemLoop list fun node value => do
          keepLoop bind node value
          entered inner (runBlock inner 0 body)
        return .node id
  | .branch node index body =>
      let inner := path ++ [.branch]
      journaled path .none do
        let id ← resolved fun names => node.eval names
        let b ← inBranch id index
          (entered inner (runBlock inner 0 body))
        return .branch b
  | .loop node body =>
      let inner := path ++ [.loop]
      journaled path .none do
        let id ← resolved fun names => node.eval names
        inLoop id (entered inner (runBlock inner 0 body))
        return .none
  | .attempt body =>
      let inner := path ++ [.attempt]
      journaled path .none do
        let block := entered inner (runBlock inner 0 body)
        match ← block.observe with
        | .ok () => return .succeeded
        | .error e => return .caught e

/- Run a body from its `i`-th statement on. -/
def runBlock (path : Path) (i : Nat) : List Stmt → Run Unit
  | [] => Process.yield ()
  | s :: rest => do
      runStmt (path ++ [.statement i]) s
      runBlock path (i + 1) rest

/- What a branch of a switch does, its body ready to run. -/
def prepareArm
    (path : Path) :
    Arm (List Stmt) → Arm (Run Unit)
  | .body block => .body (entered path (runBlock path 0 block))
  | .alias k => .alias k
  | .empty => .empty

/- A case of a switch, its body ready to run. -/
def prepareCase
    (path : Path) :
    Label × Arm (List Stmt) → Label × Arm (Run Unit)
  | (l, arm) => (l, prepareArm path arm)

/- The cases of a switch from the `i`-th on. -/
def prepareCases
    (path : Path)
    (i : Nat) :
    List (Label × Arm (List Stmt)) →
      List (Label × Arm (Run Unit))
  | [] => []
  | c :: rest =>
      prepareCase (path ++ [.case i]) c
        :: prepareCases path (i + 1) rest

end

end FlowGraph.Script

------------------------------------------------------------
-- Scripts
------------------------------------------------------------

namespace FlowGraph.Script

/-
  Run the statements of a script from the `i`-th on.  A
  refused statement does not keep the next one from running.
-/
def runFrom (i : Nat) : List Stmt → Session → Session
  | [], session => session
  | s :: rest, session =>
      runFrom (i + 1) rest (runStmt [.statement i] s session).2

/- Run a script on a new graph. -/
def run
    (name : String)
    (config : Config)
    (script : List Stmt) :
    Session :=
  runFrom 0 script (.new name config)

end FlowGraph.Script
