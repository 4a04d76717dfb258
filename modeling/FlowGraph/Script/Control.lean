import FlowGraph.Builder.Operations
import FlowGraph.Script.Session
import FlowGraph.Switch

/-
  Nested bodies: branches, loops and functions.

  Each construct gives its body a cursor, a loop or a frame
  and takes it back afterwards, whether or not the body was
  refused.

  Key definitions include:
    * `FlowGraph.Script.inBranch`
    * `FlowGraph.Script.inLoop`
    * `FlowGraph.Script.inFunction`
    * `FlowGraph.Script.conditional`
    * `FlowGraph.Script.dispatch`
    * `FlowGraph.Script.countingLoop`
    * `FlowGraph.Script.itemLoop`
-/

------------------------------------------------------------
-- Scopes
------------------------------------------------------------

namespace FlowGraph.Script

/-
  Run a body from an exec output of a node.  The cursor is
  restored afterwards.
-/
def inBranch
    (node index : Nat)
    (body : Run Unit) :
    Run Branch := do
  let start : Endpoint := ⟨node, index⟩
  let before ← Builder.frameNow
  let saved ← Builder.fromFrame fun f => f.enter start
  let outcome ← body.observe
  let tail ← Builder.fromFrame fun f => f.leave saved
  outcome
  let after ← Builder.frameNow
  let head ← Process.read fun s => s.builder.graph.execTarget start
  return ⟨before.returns < after.returns, tail, head⟩

/- Run a body inside of a loop. -/
def inLoop
    {α : Type}
    (node : Nat)
    (body : Run α) :
    Run α := do
  Builder.onFrame fun f => f.pushLoop node
  let outcome ← body.observe
  let _ ← Builder.fromFrame Frame.popLoop
  outcome

/- Run a body as a function with a frame of its own. -/
def inFunction
    (event : String)
    (body : Run Unit) :
    Run Nat := do
  let entry ← Builder.addEntry event
  let outer ← Builder.frameNow
  Builder.onFrame fun _ => .rootedAt ⟨entry, 0⟩
  let outcome ← body.observe
  Builder.onFrame fun _ => outer
  outcome
  return entry

end FlowGraph.Script

------------------------------------------------------------
-- Joins
------------------------------------------------------------

namespace FlowGraph.Script

/- Add exec outputs to a join, each once. -/
def joinWith
    (join : List Endpoint) :
    List Endpoint → List Endpoint
  | [] => join
  | e :: rest =>
      joinWith (if e ∈ join then join else join ++ [e]) rest

/- The join of what several bodies left open. -/
def joinTails
    (tails : List (List Endpoint)) :
    List Endpoint :=
  tails.foldl joinWith []

end FlowGraph.Script

------------------------------------------------------------
-- Conditionals
------------------------------------------------------------

namespace FlowGraph.Script

/-
  Run one of two bodies.  The flow goes on from whatever
  either of them leaves open.
-/
def conditional
    (condition : Value)
    (onTrue onFalse : Run Unit) :
    Run Nat := do
  let _ ← condition.expect .bool
  let node ← Builder.placeBuiltin .doubleBranch [condition] none
  let t ← inBranch node 0 onTrue
  let f ← inBranch node 1 onFalse
  Builder.onFrame fun frame =>
    frame.setTail (joinTails [t.tail, f.tail])
  return node

end FlowGraph.Script

------------------------------------------------------------
-- Switches
------------------------------------------------------------

namespace FlowGraph.Script

variable {β : Type}

/- Check that a label has the type of the control value. -/
def checkLabel
    (t : ValueType)
    (l : Label) :
    Except Error Unit :=
  if l.type = t then
    .ok ()
  else
    .error
      (.mismatch (.type t) (.case l) (Hint.suggest? t l.type))

/-
  Check the control value and the cases of a switch, and
  find the branch whose body each branch runs.
-/
def checkSwitch
    (control : Value)
    (s : Switch β) :
    Except Error (List CaseKey) := do
  if control.type ≠ .int ∧ control.type ≠ .str then
    throw (.mismatch .label (.value control) none)
  if let some l := s.repeated? then
    throw (.of (.duplicateCase l))
  s.labels.forM (checkLabel control.type)
  s.keys.mapM s.resolve

/- Run what a branch does itself; an alias does nothing. -/
def runArm
    (node index : Nat) :
    Arm (Run Unit) → Run (Option Branch)
  | .body body => do
      let b ← inBranch node index body
      return some b
  | .empty => return some ⟨false, [⟨node, index⟩], none⟩
  | .alias _ => return none

/- Run what the branches do themselves, in order. -/
def runArms
    (node : Nat) :
    Nat → List (Arm (Run Unit)) → Run (List (Option Branch))
  | _, [] => return []
  | index, arm :: rest => do
      let b ← runArm node index arm
      let bs ← runArms node (index + 1) rest
      return b :: bs

/-
  Wire an alias.  If the shared body has a first node, the
  alias leads there; otherwise it goes on wherever the other
  branch does, from its own output instead of the other's.
-/
def wireAlias
    (node index target : Nat)
    (shared : Branch)
    (join : List Endpoint) :
    Run (List Endpoint) := do
  match shared.head with
  | some head =>
      Builder.connect ⟨node, index⟩ head
      return join
  | none =>
      let redirected := shared.tail.map fun e =>
        if e = ⟨node, target⟩ then ⟨node, index⟩ else e
      return joinWith join redirected

/-
  Wire all aliases.  The list gives for each branch what it
  ran itself and the output of the branch that it resolves
  to.
-/
def wireAliases
    (node : Nat)
    (branches : List (Option Branch)) :
    Nat → List (Option Branch × Nat) → List Endpoint →
      Run (List Endpoint)
  | _, [], join => return join
  | index, (some _, _) :: rest, join =>
      wireAliases node branches (index + 1) rest join
  | index, (none, target) :: rest, join => do
      match branches[target]? with
      | some (some shared) =>
          let join ← wireAlias node index target shared join
          wireAliases node branches (index + 1) rest join
      | _ => wireAliases node branches (index + 1) rest join

/-
  Run one of several bodies.  Exec output zero is the
  default, the others are the cases in order.
-/
def dispatch
    (control : Value)
    (s : Switch (Run Unit)) :
    Run Nat := do
  let targets ← checkSwitch control s
  let args := control :: s.labels.map Label.value
  let node ← Builder.placeBuiltin .multipleBranches args none
  let branches ← runArms node 0 s.arms
  let join := joinTails (branches.filterMap id |>.map Branch.tail)
  let resolved := branches.zip (targets.map s.index)
  let join ← wireAliases node branches 0 resolved join
  Builder.onFrame fun f => f.setTail join
  return node

end FlowGraph.Script

------------------------------------------------------------
-- Loops
------------------------------------------------------------

namespace FlowGraph.Script

/-
  Go on only while the return gate is down: a loop that a
  return stopped completes as well.
-/
def returnGuard : Build Nat := do
  let gate ← Builder.returnGate
  let guardNode ←
    Builder.placeBuiltin .doubleBranch [gate.value] none
  Builder.onFrame fun f => f.linkFrom guardNode 1
  return guardNode

/-
  Run the body of a loop.  Whatever the body leaves open
  ends a round; the flow goes on from the loop's second exec
  output.
-/
def loopBody
    (node : Nat)
    (body : Run Unit) :
    Run Unit := do
  let branch ← inLoop node (inBranch node 0 body)
  Builder.onFrame fun f => f.linkFrom node 1
  if branch.containsReturn then
    let _ ← returnGuard

/- A loop that counts from one number to another. -/
def countingLoop
    (start stop : Input)
    (body : Nat → Value → Run Unit) :
    Run Nat := do
  let start ← start.read .int
  let stop ← stop.read .int
  let node ← Builder.placeBuiltin .finiteLoop [start, stop] none
  let value ← Builder.pinValue node "current_loop_value" 0
  loopBody node (body node value)
  return node

/- The type of the items of a list value. -/
def itemType
    (list : Value) :
    Except Error ValueType :=
  match list.type.element? with
  | some t => .ok t
  | none =>
      .error
        (.mismatch .list (.value list)
          (list.type.listOf?.map .didYouMean))

/- A loop over the items of a list. -/
def itemLoop
    (list : Value)
    (body : Nat → Value → Run Unit) :
    Run Nat := do
  let element ← itemType list
  let node ←
    Builder.placeBuiltin .listIterationLoop [list] (some element)
  let value ← Builder.pinValue node "iteration_value" 0
  loopBody node (body node value)
  return node

end FlowGraph.Script
