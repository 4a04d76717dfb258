import FlowGraph.Builder
import FlowGraph.Script.Operand

/-
  Sessions: a builder, the names of a script and a journal.

  The journal says what every statement came to and keeps
  the builder as the statement left it.

  Key definitions include:
    * `FlowGraph.Script.Path`
    * `FlowGraph.Script.Result`
    * `FlowGraph.Script.Entry`
    * `FlowGraph.Script.Session`
    * `FlowGraph.Script.Run`
-/

------------------------------------------------------------
-- Paths
------------------------------------------------------------

namespace FlowGraph.Script

/- A step from a body to a statement, or the other way. -/
inductive Segment where
  | statement (i : Nat)
  | thenBody
  | elseBody
  | loopBody
  | function
  | branch
  | loop
  | attempt
  | case (i : Nat)
  | default
  deriving DecidableEq, Repr

/- The text of a segment. -/
def Segment.text : Segment → String
  | .statement i => i.repr
  | .thenBody => "then"
  | .elseBody => "else"
  | .loopBody => "body"
  | .function => "function"
  | .branch => "branch"
  | .loop => "loop"
  | .attempt => "try"
  | .case i => "case" ++ i.repr
  | .default => "default"

/- A place in a script, from the outside in. -/
abbrev Path := List Segment

/- The text of a path. -/
def Path.text
    (p : Path) :
    String :=
  String.intercalate "/" (p.map Segment.text)

end FlowGraph.Script

------------------------------------------------------------
-- Results
------------------------------------------------------------

namespace FlowGraph.Script

/-
  What became of a nested body: whether it returned, the
  exec outputs it left open, and its first node.
-/
structure Branch where
  containsReturn : Bool
  tail : List Endpoint
  head : Option Nat
  deriving DecidableEq, Repr

/- Whether every path through the body ended in a return. -/
def Branch.terminatedByReturn
    (b : Branch) :
    Bool :=
  b.containsReturn && b.tail.isEmpty

/-
  What a statement yields.  A return gate is shown like a
  variable but belongs to its function and takes no name.
-/
inductive Result where
  | none
  | node (id : Nat)
  | value (v : Value)
  | variable (v : Variable)
  | gate (v : Variable)
  | branch (b : Branch)
  | succeeded
  | caught (e : Error)
  deriving DecidableEq

/- What a journal entry tells. -/
inductive Event where
  | entered
  | finished (r : Result)
  | failed (e : Error)
  deriving DecidableEq

/-
  A journal entry: the place, the builder at that moment,
  and the event.
-/
structure Entry where
  path : Path
  builder : Builder
  event : Event
  deriving DecidableEq

namespace Entry

/- The frame at that moment. -/
def frame
    (e : Entry) :
    Frame :=
  e.builder.frame

/- The number of nodes at that moment. -/
def nodes
    (e : Entry) :
    Nat :=
  e.builder.graph.nodes.size

end Entry

end FlowGraph.Script

------------------------------------------------------------
-- Sessions
------------------------------------------------------------

namespace FlowGraph.Script

/-
  The state of a running script.  The journal's latest entry
  comes first.
-/
structure Session where
  builder : Builder
  names : Names
  journal : List Entry
  deriving DecidableEq

/- A step on a session. -/
abbrev Run (α : Type) := Process Session α

namespace Session

/- The start of a script. -/
def new
    (name : String)
    (config : Config) :
    Session :=
  ⟨.new name config, .empty, []⟩

/- The journal in the order of writing. -/
def entries
    (s : Session) :
    List Entry :=
  s.journal.reverse

/- Write a journal entry. -/
def record
    (s : Session)
    (path : Path)
    (event : Event) :
    Session :=
  { s with journal := ⟨path, s.builder, event⟩ :: s.journal }

end Session

instance : MonadLift (Process Builder) (Process Session) where
  monadLift :=
    Process.zoom Session.builder fun b s =>
      { s with builder := b }

/- Evaluate something under the current names. -/
def resolved
    {α : Type}
    (f : Names → Except Error α) :
    Run α := do
  let names ← Process.read Session.names
  f names

/- Write a journal entry. -/
def note
    (path : Path)
    (event : Event) :
    Run Unit :=
  Process.update fun s => s.record path event

end FlowGraph.Script
