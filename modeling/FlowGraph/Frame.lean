import FlowGraph.Node

/-
  The state of the function that is being built.

  A frame holds the open exec outputs from which the flow
  goes on, the loops around the current place, and what is
  known about returns.

  Key definitions include:
    * `FlowGraph.Frame`
    * `FlowGraph.Frame.enter`
    * `FlowGraph.Frame.leave`
    * `FlowGraph.Frame.pushLoop`
    * `FlowGraph.Frame.sealPath`
-/

------------------------------------------------------------
-- Frames
------------------------------------------------------------

namespace FlowGraph

/-
  The state of a function: the open exec outputs, the loops
  around the current place from the inside out, the number
  of returns so far, and the variable that a return raises.
-/
structure Frame where
  tail : List Endpoint
  loops : List Nat
  returns : Nat
  gate : Option Variable
  deriving DecidableEq

namespace Frame

/- The frame outside of all functions. -/
def empty : Frame :=
  ⟨[], [], 0, none⟩

/- The frame of a function that starts at an exec output. -/
def rootedAt
    (e : Endpoint) :
    Frame :=
  { empty with tail := [e] }

end Frame

end FlowGraph

------------------------------------------------------------
-- The Cursor
------------------------------------------------------------

namespace FlowGraph.Frame

/- Go on from given exec outputs. -/
def setTail
    (f : Frame)
    (tail : List Endpoint) :
    Frame :=
  { f with tail := tail }

/- Go on from one exec output. -/
def linkFrom
    (f : Frame)
    (node index : Nat) :
    Frame :=
  f.setTail [⟨node, index⟩]

/- Take the open exec outputs away. -/
def takeTail
    (f : Frame) :
    List Endpoint × Frame :=
  (f.tail, f.setTail [])

/- Go on from `start`, handing back what was open. -/
def enter
    (f : Frame)
    (start : Endpoint) :
    List Endpoint × Frame :=
  (f.tail, f.setTail [start])

/- Go back to `saved`, handing back what was open. -/
def leave
    (f : Frame)
    (saved : List Endpoint) :
    List Endpoint × Frame :=
  (f.tail, f.setTail saved)

end FlowGraph.Frame

------------------------------------------------------------
-- Loops
------------------------------------------------------------

namespace FlowGraph.Frame

/- Go into a loop. -/
def pushLoop
    (f : Frame)
    (node : Nat) :
    Frame :=
  { f with loops := node :: f.loops }

/- Leave the innermost loop. -/
def popLoop
    (f : Frame) :
    Option Nat × Frame :=
  (f.loops.head?, { f with loops := f.loops.tail })

/- Whether the current place is inside a loop. -/
def inLoop
    (f : Frame) :
    Bool :=
  !f.loops.isEmpty

/- Whether a node is a loop around the current place. -/
def isInside
    (f : Frame)
    (node : Nat) :
    Bool :=
  f.loops.contains node

end FlowGraph.Frame

------------------------------------------------------------
-- Returns
------------------------------------------------------------

namespace FlowGraph.Frame

/-
  End the current path, so that nothing goes on from it.
  `returning` counts it as a return.
-/
def sealPath
    (f : Frame)
    (returning : Bool) :
    Frame :=
  { f with
    tail := []
    returns := if returning then f.returns + 1 else f.returns }

/- Set the variable that a return raises. -/
def setGate
    (f : Frame)
    (gate : Variable) :
    Frame :=
  { f with gate := some gate }

end FlowGraph.Frame
