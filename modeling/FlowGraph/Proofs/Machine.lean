import FlowGraph.Catalog
import FlowGraph.Graph

/-
  A machine that runs the functions of a graph.

  An exec node is entered, does what its type says, and goes
  on at one of its exec outputs; an output without a link
  ends the chain.  What branches and loops depend on is not
  computed but asked for: a list of answers is used up in
  order.

  Key definitions include:
    * `FlowGraph.Machine`
    * `FlowGraph.Machine.State`
    * `FlowGraph.Machine.enter`
    * `FlowGraph.Machine.step`
    * `FlowGraph.Machine.run`

  Key theorems include:
    * `FlowGraph.Machine.run_add`
    * `FlowGraph.Machine.Reaches.trans`
    * `FlowGraph.Machine.reaches_enter`
-/

------------------------------------------------------------
-- States
------------------------------------------------------------

namespace FlowGraph

/-
  What a function is run with: its graph, the variable that
  a return from it raises, and the answers to what nodes ask.
-/
structure Machine where
  graph : Graph
  gate : Option Variable
  answer : Nat → Nat

namespace Machine

/-
  The state of a run: the node to be entered next, the loops
  around it with the rounds they have left, whether the gate
  is raised, how many answers are used up, and the nodes of
  the script that were entered.
-/
structure State where
  next : Option Nat
  stack : List (Nat × Nat)
  raised : Bool
  asked : Nat
  trace : List Nat
  deriving DecidableEq

/- A run starts outside of all loops with the gate down. -/
def State.start
    (next : Option Nat) :
    State :=
  ⟨next, [], false, 0, []⟩

/- A node of the script is entered. -/
def State.visit
    (m : State)
    (id : Nat) :
    State :=
  { m with trace := m.trace ++ [id] }

/- An answer is used up. -/
def State.ask
    (m : State) :
    State :=
  { m with asked := m.asked + 1 }

/- The run goes on at a node, or the chain ends. -/
def State.goto
    (m : State)
    (next : Option Nat) :
    State :=
  { m with next := next }

/- The loops around have other rounds left. -/
def State.withStack
    (m : State)
    (stack : List (Nat × Nat)) :
    State :=
  { m with stack := stack }

/- The gate is raised. -/
def State.raise
    (m : State) :
    State :=
  { m with raised := true }

end Machine

end FlowGraph

------------------------------------------------------------
-- Steps
------------------------------------------------------------

namespace FlowGraph.Machine

/- The node that an exec output leads to. -/
def follow
    (M : Machine)
    (id index : Nat) :
    Option Nat :=
  M.graph.execTarget ⟨id, index⟩

/- The number by which a loop is listed. -/
def loopValue
    (id : Nat) :
    Value :=
  .int (Int64.ofNat id)

/-
  Stop the loops that are listed, from the inside out: none
  of them has a round left.  A number that is listed once
  stops one loop.
-/
def stop :
    List Value → List (Nat × Nat) → List (Nat × Nat)
  | _, [] => []
  | listed, (id, left) :: rest =>
      if loopValue id ∈ listed then
        (id, 0) :: stop (listed.erase (loopValue id)) rest
      else
        (id, left) :: stop listed rest

/- The exec output that an answer stands for. -/
def choose
    (outputs answer : Nat) :
    Nat :=
  if answer < outputs then answer else 0

/- Whether a branch depends on the gate. -/
def isGuard
    (M : Machine)
    (n : Node) :
    Bool :=
  M.gate.any fun v => n.args = [v.value]

/- Whether writing a variable raises the gate. -/
def isRaise
    (M : Machine)
    (n : Node) :
    Bool :=
  M.gate.any fun v => n.args = [v.handle, .bool true]

/-
  Enter a node.  What serves a return is not of the script:
  raising the gate, stopping loops while it is raised, and
  branching on it.
-/
def enter
    (M : Machine)
    (m : State)
    (id : Nat)
    (n : Node) :
    State :=
  match Builtin.ofName? n.nodeType with
  | some .doubleBranch =>
      if M.isGuard n then
        m.goto (M.follow id (if m.raised then 0 else 1))
      else
        ((m.visit id).ask).goto
          (M.follow id (if M.answer m.asked = 0 then 1 else 0))
  | some .multipleBranches =>
      ((m.visit id).ask).goto
        (M.follow id (choose n.execOutputs (M.answer m.asked)))
  | some .finiteLoop | some .listIterationLoop =>
      (((m.visit id).ask).withStack
        ((id, M.answer m.asked) :: m.stack)).goto none
  | some .breakLoop =>
      ((if m.raised then m else m.visit id).withStack
        (stop n.args m.stack)).goto none
  | some .setLocalVariable =>
      if M.isRaise n then
        m.raise.goto (M.follow id 0)
      else
        (m.visit id).goto (M.follow id 0)
  | _ => (m.visit id).goto (M.follow id 0)

/-
  Go back to the innermost loop: a round more, or on from
  its second exec output.
-/
def resume
    (M : Machine)
    (m : State)
    (id : Nat)
    (rest : List (Nat × Nat)) :
    Nat → State
  | 0 => (m.withStack rest).goto (M.follow id 1)
  | left + 1 =>
      (m.withStack ((id, left) :: rest)).goto (M.follow id 0)

/- One step.  A run is over when the last chain has ended. -/
def step
    (M : Machine)
    (m : State) :
    Option State :=
  match m.next, m.stack with
  | some id, _ =>
      match M.graph.nodes.get? id with
      | some n => some (M.enter m id n)
      | none => some (m.goto none)
  | none, (id, left) :: rest => some (M.resume m id rest left)
  | none, [] => none

/- At most `k` steps. -/
def run
    (M : Machine) :
    Nat → State → State
  | 0, m => m
  | k + 1, m =>
      match M.step m with
      | some m' => M.run k m'
      | none => m

end FlowGraph.Machine

------------------------------------------------------------
-- Runs
------------------------------------------------------------

namespace FlowGraph.Machine

variable {M : Machine} {m m₁ m₂ : State}

/- A run that is over stays where it is. -/
theorem run_of_halted
    (h : M.step m = none)
    (k : Nat) :
    M.run k m = m := by
  cases k with
  | zero => rfl
  | succ k =>
      unfold run
      rw [h]

theorem run_add
    (k j : Nat)
    (m : State) :
    M.run (k + j) m = M.run j (M.run k m) := by
  induction k generalizing m with
  | zero => rw [Nat.zero_add, run]
  | succ k ih =>
      rw [Nat.succ_add]
      cases hStep : M.step m with
      | none =>
          rw [run_of_halted hStep, run_of_halted hStep,
            run_of_halted hStep]
      | some m' =>
          simp only [run, hStep]
          exact ih m'

/- One state is reached from another. -/
def Reaches
    (M : Machine)
    (m m' : State) :
    Prop :=
  ∃ k, M.run k m = m'

theorem Reaches.refl :
    M.Reaches m m :=
  ⟨0, rfl⟩

theorem Reaches.trans
    (h₁ : M.Reaches m m₁)
    (h₂ : M.Reaches m₁ m₂) :
    M.Reaches m m₂ := by
  rcases h₁ with ⟨k, rfl⟩
  rcases h₂ with ⟨j, rfl⟩
  exact ⟨k + j, run_add k j m⟩

theorem reaches_step
    (h : M.step m = some m₁) :
    M.Reaches m m₁ := by
  refine ⟨1, ?_⟩
  simp only [run, h]

/- The next node is entered. -/
theorem reaches_enter
    {id : Nat}
    {n : Node}
    (hNext : m.next = some id)
    (hNode : M.graph.nodes.get? id = some n) :
    M.Reaches m (M.enter m id n) := by
  apply reaches_step
  simp only [step, hNext, hNode]

/- The innermost loop goes on. -/
theorem reaches_resume
    {id left : Nat}
    {rest : List (Nat × Nat)}
    (hNext : m.next = none)
    (hStack : m.stack = (id, left) :: rest) :
    M.Reaches m (M.resume m id rest left) := by
  apply reaches_step
  simp only [step, hNext, hStack]

end FlowGraph.Machine
