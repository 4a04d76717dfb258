import FlowGraph.Proofs.Building
import FlowGraph.Script.Run

/-
  What the constructs with bodies come to.

  Each construct is a node, runs of its bodies from exec
  outputs of that node, and a cursor for what follows.  The
  cursor of the place around is restored after each body.

  Key definitions include:
    * `FlowGraph.Script.Session.withTail`
    * `FlowGraph.Script.Session.placed`
    * `FlowGraph.Builder.guarded`

  Key theorems include:
    * `FlowGraph.Script.meets_inBranch`
    * `FlowGraph.Script.meets_conditional`
    * `FlowGraph.Script.meets_dispatch`
    * `FlowGraph.Script.meets_loopBody`
    * `FlowGraph.Script.meets_journaled`
-/

------------------------------------------------------------
-- Parts Of A Session
------------------------------------------------------------

namespace FlowGraph.Script.Session

/- The graph of a session. -/
abbrev graph
    (s : Session) :
    Graph :=
  s.builder.graph

/- The frame of a session. -/
abbrev frame
    (s : Session) :
    Frame :=
  s.builder.frame

/- A session with its frame changed. -/
def onFrame
    (s : Session)
    (f : Frame → Frame) :
    Session :=
  s.withBuilder { s.builder with frame := f s.frame }

/- A session that goes on from other exec outputs. -/
def withTail
    (s : Session)
    (tail : List Endpoint) :
    Session :=
  s.onFrame fun f => f.setTail tail

/- A session with a node placed at the cursor. -/
def placed
    (s : Session)
    (n : Node) :
    Session :=
  s.withBuilder (s.builder.placed n)

variable (s : Session) (n : Node) (f : Frame → Frame)
variable (tail tail' : List Endpoint)

@[simp] theorem withBuilder_builder
    (b : Builder) :
    (s.withBuilder b).builder = b :=
  rfl

@[simp] theorem withBuilder_journal
    (b : Builder) :
    (s.withBuilder b).journal = s.journal :=
  rfl

@[simp] theorem withBuilder_names
    (b : Builder) :
    (s.withBuilder b).names = s.names :=
  rfl

@[simp] theorem onFrame_builder :
    (s.onFrame f).builder =
      { s.builder with frame := f s.frame } :=
  rfl

@[simp] theorem onFrame_journal :
    (s.onFrame f).journal = s.journal :=
  rfl

@[simp] theorem onFrame_names :
    (s.onFrame f).names = s.names :=
  rfl

@[simp] theorem withTail_graph :
    (s.withTail tail).builder.graph = s.graph :=
  rfl

@[simp] theorem withTail_frame :
    (s.withTail tail).builder.frame = s.frame.setTail tail :=
  rfl

@[simp] theorem withTail_journal :
    (s.withTail tail).journal = s.journal :=
  rfl

@[simp] theorem withTail_names :
    (s.withTail tail).names = s.names :=
  rfl

@[simp] theorem withTail_withTail :
    (s.withTail tail).withTail tail' = s.withTail tail' :=
  rfl

@[simp] theorem withTail_self :
    s.withTail s.frame.tail = s :=
  rfl

@[simp] theorem placed_builder :
    (s.placed n).builder = s.builder.placed n :=
  rfl

@[simp] theorem placed_journal :
    (s.placed n).journal = s.journal :=
  rfl

@[simp] theorem placed_names :
    (s.placed n).names = s.names :=
  rfl

end FlowGraph.Script.Session

------------------------------------------------------------
-- Scopes
------------------------------------------------------------

namespace FlowGraph.Script

variable {α : Type} {s : Session}
variable {E : Error → Session → Prop}

/- What became of a body that ran between two sessions. -/
def branchFrom
    (start : Endpoint)
    (s s' : Session) :
    Branch :=
  ⟨s.frame.returns < s'.frame.returns, s'.frame.tail,
    s'.graph.execTarget start⟩

theorem meets_inBranch
    {node index : Nat}
    {body : Run Unit}
    {Q : Branch → Session → Prop} :
    (inBranch node index body).Meets s Q E ↔
      body.Meets (s.withTail [⟨node, index⟩])
        (fun _ s' =>
          Q (branchFrom ⟨node, index⟩ s s')
            (s'.withTail s.frame.tail))
        (fun e s' => E e (s'.withTail s.frame.tail)) :=
  by
  unfold inBranch
  simp only [Process.meets_bind, meets_build,
    Builder.meets_frameNow, Builder.meets_fromFrame,
    Process.meets_observe, Process.meets_ofExcept_ok,
    Process.meets_ofExcept_error, Process.meets_read,
    Process.meets_pure]
  exact Iff.rfl

theorem meets_inLoop
    {node : Nat}
    {body : Run α}
    {Q : α → Session → Prop} :
    (inLoop node body).Meets s Q E ↔
      body.Meets (s.onFrame fun f => f.pushLoop node)
        (fun a s' => Q a (s'.onFrame fun f => f.popLoop.2))
        (fun e s' =>
          E e (s'.onFrame fun f => f.popLoop.2)) := by
  unfold inLoop
  simp only [Process.meets_bind, meets_build,
    Builder.meets_onFrame, Builder.meets_fromFrame,
    Process.meets_observe, Process.meets_ofExcept_ok,
    Process.meets_ofExcept_error]
  exact Iff.rfl

/- The node at which a function starts. -/
def entryNode
    (event : String) :
    Node where
  nodeClass := .exec
  nodeType := "graph_entry"
  args := [⟨.str, .literal (.str event)⟩]
  execOutputs := 1
  outputs := []

theorem node_graphEntry
    (event : String) :
    Builtin.graphEntry.node [.str event] none =
      entryNode event :=
  rfl

/- The start of a function in a frame of its own. -/
def Session.opened
    (s : Session)
    (event : String) :
    Session :=
  s.withBuilder
    { s.builder.added (entryNode event) with
      frame := .rootedAt ⟨s.graph.nextId, 0⟩ }

theorem meets_inFunction
    {event : String}
    {body : Run Unit}
    {Q : Nat → Session → Prop} :
    (inFunction event body).Meets s Q E ↔
      body.Meets (s.opened event)
        (fun _ s' =>
          Q s.graph.nextId (s'.onFrame fun _ => s.frame))
        (fun e s' => E e (s'.onFrame fun _ => s.frame)) := by
  unfold inFunction Builder.addEntry
  simp only [Process.meets_bind, meets_build,
    Builder.meets_frameNow, Builder.meets_onFrame,
    Process.meets_observe, Process.meets_ofExcept_ok,
    Process.meets_ofExcept_error, Process.meets_pure]
  exact Iff.rfl

end FlowGraph.Script

------------------------------------------------------------
-- Conditionals
------------------------------------------------------------

namespace FlowGraph.Builder

/- Placing a built-in exec node. -/
theorem meets_placeBuiltin
    {b : Builder}
    {kind : Builtin}
    {args : List Value}
    {dynamic : Option ValueType}
    {Q : Nat → Builder → Prop}
    {E : Error → Builder → Prop}
    (hReady : b.Ready)
    (hExec : kind.nodeClass = .exec) :
    (placeBuiltin kind args dynamic).Meets b Q E ↔
      Q b.graph.nextId (b.placed (kind.node args dynamic)) :=
  meets_place hReady hExec

end FlowGraph.Builder

namespace FlowGraph.Script

variable {s : Session}
variable {E : Error → Session → Prop}

/-
  The node that decides between two bodies.  It goes on at
  its first exec output if the condition is true.
-/
def branchNode
    (condition : Value) :
    Node where
  nodeClass := .exec
  nodeType := "double_branch"
  args := [condition]
  execOutputs := 2
  outputs := []

theorem meets_conditional
    {c : Value}
    {onTrue onFalse : Run Unit}
    {Q : Nat → Session → Prop}
    (hReady : s.builder.Ready) :
    (conditional c onTrue onFalse).Meets s Q E ↔
      (∀ v, c.expect .bool = .ok v →
        (inBranch s.graph.nextId 0 onTrue).Meets
          (s.placed (branchNode c))
          (fun t s₁ =>
            (inBranch s.graph.nextId 1 onFalse).Meets s₁
              (fun f s₂ =>
                Q s.graph.nextId
                  (s₂.withTail (joinTails [t.tail, f.tail])))
              E)
          E) ∧
      (∀ e, c.expect .bool = .error e → E e s) := by
  unfold conditional
  simp only [Process.meets_bind, Process.meets_ofExcept,
    Builder.meets_placeBuiltin hReady
      (show Builtin.doubleBranch.nodeClass = .exec from rfl),
    meets_build, Builder.meets_onFrame, Process.meets_pure]
  exact Iff.rfl

end FlowGraph.Script

------------------------------------------------------------
-- Switches
------------------------------------------------------------

namespace FlowGraph.Script

variable {s : Session}
variable {E : Error → Session → Prop}

/-
  The node that decides between several bodies.  It has an
  exec output for the default and one for every label.
-/
def switchNode
    {β : Type}
    (control : Value)
    (sw : Switch β) :
    Node where
  nodeClass := .exec
  nodeType := "multiple_branches"
  args := control :: sw.labels.map Label.value
  execOutputs := (sw.labels.map Label.value).length + 1
  outputs := []

/- A switch has an exec output for every branch. -/
@[simp] theorem switchNode_execOutputs
    {β : Type}
    (control : Value)
    (sw : Switch β) :
    (switchNode control sw).execOutputs =
      sw.cases.length + 1 := by
  simp [switchNode, Switch.labels]

/- The join of what the branches left open themselves. -/
def ownJoin
    (branches : List (Option Branch)) :
    List Endpoint :=
  joinTails (branches.filterMap id |>.map Branch.tail)

theorem meets_dispatch
    {control : Value}
    {sw : Switch (Run Unit)}
    {Q : Nat → Session → Prop}
    (hReady : s.builder.Ready) :
    (dispatch control sw).Meets s Q E ↔
      (∀ targets, checkSwitch control sw = .ok targets →
        (runArms s.graph.nextId 0 sw.arms).Meets
          (s.placed (switchNode control sw))
          (fun branches s₁ =>
            (wireAliases s.graph.nextId branches 0
                (branches.zip (targets.map sw.index))
                (ownJoin branches)).Meets s₁
              (fun join s₂ =>
                Q s.graph.nextId (s₂.withTail join))
              E)
          E) ∧
      (∀ e, checkSwitch control sw = .error e → E e s) := by
  unfold dispatch
  simp only [Process.meets_bind, Process.meets_ofExcept,
    Builder.meets_placeBuiltin hReady
      (show Builtin.multipleBranches.nodeClass = .exec
        from rfl),
    meets_build, Builder.meets_onFrame, Process.meets_pure]
  exact Iff.rfl

end FlowGraph.Script

------------------------------------------------------------
-- Loops
------------------------------------------------------------

namespace FlowGraph.Builder

/- The builder after a guard against a raised gate. -/
def guarded
    (b : Builder) :
    Builder :=
  { b.gated.placed (Script.branchNode b.gateOf.value) with
    frame :=
      b.gated.frame.linkFrom b.gated.graph.nextId 1 }

end FlowGraph.Builder

namespace FlowGraph.Script

variable {s : Session}
variable {E : Error → Session → Prop}

theorem meets_returnGuard
    {b : Builder}
    {Q : Nat → Builder → Prop}
    {E : Error → Builder → Prop}
    (hReady : b.Ready) :
    returnGuard.Meets b Q E ↔
      Q b.gated.graph.nextId b.guarded := by
  have hGated := (Builder.advances_gated hReady).ready
  unfold returnGuard
  simp only [Process.meets_bind, Builder.meets_returnGate,
    Builder.meets_placeBuiltin hGated
      (show Builtin.doubleBranch.nodeClass = .exec from rfl),
    Builder.meets_onFrame, Process.meets_pure]
  exact Iff.rfl

/- Where a loop goes on once its body has run. -/
def Session.afterRounds
    (s : Session)
    (node : Nat) :
    Session :=
  (s.onFrame fun f => f.popLoop.2).withTail [⟨node, 1⟩]

/- The start of the body of a loop. -/
def Session.inRound
    (s : Session)
    (node : Nat) :
    Session :=
  (s.withTail [⟨node, 0⟩]).onFrame fun f => f.pushLoop node

theorem meets_loopBody
    {node : Nat}
    {body : Run Unit}
    {Q : Unit → Session → Prop} :
    (loopBody node body).Meets s Q E ↔
      body.Meets (s.inRound node)
        (fun _ s₁ =>
          if s.frame.returns < s₁.frame.returns then
            returnGuard.Meets (s₁.afterRounds node).builder
              (fun _ b =>
                Q () ((s₁.afterRounds node).withBuilder b))
              (fun e b =>
                E e ((s₁.afterRounds node).withBuilder b))
          else
            Q () (s₁.afterRounds node))
        (fun e s₁ =>
          E e ((s₁.withTail s.frame.tail).onFrame fun f =>
            f.popLoop.2)) := by
  unfold loopBody
  rw [Process.meets_bind, meets_inLoop, meets_inBranch]
  refine iff_of_eq (congrArg
    (fun Q => Process.Meets body (s.inRound node) Q _) ?_)
  funext _ s₁
  rw [Process.meets_bind, meets_build,
    Builder.meets_onFrame]
  by_cases hReturn : s.frame.returns < s₁.frame.returns
  · have hContains :
        (branchFrom ⟨node, 0⟩
          (s.onFrame fun f => f.pushLoop node)
          s₁).containsReturn = true :=
      decide_eq_true hReturn
    rw [if_pos hReturn, if_pos hContains,
      Process.meets_bind, meets_build]
    rfl
  · have hContains :
        ¬(branchFrom ⟨node, 0⟩
          (s.onFrame fun f => f.pushLoop node)
          s₁).containsReturn = true := by
      intro h
      exact hReturn (of_decide_eq_true h)
    rw [if_neg hReturn, if_neg hContains]
    rfl

end FlowGraph.Script

------------------------------------------------------------
-- Loops With A Value For Each Round
------------------------------------------------------------

namespace FlowGraph.Script

variable {s : Session}
variable {E : Error → Session → Prop}

/- The node of a loop that counts. -/
def rangeNode
    (start stop : Value) :
    Node where
  nodeClass := .exec
  nodeType := "finite_loop"
  args := [start, stop]
  execOutputs := 2
  outputs := [⟨"current_loop_value", .int⟩]

/- The node of a loop over a list. -/
def itemsNode
    (list : Value)
    (element : ValueType) :
    Node where
  nodeClass := .exec
  nodeType := "list_iteration_loop"
  args := [list]
  execOutputs := 2
  outputs := [⟨"iteration_value", element⟩]

/- The output of a built-in node that was just placed. -/
theorem meets_pinValue_placed
    {kind : Builtin}
    {args : List Value}
    {dynamic : Option ValueType}
    {index : Nat}
    {spec : PinSpec}
    {Q : Value → Session → Prop}
    (hSpec : kind.outputs[index]? = some spec) :
    (liftM (Builder.pinValue s.graph.nextId spec.name index)
        : Run Value).Meets
        (s.placed (kind.node args dynamic)) Q E ↔
      Q (.pin (spec.pin dynamic).type
          ⟨s.graph.nextId, spec.name, index⟩)
        (s.placed (kind.node args dynamic)) := by
  rw [meets_build]
  exact Builder.meets_pinValue Graph.get?_attach_self
    (Builder.output?_node hSpec)

theorem meets_countingLoop
    {start stop : Input}
    {body : Nat → Value → Run Unit}
    {Q : Nat → Session → Prop}
    (hReady : s.builder.Ready) :
    (countingLoop start stop body).Meets s Q E ↔
      (∀ a, start.read .int = .ok a →
        (∀ b, stop.read .int = .ok b →
          (loopBody s.graph.nextId
              (body s.graph.nextId
                (.pin .int
                  ⟨s.graph.nextId, "current_loop_value",
                    0⟩))).Meets
            (s.placed (rangeNode a b))
            (fun _ s' => Q s.graph.nextId s') E) ∧
        (∀ e, stop.read .int = .error e → E e s)) ∧
      (∀ e, start.read .int = .error e → E e s) := by
  have hValue :
      Builtin.finiteLoop.outputs[0]? =
        some ⟨"current_loop_value", some .int⟩ := rfl
  unfold countingLoop
  simp only [Process.meets_bind, Process.meets_ofExcept]
  refine and_congr_left' (forall_congr' fun a =>
    imp_congr_right fun _ => and_congr_left'
      (forall_congr' fun b => imp_congr_right fun _ => ?_))
  rw [meets_build, Builder.meets_placeBuiltin hReady
    (show Builtin.finiteLoop.nodeClass = .exec from rfl)]
  exact (meets_pinValue_placed hValue).trans Iff.rfl

theorem meets_itemLoop
    {list : Value}
    {body : Nat → Value → Run Unit}
    {Q : Nat → Session → Prop}
    (hReady : s.builder.Ready) :
    (itemLoop list body).Meets s Q E ↔
      (∀ element, itemType list = .ok element →
        (loopBody s.graph.nextId
            (body s.graph.nextId
              (.pin element
                ⟨s.graph.nextId, "iteration_value",
                  0⟩))).Meets
          (s.placed (itemsNode list element))
          (fun _ s' => Q s.graph.nextId s') E) ∧
      (∀ e, itemType list = .error e → E e s) := by
  have hValue :
      Builtin.listIterationLoop.outputs[0]? =
        some ⟨"iteration_value", none⟩ := rfl
  unfold itemLoop
  simp only [Process.meets_bind, Process.meets_ofExcept]
  refine and_congr_left' (forall_congr' fun element =>
    imp_congr_right fun _ => ?_)
  rw [meets_build, Builder.meets_placeBuiltin hReady
    (show Builtin.listIterationLoop.nodeClass = .exec
      from rfl)]
  exact (meets_pinValue_placed hValue).trans Iff.rfl

end FlowGraph.Script

------------------------------------------------------------
-- Names And Entries
------------------------------------------------------------

namespace FlowGraph.Script

/- The names with something kept, if it has a name. -/
def Names.keepAs
    {α : Type}
    (names : Names)
    (bind : Names → String → α → Names)
    (name : Option String)
    (a : α) :
    Names :=
  match name with
  | some name => bind names name a
  | none => names

/- The names with a result kept. -/
def Names.keep
    (names : Names)
    (bind : Binding) :
    Result → Names
  | .node id => names.keepAs Names.bindNode bind.node id
  | .value v => names.keepAs Names.bindValue bind.value v
  | .variable v =>
      names.keepAs Names.bindVariable bind.value v
  | _ => names

/- A session with other names. -/
def Session.withNames
    (s : Session)
    (names : Names) :
    Session :=
  { s with names := names }

variable {α : Type} {s : Session}
variable {Q : Unit → Session → Prop}
variable {E : Error → Session → Prop}

@[simp] theorem Session.withNames_builder
    (names : Names) :
    (s.withNames names).builder = s.builder :=
  rfl

@[simp] theorem Session.withNames_journal
    (names : Names) :
    (s.withNames names).journal = s.journal :=
  rfl

@[simp] theorem Session.withNames_names
    (names : Names) :
    (s.withNames names).names = names :=
  rfl

theorem meets_keepAs
    {bind : Names → String → α → Names}
    {name : Option String}
    {a : α} :
    (keepAs bind name a).Meets s Q E ↔
      Q () (s.withNames (s.names.keepAs bind name a)) := by
  cases name <;> exact Iff.rfl

theorem meets_keepResult
    {bind : Binding}
    {r : Result} :
    (keepResult bind r).Meets s Q E ↔
      Q () (s.withNames (s.names.keep bind r)) :=
  match r with
  | .node _ => meets_keepAs
  | .value _ => meets_keepAs
  | .variable _ => meets_keepAs
  | .none => Iff.rfl
  | .gate _ => Iff.rfl
  | .branch _ => Iff.rfl
  | .succeeded => Iff.rfl
  | .caught _ => Iff.rfl

theorem meets_keepLoop
    {bind : Binding}
    {node : Nat}
    {value : Value} :
    (keepLoop bind node value).Meets s Q E ↔
      Q () (s.withNames
        ((s.names.keep bind (.value value)).keep bind
          (.node node))) := by
  unfold keepLoop
  rw [Process.meets_bind, meets_keepAs, meets_keepAs]
  exact Iff.rfl

/- Whether an event is a refusal. -/
def Event.isFailure : Event → Bool
  | .failed _ => true
  | _ => false

/- A statement that is finished, its result kept. -/
def Session.finish
    (s : Session)
    (path : Path)
    (bind : Binding)
    (r : Result) :
    Session :=
  (s.withNames (s.names.keep bind r)).record path
    (.finished r)

theorem meets_journaled
    {path : Path}
    {bind : Binding}
    {m : Run Result} :
    (journaled path bind m).Meets s Q E ↔
      m.Meets s (fun r s' => Q () (s'.finish path bind r))
        (fun e s' => E e (s'.record path (.failed e))) := by
  unfold journaled
  rw [Process.meets_bind, Process.meets_observe]
  simp only [Process.meets_bind, meets_keepResult,
    meets_note, Process.meets_refuse]
  exact Iff.rfl

theorem meets_entered
    {path : Path}
    {body : Run Unit} :
    (entered path body).Meets s Q E ↔
      body.Meets (s.record path .entered) Q E := by
  unfold entered
  rw [Process.meets_bind, meets_note]

end FlowGraph.Script
