import FlowGraph.Proofs.Growth
import FlowGraph.Proofs.Outcome
import FlowGraph.Proofs.Refusal

/-
  What the steps of a builder do.

  A builder is ready if its graph is well-formed and the
  flow goes on from open exec outputs.  From there a node
  can always be placed, and what a step leaves is a builder
  that is ready again.

  Key definitions include:
    * `FlowGraph.Builder.Ready`
    * `FlowGraph.Builder.Advances`
    * `FlowGraph.Builder.placed`
    * `FlowGraph.Builder.added`

  Key theorems include:
    * `FlowGraph.Builder.meets_place`
    * `FlowGraph.Builder.Advances.trans`
    * `FlowGraph.Builder.meets_returnNow`
-/

------------------------------------------------------------
-- Declared Variables
------------------------------------------------------------

namespace FlowGraph

/-
  The variable was declared by a node of the graph, and its
  handle and its value are the two outputs of that node.
-/
structure Variable.Declared
    (v : Variable)
    (g : Graph) :
    Prop where
  node_lt : v.node < g.nextId
  handle : v.handle.source = .pin ⟨v.node, "variable", 0⟩
  value : v.value.source = .pin ⟨v.node, "value", 1⟩

/- A declared variable stays declared. -/
theorem Variable.Declared.mono
    {v : Variable}
    {g g' : Graph}
    (h : v.Declared g)
    (hLe : g.nextId ≤ g'.nextId) :
    v.Declared g' :=
  ⟨Nat.lt_of_lt_of_le h.node_lt hLe, h.handle, h.value⟩

end FlowGraph

------------------------------------------------------------
-- Builders That Are Ready
------------------------------------------------------------

namespace FlowGraph.Builder

/- The next node can be placed. -/
structure Ready
    (b : Builder) :
    Prop where
  wf : b.graph.Wf
  cursor : b.graph.Cursor b.frame.tail
  gate : ∀ v, b.frame.gate = some v → v.Declared b.graph
  gateType :
    ∀ v, b.frame.gate = some v → v.value.type = .bool

/-
  The second builder is what a step made of the first.  The
  loops around are the same, returns are only added, and a
  gate is declared at most once.
-/
structure Advances
    (b b' : Builder) :
    Prop where
  ready : b'.Ready
  advance :
    b.graph.Advance b.frame.tail b'.graph b'.frame.tail
  loops : b'.frame.loops = b.frame.loops
  returns : b.frame.returns ≤ b'.frame.returns
  gateKept :
    ∀ v, b.frame.gate = some v → b'.frame.gate = some v
  gateNew :
    ∀ v, b.frame.gate = none → b'.frame.gate = some v →
      b.graph.nextId ≤ v.node

variable {b b₁ b₂ : Builder}

/- The open endpoints belong to numbers in use. -/
theorem Ready.tail_lt
    (h : b.Ready)
    {e : Endpoint}
    (he : e ∈ b.frame.tail) :
    e.node < b.graph.nextId :=
  h.cursor.node_lt h.wf he

/- The value of the gate is the second output of its node. -/
theorem Ready.gate_value
    (h : b.Ready)
    {v : Variable}
    (hGate : b.frame.gate = some v) :
    v.value = ⟨.bool, .pin ⟨v.node, "value", 1⟩⟩ := by
  rw [← h.gateType v hGate, ← (h.gate v hGate).value]

theorem Advances.nextId_le
    (h : b.Advances b₁) :
    b.graph.nextId ≤ b₁.graph.nextId :=
  h.advance.grows.nextId_le

/- A step may change nothing. -/
theorem Advances.refl
    (h : b.Ready) :
    b.Advances b where
  ready := h
  advance := Graph.Advance.refl h.cursor
  loops := rfl
  returns := Nat.le_refl _
  gateKept _ hGate := hGate
  gateNew _ hNone hSome := by
    rw [hNone] at hSome
    cases hSome

/- One step after another. -/
theorem Advances.trans
    (hReady : b.Ready)
    (h₁ : b.Advances b₁)
    (h₂ : b₁.Advances b₂) :
    b.Advances b₂ where
  ready := h₂.ready
  advance := h₁.advance.trans h₂.advance
    fun _ he => hReady.tail_lt he
  loops := h₂.loops.trans h₁.loops
  returns := Nat.le_trans h₁.returns h₂.returns
  gateKept v hGate := h₂.gateKept v (h₁.gateKept v hGate)
  gateNew := by
    intro v hNone hSome
    cases hGate : b₁.frame.gate with
    | none =>
        exact Nat.le_trans h₁.nextId_le
          (h₂.gateNew v hGate hSome)
    | some w =>
        have hKept := h₂.gateKept w hGate
        rw [hSome] at hKept
        cases hKept
        exact h₁.gateNew v hNone hGate

end FlowGraph.Builder

------------------------------------------------------------
-- Adding And Placing Nodes
------------------------------------------------------------

namespace FlowGraph.Builder

/- The builder with a node added apart from the flow. -/
def added
    (b : Builder)
    (n : Node) :
    Builder :=
  { b with graph := b.graph.attach n [] }

/-
  The builder with a node placed at the cursor.  The flow
  goes on from its first exec output, if it has one.
-/
def placed
    (b : Builder)
    (n : Node) :
    Builder :=
  { b with
    graph := b.graph.attach n b.frame.tail
    frame := b.frame.setTail
      (if 0 < n.execOutputs then [⟨b.graph.nextId, 0⟩]
        else []) }

variable {b : Builder} {n : Node}
variable {E : Error → Builder → Prop}

@[simp] theorem meets_add
    {Q : Nat → Builder → Prop} :
    (add n).Meets b Q E ↔ Q b.graph.nextId (b.added n) :=
  Iff.rfl

@[simp] theorem meets_addBuiltin
    {kind : Builtin}
    {args : List Value}
    {dynamic : Option ValueType}
    {Q : Nat → Builder → Prop} :
    (addBuiltin kind args dynamic).Meets b Q E ↔
      Q b.graph.nextId (b.added (kind.node args dynamic)) :=
  Iff.rfl

@[simp] theorem meets_onFrame
    {f : Frame → Frame}
    {Q : Unit → Builder → Prop} :
    (onFrame f).Meets b Q E ↔
      Q () { b with frame := f b.frame } :=
  Iff.rfl

@[simp] theorem meets_fromFrame
    {α : Type}
    {f : Frame → α × Frame}
    {Q : α → Builder → Prop} :
    (fromFrame f).Meets b Q E ↔
      Q (f b.frame).1 { b with frame := (f b.frame).2 } :=
  Iff.rfl

@[simp] theorem meets_frameNow
    {Q : Frame → Builder → Prop} :
    frameNow.Meets b Q E ↔ Q b.frame b :=
  Iff.rfl

/- All of some open endpoints can be linked to a node. -/
theorem each_connect
    {t : Nat}
    {tail : List Endpoint}
    {b : Builder}
    (hExec : b.graph.IsExec t)
    (hCursor : b.graph.Cursor tail) :
    Process.each (fun e => connect e t) tail b =
      (.ok (),
        { b with
          graph :=
            { b.graph with
              links := tail.foldl
                (fun links e => links.insert e t)
                b.graph.links } }) := by
  induction tail generalizing b with
  | nil =>
      rfl
  | cons e rest ih =>
      obtain ⟨hNot, hNodup⟩ :=
        List.nodup_cons.mp hCursor.nodup
      have hOpen := hCursor.isOpen e (by simp)
      let b₁ : Builder :=
        { b with
          graph :=
            { b.graph with
              links := b.graph.links.insert e t } }
      have hConnect : connect e t b = (.ok (), b₁) := by
        simp only [connect,
          Graph.connect_eq_ok hOpen hExec]
        rfl
      have hRest : b₁.graph.Cursor rest := by
        refine ⟨hNodup, ?_⟩
        intro d hd
        have hOld := hCursor.isOpen d (by simp [hd])
        refine ⟨hOld.1, ?_⟩
        have hNe : d ≠ e := by
          rintro rfl
          exact hNot hd
        exact (Table.get?_insert_of_ne _ t hNe).trans hOld.2
      exact (Process.bind_of_ok hConnect _).trans
        (ih hExec hRest)

/- At a ready builder an exec node can be placed. -/
theorem place_eq
    (hReady : b.Ready)
    (hExec : n.nodeClass = .exec) :
    place n b = (.ok b.graph.nextId, b.placed n) := by
  have hWf := hReady.wf
  let b₁ : Builder :=
    { b with
      graph := b.graph.attach n []
      frame := b.frame.setTail [] }
  have hGrows : b.graph.Grows [] (b.graph.attach n []) :=
    Graph.grows_attach hWf
  have hNew : b₁.graph.IsExec b.graph.nextId :=
    ⟨n, Graph.get?_attach_self, hExec⟩
  have hCursor : b₁.graph.Cursor b.frame.tail :=
    hGrows.cursor hWf hReady.cursor (by simp)
  have hLinked := each_connect hNew hCursor
  have hRun :
      place n b =
        (Process.each (fun e => connect e b.graph.nextId)
          b.frame.tail >>= fun _ =>
            if 0 < n.execOutputs then
              onFrame (fun f =>
                f.linkFrom b.graph.nextId 0) >>= fun _ =>
                  pure b.graph.nextId
            else
              pure b.graph.nextId) b₁ := by
    rfl
  rw [hRun, Process.bind_of_ok hLinked]
  unfold placed
  split <;> rfl

/- What placing a node comes to. -/
theorem meets_place
    {Q : Nat → Builder → Prop}
    (hReady : b.Ready)
    (hExec : n.nodeClass = .exec) :
    (place n).Meets b Q E ↔
      Q b.graph.nextId (b.placed n) := by
  unfold Process.Meets
  rw [place_eq hReady hExec]

end FlowGraph.Builder

------------------------------------------------------------
-- Advance By One Node
------------------------------------------------------------

namespace FlowGraph.Builder

variable {b : Builder} {n : Node}

/- A node apart from the flow leaves the flow as it is. -/
theorem advances_added
    (h : b.Ready) :
    b.Advances (b.added n) := by
  have hGrows : b.graph.Grows [] (b.graph.attach n []) :=
    Graph.grows_attach h.wf
  refine ⟨⟨?_, ?_, ?_, h.gateType⟩, ?_, rfl, Nat.le_refl _,
    fun _ hGate => hGate, ?_⟩
  · exact h.wf.attach (Graph.cursor_nil _) (Or.inl rfl)
  · exact hGrows.cursor h.wf h.cursor (by simp)
  · intro v hGate
    exact (h.gate v hGate).mono hGrows.nextId_le
  · exact Graph.Advance.of_apart hGrows.nodes
      hGrows.nextId_le
      (fun hLt => hGrows.apart hLt (by simp)) h.wf h.cursor
  · intro v hNone hSome
    exact absurd (hNone.symm.trans hSome) (by simp)

/- The exec outputs of a placed node. -/
theorem isOpen_placed
    (h : b.Ready)
    (hExec : n.nodeClass = .exec)
    {index : Nat}
    (hIndex : index < n.execOutputs) :
    (b.placed n).graph.IsOpen ⟨b.graph.nextId, index⟩ :=
  Graph.isOpen_attach h.wf h.cursor hExec hIndex

/- Placing an exec node advances the flow. -/
theorem advances_placed
    (h : b.Ready)
    (hExec : n.nodeClass = .exec) :
    b.Advances (b.placed n) := by
  have hGrows :
      b.graph.Grows b.frame.tail (b.placed n).graph :=
    Graph.grows_attach h.wf
  refine ⟨⟨?_, ?_, ?_, h.gateType⟩, ?_, rfl, Nat.le_refl _,
    fun _ hGate => hGate, ?_⟩
  · exact h.wf.attach h.cursor (Or.inr hExec)
  · simp only [placed, Frame.setTail]
    split
    · rename_i hOutputs
      exact Graph.cursor_singleton
        (isOpen_placed h hExec hOutputs)
    · exact Graph.cursor_nil _
  · intro v hGate
    exact (h.gate v hGate).mono hGrows.nextId_le
  · refine hGrows.advance_of_new ?_
    intro e he
    simp only [placed, Frame.setTail] at he
    split at he
    · simp only [List.mem_singleton] at he
      simp [he]
    · simp at he
  · intro v hNone hSome
    exact absurd (hNone.symm.trans hSome) (by simp)

/- Sealing the path drops the open endpoints. -/
theorem advances_seal
    (h : b.Ready)
    (returning : Bool) :
    b.Advances
      { b with frame := b.frame.sealPath returning } := by
  refine
    ⟨⟨h.wf, Graph.cursor_nil _, h.gate, h.gateType⟩, ?_, rfl,
      ?_, fun _ hGate => hGate, ?_⟩
  · refine (Graph.Grows.refl ?_).advance_of_new ?_
    · intro e he
      exact (h.cursor.isOpen e he).2
    · intro e he
      exact absurd he List.not_mem_nil
  · simp only [Frame.sealPath]
    split <;> omega
  · intro v hNone hSome
    exact absurd (hNone.symm.trans hSome) (by simp)

end FlowGraph.Builder

------------------------------------------------------------
-- Built-In Nodes
------------------------------------------------------------

namespace FlowGraph

/- The name of a built-in node type is its own. -/
theorem Builtin.ofName?_name
    (kind : Builtin) :
    Builtin.ofName? kind.name = some kind := by
  cases kind with
  | binary op => cases op <;> decide
  | unary op => cases op <;> decide
  | _ => decide

/- The names of all built-in node types. -/
def builtinTypes : List String :=
  ["graph_entry", "double_branch", "multiple_branches",
    "finite_loop", "list_iteration_loop", "break_loop",
    "get_local_variable", "set_local_variable",
    "print_string", "assembly_list", "assembly_dictionary",
    "addition", "subtraction", "multiplication", "division",
    "modulo", "equal", "not_equal", "less_than",
    "less_than_or_equal", "greater_than",
    "greater_than_or_equal", "logical_and", "logical_or",
    "logical_xor", "negation", "absolute_value",
    "logical_not"]

/- The catalog has these types and no others. -/
theorem Builtin.ofName?_eq_none_iff
    {s : String} :
    Builtin.ofName? s = none ↔ s ∉ builtinTypes := by
  have hNames : builtinTypes = Builtin.all.map name := rfl
  unfold Builtin.ofName?
  rw [hNames, List.find?_eq_none, List.mem_map]
  constructor
  · rintro hNone ⟨kind, hMem, hName⟩
    exact hNone kind hMem (decide_eq_true hName)
  · intro hNot kind hMem hName
    exact hNot ⟨kind, hMem, of_decide_eq_true hName⟩

end FlowGraph

------------------------------------------------------------
-- Pins Of A New Node
------------------------------------------------------------

namespace FlowGraph.Builder

variable {b : Builder} {n : Node}

/- A named output of a node has a value. -/
theorem pinValue_eq
    {id index : Nat}
    {slot : String}
    {pin : OutputPin}
    (hNode : b.graph.nodes.get? id = some n)
    (hPin : n.output? slot index = some pin) :
    pinValue id slot index b =
      (.ok (.pin pin.type ⟨id, slot, index⟩), b) := by
  have hGraph :
      b.graph.pinValue id slot index =
        .ok (.pin pin.type ⟨id, slot, index⟩) := by
    simp [Graph.pinValue, Graph.node, hNode, hPin, bind,
      Except.bind]
  have hRun :
      pinValue id slot index b =
        (b.graph.pinValue id slot index, b) := by
    rfl
  rw [hRun, hGraph]

/- What reading a named output comes to. -/
theorem meets_pinValue
    {id index : Nat}
    {slot : String}
    {pin : OutputPin}
    {Q : Value → Builder → Prop}
    {E : Error → Builder → Prop}
    (hNode : b.graph.nodes.get? id = some n)
    (hPin : n.output? slot index = some pin) :
    (pinValue id slot index).Meets b Q E ↔
      Q (.pin pin.type ⟨id, slot, index⟩) b := by
  unfold Process.Meets
  rw [pinValue_eq hNode hPin]

/- The outputs of a built-in node. -/
theorem output?_node
    {kind : Builtin}
    {args : List Value}
    {dynamic : Option ValueType}
    {index : Nat}
    {spec : PinSpec}
    (hSpec : kind.outputs[index]? = some spec) :
    (kind.node args dynamic).output? spec.name index =
      some (spec.pin dynamic) := by
  simp [Node.output?, Builtin.node, hSpec, PinSpec.pin]

/- The output of a built-in node that was just added. -/
theorem meets_pinValue_added
    {kind : Builtin}
    {args : List Value}
    {dynamic : Option ValueType}
    {index : Nat}
    {spec : PinSpec}
    {Q : Value → Builder → Prop}
    {E : Error → Builder → Prop}
    (hSpec : kind.outputs[index]? = some spec) :
    (pinValue b.graph.nextId spec.name index).Meets
        (b.added (kind.node args dynamic)) Q E ↔
      Q (.pin (spec.pin dynamic).type
          ⟨b.graph.nextId, spec.name, index⟩)
        (b.added (kind.node args dynamic)) :=
  meets_pinValue Graph.get?_attach_self (output?_node hSpec)

end FlowGraph.Builder

------------------------------------------------------------
-- Typed Operations
------------------------------------------------------------

namespace FlowGraph.Builder

/- The variable that a node with a number declares. -/
def variableAt
    (id : Nat)
    (type : ValueType) :
    Variable :=
  ⟨id, ⟨.localVariable, .pin ⟨id, "variable", 0⟩⟩,
    ⟨type, .pin ⟨id, "value", 1⟩⟩⟩

/-
  The node that declares a variable.  Its first output is
  the handle of the variable, its second one the value.
-/
def variableNode
    (initial : Value) :
    Node where
  nodeClass := .data
  nodeType := "get_local_variable"
  args := [initial]
  execOutputs := 0
  outputs :=
    [⟨"variable", .localVariable⟩, ⟨"value", initial.type⟩]

variable {b : Builder}
variable {E : Error → Builder → Prop}

theorem meets_declareVariable
    {initial : Value}
    {Q : Variable → Builder → Prop} :
    (declareVariable initial).Meets b Q E ↔
      Q (variableAt b.graph.nextId initial.type)
        (b.added (variableNode initial)) := by
  have hHandle :
      Builtin.getLocalVariable.outputs[0]? =
        some ⟨"variable", some .localVariable⟩ := rfl
  have hValue :
      Builtin.getLocalVariable.outputs[1]? =
        some ⟨"value", none⟩ := rfl
  unfold declareVariable
  simp only [Process.meets_bind, meets_addBuiltin,
    Process.meets_pure]
  rw [meets_pinValue_added hHandle,
    meets_pinValue_added hValue]
  rfl

/- The new variable is declared by the new node. -/
theorem variableAt_declared
    (b : Builder)
    (initial : Value) :
    (variableAt b.graph.nextId initial.type).Declared
      (b.added (variableNode initial)).graph :=
  ⟨Nat.lt_succ_self _, rfl, rfl⟩

/- The node that gives a variable a value. -/
def assignNode
    (v : Variable)
    (value : Value) :
    Node where
  nodeClass := .exec
  nodeType := "set_local_variable"
  args := [v.handle, value]
  execOutputs := 1
  outputs := []

theorem meets_setVariable
    {v : Variable}
    {input : Input}
    {Q : Nat → Builder → Prop}
    (hReady : b.Ready) :
    (setVariable v input).Meets b Q E ↔
      (∀ value, input.read v.value.type = .ok value →
        Q b.graph.nextId (b.placed (assignNode v value))) ∧
      (∀ e, input.read v.value.type = .error e → E e b) := by
  unfold setVariable placeBuiltin
  rw [Process.meets_bind, Process.meets_ofExcept]
  simp only [meets_place hReady
    (show (Builtin.setLocalVariable.node _ _).nodeClass =
      .exec from rfl)]
  rfl

/- The node that prints a text. -/
def printNode
    (text : Value) :
    Node where
  nodeClass := .exec
  nodeType := "print_string"
  args := [text]
  execOutputs := 1
  outputs := []

theorem meets_printString
    {input : Input}
    {Q : Nat → Builder → Prop}
    (hReady : b.Ready) :
    (printString input).Meets b Q E ↔
      (∀ text, input.read .str = .ok text →
        Q b.graph.nextId (b.placed (printNode text))) ∧
      (∀ e, input.read .str = .error e → E e b) := by
  unfold printString placeBuiltin
  rw [Process.meets_bind, Process.meets_ofExcept]
  simp only [meets_place hReady
    (show (Builtin.printString.node _ _).nodeClass =
      .exec from rfl)]
  rfl

/- The node of a binary operator. -/
def binaryNode
    (op : BinaryOp)
    (x y : Value) :
    Node where
  nodeClass := .data
  nodeType := op.nodeType
  args := [x, y]
  execOutputs := 0
  outputs := [⟨"result", op.resultType x.type⟩]

theorem output?_binaryNode
    (op : BinaryOp)
    (x y : Value) :
    (binaryNode op x y).output? "result" 0 =
      some ⟨"result", op.resultType x.type⟩ := by
  simp [Node.output?, binaryNode]

theorem meets_binary
    {op : BinaryOp}
    {x y : Value}
    {Q : Value → Builder → Prop} :
    (binary op x y).Meets b Q E ↔
      (∀ x' y', op.operands x y = .ok (x', y') →
        match Folding.binary b.config.precompute op x' y' with
        | some v => Q v b
        | none =>
            Q (.pin (op.resultType x'.type)
                ⟨b.graph.nextId, "result", 0⟩)
              (b.added (binaryNode op x' y'))) ∧
      (∀ e, op.operands x y = .error e → E e b) := by
  have hResult :
      (Builtin.binary op).outputs[0]? =
        some ⟨"result", none⟩ := rfl
  unfold binary
  rw [Process.meets_bind, Process.meets_ofExcept]
  simp only [Process.meets_bind, Process.meets_read,
    Prod.forall]
  refine and_congr_left' (forall_congr' fun x' =>
    forall_congr' fun y' => imp_congr_right fun _ => ?_)
  cases Folding.binary b.config.precompute op x' y' with
  | some v =>
      simp only [Process.meets_pure]
  | none =>
      simp only [Process.meets_bind, meets_addBuiltin]
      rw [meets_pinValue_added hResult]
      rfl

/- The node of a unary operator. -/
def unaryNode
    (op : UnaryOp)
    (x : Value) :
    Node where
  nodeClass := .data
  nodeType := op.nodeType
  args := [x]
  execOutputs := 0
  outputs := [⟨"result", x.type⟩]

theorem output?_unaryNode
    (op : UnaryOp)
    (x : Value) :
    (unaryNode op x).output? "result" 0 =
      some ⟨"result", x.type⟩ := by
  simp [Node.output?, unaryNode]

theorem meets_unary
    {op : UnaryOp}
    {x : Value}
    {Q : Value → Builder → Prop} :
    (unary op x).Meets b Q E ↔
      (∀ u, op.checkOperand x = .ok u →
        match Folding.unary b.config.precompute op x with
        | some v => Q v b
        | none =>
            Q (.pin x.type ⟨b.graph.nextId, "result", 0⟩)
              (b.added (unaryNode op x))) ∧
      (∀ e, op.checkOperand x = .error e → E e b) := by
  have hResult :
      (Builtin.unary op).outputs[0]? =
        some ⟨"result", none⟩ := rfl
  unfold unary
  rw [Process.meets_bind, Process.meets_ofExcept]
  simp only [Process.meets_bind, Process.meets_read]
  refine and_congr_left' (forall_congr' fun _ =>
    imp_congr_right fun _ => ?_)
  cases Folding.unary b.config.precompute op x with
  | some v =>
      simp only [Process.meets_pure]
  | none =>
      simp only [Process.meets_bind, meets_addBuiltin]
      rw [meets_pinValue_added hResult]
      rfl

end FlowGraph.Builder

------------------------------------------------------------
-- Collections
------------------------------------------------------------

namespace FlowGraph.Builder

variable {b : Builder}
variable {E : Error → Builder → Prop}

/- The node that assembles a list. -/
def listNode
    (element : Scalar)
    (items : List Value) :
    Node where
  nodeClass := .data
  nodeType := "assembly_list"
  args := items
  execOutputs := 0
  outputs := [⟨"list", .list element⟩]

theorem output?_listNode
    (element : Scalar)
    (items : List Value) :
    (listNode element items).output? "list" 0 =
      some ⟨"list", .list element⟩ := by
  simp [Node.output?, listNode]

theorem meets_assembleList
    {element : Scalar}
    {items : List Input}
    {Q : Value → Builder → Prop}
    (hOk :
      ∀ args, readItems (.scalar element) items = .ok args →
        Q (.pin (.list element) ⟨b.graph.nextId, "list", 0⟩)
          (b.added (listNode element args)))
    (hError :
      ∀ e, Collection.list.check items.length = .error e ∨
        readItems (.scalar element) items = .error e →
        E e b) :
    (assembleList element items).Meets b Q E := by
  have hList :
      Builtin.assemblyList.outputs[0]? =
        some ⟨"list", none⟩ := rfl
  unfold assembleList
  simp only [Process.meets_bind, Process.meets_ofExcept]
  refine ⟨?_, fun e hCheck => hError e (Or.inl hCheck)⟩
  intro _ _
  refine ⟨?_, fun e hRead => hError e (Or.inr hRead)⟩
  intro args hArgs
  rw [meets_addBuiltin, meets_pinValue_added hList]
  exact hOk args hArgs

/- The node that assembles a dictionary. -/
def dictionaryNode
    (pairs : List Value) :
    Node where
  nodeClass := .data
  nodeType := "assembly_dictionary"
  args := pairs
  execOutputs := 0
  outputs := [⟨"dictionary", .scalar .dict⟩]

theorem output?_dictionaryNode
    (pairs : List Value) :
    (dictionaryNode pairs).output? "dictionary" 0 =
      some ⟨"dictionary", .scalar .dict⟩ := by
  simp [Node.output?, dictionaryNode]

theorem meets_assembleDictionary
    {key value : ValueType}
    {pairs : List (Input × Input)}
    {Q : Value → Builder → Prop}
    (hOk :
      ∀ args, readPairs key value pairs = .ok args →
        Q (.pin (.scalar .dict)
            ⟨b.graph.nextId, "dictionary", 0⟩)
          (b.added (dictionaryNode args)))
    (hError :
      ∀ e,
        Collection.dictionary.check pairs.length = .error e ∨
          readPairs key value pairs = .error e →
        E e b) :
    (assembleDictionary key value pairs).Meets b Q E := by
  have hDict :
      Builtin.assemblyDictionary.outputs[0]? =
        some ⟨"dictionary", some (.scalar .dict)⟩ := rfl
  unfold assembleDictionary
  simp only [Process.meets_bind, Process.meets_ofExcept]
  refine ⟨?_, fun e hCheck => hError e (Or.inl hCheck)⟩
  intro _ _
  refine ⟨?_, fun e hRead => hError e (Or.inr hRead)⟩
  intro args hArgs
  rw [meets_addBuiltin, meets_pinValue_added hDict]
  exact hOk args hArgs

end FlowGraph.Builder

------------------------------------------------------------
-- Leaving Loops And Functions
------------------------------------------------------------

namespace FlowGraph.Builder

variable {b : Builder}
variable {E : Error → Builder → Prop}

/-
  The node that stops loops.  Its arguments are the numbers
  of their nodes, and nothing goes on from it.
-/
def breakNode
    (targets : List Nat) :
    Node where
  nodeClass := .exec
  nodeType := "break_loop"
  args :=
    targets.map fun id =>
      ⟨.int, .literal (.int (Int64.ofNat id))⟩
  execOutputs := 0
  outputs := []

/- Nothing goes on from a node that stops loops. -/
theorem seal_placed_breakNode
    (b : Builder)
    (targets : List Nat) :
    { b.placed (breakNode targets) with
        frame :=
          (b.placed (breakNode targets)).frame.sealPath
            false } =
      b.placed (breakNode targets) :=
  rfl

theorem meets_breakLoop
    {loops : List Nat}
    {Q : Nat → Builder → Prop}
    (hReady : b.Ready) :
    (breakLoop loops).Meets b Q E ↔
      (∀ targets, breakTargets b.frame loops = .ok targets →
        Q b.graph.nextId (b.placed (breakNode targets))) ∧
      (∀ e, breakTargets b.frame loops = .error e →
        E e b) := by
  unfold breakLoop placeBuiltin
  simp only [Process.meets_bind, meets_frameNow,
    Process.meets_ofExcept, Process.meets_pure,
    meets_onFrame]
  refine and_congr_left' (forall_congr' fun targets =>
    imp_congr_right fun _ => ?_)
  rw [meets_place hReady
    (show (Builtin.breakLoop.node _ _).nodeClass =
      .exec from rfl)]
  exact iff_of_eq
    (congrArg (Q b.graph.nextId)
      (seal_placed_breakNode b targets))

/- The builder with its gate declared. -/
def gated
    (b : Builder) :
    Builder :=
  match b.frame.gate with
  | some _ => b
  | none =>
      { b.added (variableNode (.bool false)) with
        frame := b.frame.setGate
          (variableAt b.graph.nextId .bool) }

/- The gate, declared or still to be declared. -/
def gateOf
    (b : Builder) :
    Variable :=
  b.frame.gate.getD (variableAt b.graph.nextId .bool)

theorem meets_returnGate
    {Q : Variable → Builder → Prop} :
    returnGate.Meets b Q E ↔ Q b.gateOf b.gated := by
  unfold returnGate gateOf gated
  simp only [Process.meets_bind, meets_frameNow]
  cases hGate : b.frame.gate with
  | some v =>
      exact Iff.rfl
  | none =>
      simp only [Process.meets_bind, meets_declareVariable,
        meets_onFrame, Process.meets_pure]
      exact Iff.rfl

@[simp] theorem gated_tail :
    b.gated.frame.tail = b.frame.tail := by
  unfold gated
  split <;> rfl

@[simp] theorem gated_loops :
    b.gated.frame.loops = b.frame.loops := by
  unfold gated
  split <;> rfl

@[simp] theorem gated_returns :
    b.gated.frame.returns = b.frame.returns := by
  unfold gated
  split <;> rfl

@[simp] theorem gated_gate :
    b.gated.frame.gate = some b.gateOf := by
  unfold gated gateOf
  cases hGate : b.frame.gate with
  | some v => exact hGate
  | none => rfl

/- Declaring the gate leaves the flow as it is. -/
theorem advances_gated
    (h : b.Ready) :
    b.Advances b.gated := by
  unfold gated
  split
  · exact Advances.refl h
  · rename_i hNone
    have hAdded :
        b.Advances (b.added (variableNode (.bool false))) :=
      advances_added h
    refine ⟨⟨hAdded.ready.wf, hAdded.ready.cursor, ?_, ?_⟩,
      hAdded.advance, rfl, Nat.le_refl _, ?_, ?_⟩
    · intro v hGate
      cases hGate
      exact variableAt_declared b (.bool false)
    · intro v hGate
      cases hGate
      rfl
    · intro v hGate
      exact absurd (hNone.symm.trans hGate) (by simp)
    · intro v _ hSome
      cases hSome
      exact Nat.le_refl _

theorem meets_continueLoop
    {Q : Unit → Builder → Prop} :
    continueLoop.Meets b Q E ↔
      if b.frame.inLoop then
        Q () { b with frame := b.frame.sealPath false }
      else
        E (.of .continueOutsideLoop) b := by
  unfold continueLoop
  simp only [Process.meets_bind, meets_frameNow]
  split <;> exact Iff.rfl

end FlowGraph.Builder

------------------------------------------------------------
-- Returning
------------------------------------------------------------

namespace FlowGraph.Builder

variable {b : Builder}
variable {E : Error → Builder → Prop}

/- The node that raises a gate: the gate becomes true. -/
def raiseNode
    (gate : Variable) :
    Node where
  nodeClass := .exec
  nodeType := "set_local_variable"
  args := [gate.handle, ⟨.bool, .literal (.bool true)⟩]
  execOutputs := 1
  outputs := []

/- The builder after the gate is raised. -/
def raised
    (b : Builder) :
    Builder :=
  b.gated.placed (raiseNode b.gateOf)

/- The builder after all loops around are stopped. -/
def stopped
    (b : Builder) :
    Builder :=
  if b.frame.inLoop then
    b.placed (breakNode b.frame.loops)
  else
    b

/- The builder after a return. -/
def returned
    (b : Builder) :
    Builder :=
  { b.raised.stopped with
    frame := b.raised.stopped.frame.sealPath true }

/- The gate takes the value that a return gives it. -/
theorem read_gate
    (hReady : b.Ready) :
    (Input.literal (.bool true)).read b.gateOf.value.type =
      .ok (.bool true) := by
  have hType : b.gateOf.value.type = .bool :=
    (advances_gated hReady).ready.gateType _ gated_gate
  rw [hType]
  rfl

/- All loops around the current place can be stopped. -/
theorem breakTargets_loops
    {f : Frame}
    (h : f.inLoop = true) :
    breakTargets f f.loops = .ok f.loops := by
  have hNone :
      f.loops.find? (fun id => !f.isInside id) = none := by
    rw [List.find?_eq_none]
    intro id hMem
    simp [Frame.isInside, hMem]
  have hLoops : f.loops.isEmpty = false := by
    simpa [Frame.inLoop] using h
  unfold breakTargets
  rw [hLoops, hNone]
  rfl

theorem advances_raised
    (h : b.Ready) :
    b.Advances b.raised :=
  Advances.trans h (advances_gated h)
    (advances_placed (advances_gated h).ready rfl)

theorem advances_stopped
    (h : b.Ready) :
    b.Advances b.stopped := by
  unfold stopped
  split
  · exact advances_placed h rfl
  · exact Advances.refl h

theorem advances_returned
    (h : b.Ready) :
    b.Advances b.returned := by
  have hRaised := advances_raised h
  have hStopped := advances_stopped hRaised.ready
  exact Advances.trans h (Advances.trans h hRaised hStopped)
    (advances_seal hStopped.ready true)

/- A return is counted. -/
theorem returned_returns :
    b.returned.frame.returns = b.frame.returns + 1 := by
  have hStopped :
      b.raised.stopped.frame.returns = b.frame.returns := by
    unfold stopped
    split
    · exact gated_returns
    · exact gated_returns
  simp only [returned, Frame.sealPath, hStopped, if_true]

/- A return leaves the gate declared. -/
theorem returned_gate :
    b.returned.frame.gate = some b.gateOf := by
  unfold returned stopped
  split
  · exact gated_gate
  · exact gated_gate

/- All loops around are stopped before a path goes on. -/
theorem meets_stopLoops
    {α : Type}
    {m : Build α}
    {Q : α → Builder → Prop}
    (hReady : b.Ready) :
    (if b.frame.inLoop then
        breakLoop b.frame.loops >>= fun _ => m
      else m).Meets b Q E ↔
      m.Meets b.stopped Q E := by
  unfold stopped
  split
  · rename_i hIn
    rw [Process.meets_bind, meets_breakLoop hReady,
      breakTargets_loops hIn]
    simp
  · exact Iff.rfl

/- From a ready builder a return is never refused. -/
theorem meets_returnNow
    {Q : Unit → Builder → Prop}
    (hReady : b.Ready) :
    returnNow.Meets b Q E ↔ Q () b.returned := by
  have hGated := (advances_gated hReady).ready
  have hRaised := (advances_raised hReady).ready
  have hRaise :
      b.gated.placed (assignNode b.gateOf (.bool true)) =
        b.raised := rfl
  unfold returnNow
  simp only [Process.meets_bind, meets_returnGate,
    meets_frameNow]
  rw [meets_setVariable hGated, read_gate hReady]
  simp only [Except.ok.injEq, forall_eq', reduceCtorEq,
    false_implies, implies_true, and_true, hRaise]
  rw [meets_stopLoops hRaised]
  exact Iff.rfl

end FlowGraph.Builder
