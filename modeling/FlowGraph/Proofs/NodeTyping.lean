import FlowGraph.Proofs.Provenance
import FlowGraph.Proofs.Sustained

/-
  The typing rules of the built-in nodes.

  A rule says how a node of a built-in type looks: its class,
  its arguments and their types, its exec outputs and its
  data outputs.  Every operation checks its operands before
  it adds a node, so the node obeys the rule of its type, and
  nodes that are there go on obeying it.

  Key definitions include:
    * `FlowGraph.Node.Obeys`
    * `FlowGraph.Node.WellTyped`
    * `FlowGraph.Graph.WellTyped`
    * `FlowGraph.Builder.StaysTyped`

  Key theorems include:
    * `FlowGraph.Builder.Gains.typed`
    * `FlowGraph.Builder.leaves_place`
    * `FlowGraph.Builder.typed_returnNow`
-/

------------------------------------------------------------
-- Rules
------------------------------------------------------------

namespace FlowGraph

/- The node declares a variable with values of a type. -/
def Graph.Declares
    (g : Graph)
    (id : Nat)
    (t : ValueType) :
    Prop :=
  ∃ n, g.nodes.get? id = some n ∧
    n.nodeType = "get_local_variable" ∧
    n.outputs =
      [⟨"variable", .localVariable⟩, ⟨"value", t⟩]

/-
  The rules.  A node consists of its class, its type, its
  arguments, the number of its exec outputs and its data
  outputs.
-/
inductive Node.Obeys
    (g : Graph) :
    Node → Prop
  | graphEntry {event : Value}
      (hEvent : event.type = .str) :
      Obeys g ⟨.exec, "graph_entry", [event], 1, []⟩
  | doubleBranch {condition : Value}
      (hCondition : condition.type = .bool) :
      Obeys g ⟨.exec, "double_branch", [condition], 2, []⟩
  | multipleBranches {control : Value} {labels : List Value}
      (hControl :
        control.type = .int ∨ control.type = .str)
      (hSame : ∀ v ∈ labels, v.type = control.type)
      (hLabels :
        ∀ v ∈ labels,
          (∃ i, v = ⟨.int, .literal (.int i)⟩) ∨
            ∃ t, v = ⟨.str, .literal (.str t)⟩)
      (hDistinct : labels.Nodup) :
      Obeys g
        ⟨.exec, "multiple_branches", control :: labels,
          (control :: labels).length, []⟩
  | finiteLoop {start stop : Value}
      (hStart : start.type = .int)
      (hStop : stop.type = .int) :
      Obeys g
        ⟨.exec, "finite_loop", [start, stop], 2,
          [⟨"current_loop_value", .int⟩]⟩
  | listIterationLoop {list : Value} {element : Scalar}
      (hList : list.type = .list element) :
      Obeys g
        ⟨.exec, "list_iteration_loop", [list], 2,
          [⟨"iteration_value", .scalar element⟩]⟩
  | breakLoop {loops : List Int64}
      (hSome : loops ≠ []) :
      Obeys g
        ⟨.exec, "break_loop",
          loops.map fun i => ⟨.int, .literal (.int i)⟩, 0,
          []⟩
  | getLocalVariable {initial : Value} :
      Obeys g
        ⟨.data, "get_local_variable", [initial], 0,
          [⟨"variable", .localVariable⟩,
            ⟨"value", initial.type⟩]⟩
  | setLocalVariable {id : Nat} {value : Value}
      (hDeclared : g.Declares id value.type) :
      Obeys g
        ⟨.exec, "set_local_variable",
          [⟨.localVariable, .pin ⟨id, "variable", 0⟩⟩, value],
          1, []⟩
  | printString {text : Value}
      (hText : text.type = .str) :
      Obeys g ⟨.exec, "print_string", [text], 1, []⟩
  | assemblyList {items : List Value} {element : Scalar}
      (hItems : ∀ v ∈ items, v.type = .scalar element)
      (hSome : 1 ≤ items.length)
      (hLimit : items.length ≤ 100) :
      Obeys g
        ⟨.data, "assembly_list", items, 0,
          [⟨"list", .list element⟩]⟩
  | assemblyDictionary {items : List Value} {size : Nat}
      {key value : ValueType}
      (hItems :
        items.map Value.type =
          (List.replicate size [key, value]).flatten)
      (hSome : 1 ≤ size)
      (hLimit : size ≤ 50) :
      Obeys g
        ⟨.data, "assembly_dictionary", items, 0,
          [⟨"dictionary", .scalar .dict⟩]⟩
  | arithmetic {op : String} {a b : Value}
      (hOp :
        op ∈ ["addition", "subtraction", "multiplication",
          "division", "modulo"])
      (hSame : b.type = a.type)
      (hNumber : a.type = .int ∨ a.type = .float) :
      Obeys g ⟨.data, op, [a, b], 0, [⟨"result", a.type⟩]⟩
  | equality {op : String} {a b : Value}
      (hOp : op ∈ ["equal", "not_equal"])
      (hSame : b.type = a.type) :
      Obeys g ⟨.data, op, [a, b], 0, [⟨"result", .bool⟩]⟩
  | ordering {op : String} {a b : Value}
      (hOp :
        op ∈ ["less_than", "less_than_or_equal",
          "greater_than", "greater_than_or_equal"])
      (hSame : b.type = a.type)
      (hNumber : a.type = .int ∨ a.type = .float) :
      Obeys g ⟨.data, op, [a, b], 0, [⟨"result", .bool⟩]⟩
  | connective {op : String} {a b : Value}
      (hOp : op ∈ ["logical_and", "logical_or", "logical_xor"])
      (hSame : b.type = a.type)
      (hBool : a.type = .bool) :
      Obeys g ⟨.data, op, [a, b], 0, [⟨"result", .bool⟩]⟩
  | magnitude {op : String} {a : Value}
      (hOp : op ∈ ["negation", "absolute_value"])
      (hNumber : a.type = .int ∨ a.type = .float) :
      Obeys g ⟨.data, op, [a], 0, [⟨"result", a.type⟩]⟩
  | logicalNot {a : Value}
      (hBool : a.type = .bool) :
      Obeys g
        ⟨.data, "logical_not", [a], 0, [⟨"result", .bool⟩]⟩

/- If the node has a built-in type, it obeys its rule. -/
def Node.WellTyped
    (g : Graph)
    (n : Node) :
    Prop :=
  n.nodeType ∈ builtinTypes → n.Obeys g

/- All nodes of built-in types obey their rules. -/
def Graph.WellTyped
    (g : Graph) :
    Prop :=
  ∀ id n, g.nodes.get? id = some n → n.WellTyped g

/- The numbers of the nodes are given out as well. -/
structure Graph.Typed
    (g : Graph) :
    Prop where
  below :
    ∀ {id n}, g.nodes.get? id = some n → id < g.nextId
  nodes : g.WellTyped

/- All nodes are kept as they are. -/
def Graph.Retains
    (g g' : Graph) :
    Prop :=
  ∀ id n, g.nodes.get? id = some n →
    g'.nodes.get? id = some n

end FlowGraph

------------------------------------------------------------
-- Rules In A Larger Graph
------------------------------------------------------------

namespace FlowGraph

variable {g g' : Graph} {n : Node}

/-
  A rule looks at other nodes only for the variables that
  they declare.
-/
theorem Node.Obeys.mono
    (h : n.Obeys g)
    (hKept : ∀ id t, g.Declares id t → g'.Declares id t) :
    n.Obeys g' := by
  cases h with
  | graphEntry hEvent => exact .graphEntry hEvent
  | doubleBranch hCondition => exact .doubleBranch hCondition
  | multipleBranches hControl hSame hLabels hDistinct =>
      exact .multipleBranches hControl hSame hLabels hDistinct
  | finiteLoop hStart hStop => exact .finiteLoop hStart hStop
  | listIterationLoop hList => exact .listIterationLoop hList
  | breakLoop hSome => exact .breakLoop hSome
  | getLocalVariable => exact .getLocalVariable
  | setLocalVariable hDeclared =>
      exact .setLocalVariable (hKept _ _ hDeclared)
  | printString hText => exact .printString hText
  | assemblyList hItems hSome hLimit =>
      exact .assemblyList hItems hSome hLimit
  | assemblyDictionary hItems hSome hLimit =>
      exact .assemblyDictionary hItems hSome hLimit
  | arithmetic hOp hSame hNumber =>
      exact .arithmetic hOp hSame hNumber
  | equality hOp hSame => exact .equality hOp hSame
  | ordering hOp hSame hNumber =>
      exact .ordering hOp hSame hNumber
  | connective hOp hSame hBool =>
      exact .connective hOp hSame hBool
  | magnitude hOp hNumber => exact .magnitude hOp hNumber
  | logicalNot hBool => exact .logicalNot hBool

/- A node that obeys a rule is well typed. -/
theorem Node.Obeys.wellTyped
    (h : n.Obeys g) :
    n.WellTyped g :=
  fun _ => h

theorem Node.WellTyped.mono
    (h : n.WellTyped g)
    (hKept : ∀ id t, g.Declares id t → g'.Declares id t) :
    n.WellTyped g' :=
  fun hType => (h hType).mono hKept

theorem Graph.Retains.declares
    (h : g.Retains g')
    (id : Nat)
    (t : ValueType)
    (hDeclared : g.Declares id t) :
    g'.Declares id t := by
  rcases hDeclared with ⟨n, hNode, hRest⟩
  exact ⟨n, h id n hNode, hRest⟩

/- A node is added that obeys its rule. -/
theorem Graph.Typed.insert
    (h : g.Typed)
    (hNode : n.WellTyped g)
    (hNodes : g'.nodes = g.nodes.insert g.nextId n)
    (hNext : g'.nextId = g.nextId + 1) :
    g'.Typed ∧ g.Retains g' := by
  have hKept : g.Retains g' := by
    intro id m hOld
    have hLt := h.below hOld
    rw [hNodes, Table.get?_insert_of_ne _ _ (by omega)]
    exact hOld
  -- A node of the new graph is the new one or an old one.
  have hCases :
      ∀ {id m}, g'.nodes.get? id = some m →
        (id = g.nextId ∧ m = n) ∨
          g.nodes.get? id = some m := by
    intro id m hFound
    rw [hNodes] at hFound
    by_cases hEq : id = g.nextId
    · rw [hEq, Table.get?_insert_self] at hFound
      exact Or.inl ⟨hEq, (Option.some.inj hFound).symm⟩
    · rw [Table.get?_insert_of_ne _ _ hEq] at hFound
      exact Or.inr hFound
  refine ⟨⟨?_, ?_⟩, hKept⟩
  · intro id m hFound
    rw [hNext]
    rcases hCases hFound with ⟨hEq, _⟩ | hOld
    · omega
    · have hLt := h.below hOld
      omega
  · intro id m hFound
    rcases hCases hFound with ⟨_, hEq⟩ | hOld
    · rw [hEq]
      exact hNode.mono hKept.declares
    · exact (h.nodes id m hOld).mono hKept.declares

/- A node of any other type has no rule to obey. -/
theorem Node.wellTyped_of_not_mem
    (h : n.nodeType ∉ builtinTypes) :
    n.WellTyped g :=
  fun hType => absurd hType h

end FlowGraph

------------------------------------------------------------
-- Typed Builders
------------------------------------------------------------

namespace FlowGraph

/- The variable is declared with the type of its value. -/
structure Variable.TypedIn
    (g : Graph)
    (v : Variable) :
    Prop where
  handle :
    v.handle = ⟨.localVariable, .pin ⟨v.node, "variable", 0⟩⟩
  declared : g.Declares v.node v.value.type

theorem Variable.TypedIn.mono
    {g g' : Graph}
    {v : Variable}
    (h : v.TypedIn g)
    (hKept : g.Retains g') :
    v.TypedIn g' :=
  ⟨h.handle, hKept.declares _ _ h.declared⟩

namespace Builder

/- All nodes obey their rules, and so does the gate. -/
structure Typed
    (b : Builder) :
    Prop where
  graph : b.graph.Typed
  gate :
    ∀ v, b.frame.gate = some v →
      v.TypedIn b.graph ∧ v.value.type = .bool

/- A step keeps all nodes and goes by the rules. -/
def StaysTyped
    (b b' : Builder) :
    Prop :=
  b.Typed → b'.Typed ∧ b.graph.Retains b'.graph

/- A node was added and perhaps linked. -/
structure Gains
    (n : Node)
    (b b' : Builder) :
    Prop where
  nodes :
    b'.graph.nodes = b.graph.nodes.insert b.graph.nextId n
  nextId : b'.graph.nextId = b.graph.nextId + 1
  gate : b'.frame.gate = b.frame.gate

variable {b b₁ b₂ : Builder} {n : Node}

theorem StaysTyped.refl
    (b : Builder) :
    b.StaysTyped b :=
  fun h => ⟨h, fun _ _ hNode => hNode⟩

theorem StaysTyped.trans
    (h₁ : b.StaysTyped b₁)
    (h₂ : b₁.StaysTyped b₂) :
    b.StaysTyped b₂ := by
  intro hTyped
  rcases h₁ hTyped with ⟨hTyped₁, hKept₁⟩
  rcases h₂ hTyped₁ with ⟨hTyped₂, hKept₂⟩
  exact ⟨hTyped₂, fun id n hNode =>
    hKept₂ id n (hKept₁ id n hNode)⟩

/- Neither nodes nor the gate are touched. -/
theorem StaysTyped.of_same
    (hNodes : b₁.graph.nodes = b.graph.nodes)
    (hNext : b₁.graph.nextId = b.graph.nextId)
    (hGate : b₁.frame.gate = b.frame.gate) :
    b.StaysTyped b₁ := by
  intro h
  have hKept : b.graph.Retains b₁.graph := by
    intro id n hNode
    rw [hNodes]
    exact hNode
  refine ⟨⟨⟨?_, ?_⟩, ?_⟩, hKept⟩
  · intro id n hNode
    rw [hNodes] at hNode
    rw [hNext]
    exact h.graph.below hNode
  · intro id n hNode
    rw [hNodes] at hNode
    exact (h.graph.nodes id n hNode).mono hKept.declares
  · intro v hv
    rw [hGate] at hv
    exact ⟨(h.gate v hv).1.mono hKept, (h.gate v hv).2⟩

/- The new node obeys its rule. -/
theorem Gains.typed
    (h : b.Gains n b₁)
    (hNode : n.WellTyped b.graph) :
    b.StaysTyped b₁ := by
  intro hTyped
  rcases hTyped.graph.insert hNode h.nodes h.nextId with
    ⟨hGraph, hKept⟩
  refine ⟨⟨hGraph, ?_⟩, hKept⟩
  intro v hv
  rw [h.gate] at hv
  rcases hTyped.gate v hv with ⟨hVariable, hType⟩
  exact ⟨hVariable.mono hKept, hType⟩

theorem gains_added :
    b.Gains n (b.added n) :=
  ⟨rfl, rfl, rfl⟩

end Builder

end FlowGraph

------------------------------------------------------------
-- Adding And Placing
------------------------------------------------------------

namespace FlowGraph.Builder

open Process

variable {b : Builder} {n : Node}

/- Linking adds no nodes, whether or not it is refused. -/
theorem leaves_connect
    (e : Endpoint)
    (t : Nat) :
    (connect e t).Leaves SameNodes := by
  intro b
  have hLinked := meets_connect_nodes (b := b) e t
  unfold Meets at hLinked
  unfold connect at hLinked ⊢
  cases hConnect : b.graph.connect e t with
  | error err => exact .refl
  | ok g =>
      rw [hConnect] at hLinked
      exact hLinked

/- A node that cannot be linked is still added. -/
theorem leaves_place
    (n : Node) :
    (place n).Leaves (Gains n) := by
  have hLinks :
      ∀ tail t, (Process.each (fun e => connect e t)
        tail).Leaves SameNodes :=
    fun tail t => Leaves.each (fun _ => .refl)
      (fun h₁ h₂ => h₁.trans h₂)
      (fun e => leaves_connect e t) tail
  rw [leaves_iff]
  intro b
  unfold place
  simp only [meets_bind, meets_fromFrame, meets_add]
  refine (leaves_iff.mp (hLinks _ _) _).mono ?_ ?_
  · intro _ b' hSame
    have hGate : b'.frame.gate = b.frame.gate := by
      rw [hSame.frame]
      rfl
    split
    · exact ⟨hSame.nodes, hSame.nextId, hGate⟩
    · exact ⟨hSame.nodes, hSame.nextId, hGate⟩
  · intro _ b' hSame
    refine ⟨hSame.nodes, hSame.nextId, ?_⟩
    rw [hSame.frame]
    rfl

theorem typed_bind
    {α β : Type}
    {m : Build α}
    {f : α → Build β}
    (hm : m.Leaves StaysTyped)
    (hf : ∀ a, (f a).Leaves StaysTyped) :
    (m >>= f).Leaves StaysTyped :=
  hm.bind StaysTyped.trans hf

theorem typed_checked
    {α β : Type}
    {r : Except Error α}
    {f : α → Build β}
    (hf : ∀ a, r = .ok a → (f a).Leaves StaysTyped) :
    ((liftM r : Build α) >>= f).Leaves StaysTyped :=
  .checked .refl hf

/- A step that leaves nodes and gate alone. -/
theorem typed_still
    {α : Type}
    {m : Build α}
    (h :
      m.Leaves fun b b' =>
        b'.graph = b.graph ∧ b'.frame.gate = b.frame.gate) :
    m.Leaves StaysTyped := by
  intro b
  rcases h b with ⟨hGraph, hGate⟩
  exact .of_same (by rw [hGraph]) (by rw [hGraph]) hGate

theorem typed_connect
    (e : Endpoint)
    (t : Nat) :
    (connect e t).Leaves StaysTyped := by
  intro b
  have hSame := leaves_connect e t b
  exact .of_same hSame.nodes hSame.nextId
    (by rw [hSame.frame])

/- A node that obeys its rule in any graph. -/
theorem typed_place
    (hNode : ∀ g, n.WellTyped g) :
    (place n).Leaves StaysTyped :=
  fun b => (leaves_place n b).typed (hNode b.graph)

theorem typed_add
    (hNode : ∀ g, n.WellTyped g) :
    (add n).Leaves StaysTyped :=
  fun b => gains_added.typed (hNode b.graph)

end FlowGraph.Builder

------------------------------------------------------------
-- What The Checks Let Through
------------------------------------------------------------

namespace FlowGraph

variable {v w x y : Value}

theorem number_of_expectNumber
    (h : v.expectNumber = .ok w) :
    v.type = .int ∨ v.type = .float := by
  unfold Value.expectNumber at h
  split at h
  · rename_i hNumeric
    unfold ValueType.isNumeric Scalar.isNumeric at hNumeric
    split at hNumeric
    · rename_i hType
      rw [hType]
      split at hNumeric
      · exact Or.inl rfl
      · exact Or.inr rfl
      · cases hNumeric
    · cases hNumeric
  · cases h

/- The operands of a binary operator have one type. -/
theorem check_of_operands
    {op : BinaryOp}
    (h : op.operands v w = .ok (x, y)) :
    y.type = x.type ∧ op.checkOperand x = .ok () := by
  rcases bind_eq_ok.mp h with ⟨a, _, h⟩
  rcases bind_eq_ok.mp h with ⟨b, _, h⟩
  rcases bind_eq_ok.mp h with ⟨_, hSame, h⟩
  rcases bind_eq_ok.mp h with ⟨_, hCheck, h⟩
  cases h
  exact ⟨(eq_of_expect hSame).2, hCheck⟩

/- Numbers and truth values are checked for. -/
theorem number_of_check
    {u : Unit}
    (h : (do let _ ← v.expectNumber) = Except.ok u) :
    v.type = .int ∨ v.type = .float := by
  rcases bind_eq_ok.mp h with ⟨_, hExpect, _⟩
  exact number_of_expectNumber hExpect

theorem bool_of_check
    {u : Unit}
    (h : (do let _ ← v.expect .bool) = Except.ok u) :
    v.type = .bool := by
  rcases bind_eq_ok.mp h with ⟨_, hExpect, _⟩
  exact (eq_of_expect hExpect).2

/- The operands were checked for what the operator needs. -/
theorem obeys_binary
    {g : Graph}
    {op : BinaryOp}
    (hSame : w.type = v.type)
    (hCheck : op.checkOperand v = .ok ()) :
    (Builder.binaryNode op v w).Obeys g := by
  cases op with
  | add | sub | mul | div | mod =>
      exact .arithmetic (by decide) hSame
        (number_of_check hCheck)
  | eq | ne => exact .equality (by decide) hSame
  | lt | le | gt | ge =>
      exact .ordering (by decide) hSame
        (number_of_check hCheck)
  | and | or | xor =>
      exact .connective (by decide) hSame
        (bool_of_check hCheck)

theorem obeys_unary
    {g : Graph}
    {op : UnaryOp}
    (hCheck : op.checkOperand v = .ok ()) :
    (Builder.unaryNode op v).Obeys g := by
  cases op with
  | neg | abs =>
      exact .magnitude (by decide) (number_of_check hCheck)
  | not =>
      have hBool := bool_of_check hCheck
      rw [Builder.unaryNode, hBool]
      exact .logicalNot hBool

theorem size_of_check
    {c : Collection}
    {size : Nat}
    (h : c.check size = .ok ()) :
    1 ≤ size ∧ size ≤ c.limit := by
  unfold Collection.check at h
  split at h
  · cases h
  · split at h
    · cases h
    · omega

/- As many results as items. -/
theorem length_of_mapM
    {α β : Type}
    {f : α → Except Error β}
    {items : List α}
    {results : List β}
    (h : items.mapM f = .ok results) :
    results.length = items.length := by
  induction items generalizing results with
  | nil =>
      cases h
      rfl
  | cons a rest ih =>
      rw [List.mapM_cons] at h
      rcases bind_eq_ok.mp h with ⟨b, _, h⟩
      rcases bind_eq_ok.mp h with ⟨bs, hRest, h⟩
      cases h
      simp [ih hRest]

/- Keys and values alternate. -/
theorem types_of_readPairs
    {key value : ValueType}
    {pairs : List (Input × Input)}
    {args : List Value}
    (h : Builder.readPairs key value pairs = .ok args) :
    args.map Value.type =
      (List.replicate pairs.length [key, value]).flatten := by
  rcases bind_eq_ok.mp h with ⟨rows, hRows, h⟩
  cases h
  have hRow :
      ∀ row ∈ rows, row.map Value.type = [key, value] := by
    intro row hMem
    rcases exists_of_mem_mapM hRows hMem with ⟨p, _, hPair⟩
    rcases bind_eq_ok.mp hPair with ⟨k, hKey, hPair⟩
    rcases bind_eq_ok.mp hPair with ⟨v, hValue, hPair⟩
    cases hPair
    simp [type_of_read hKey, type_of_read hValue]
  rw [List.map_flatten, ← length_of_mapM hRows]
  congr 1
  rw [List.eq_replicate_iff]
  refine ⟨by simp, ?_⟩
  intro types hTypes
  rcases List.mem_map.mp hTypes with ⟨row, hMem, rfl⟩
  exact hRow row hMem

theorem targets_ne_nil
    {f : Frame}
    {loops targets : List Nat}
    (h : Builder.breakTargets f loops = .ok targets) :
    targets ≠ [] := by
  unfold Builder.breakTargets at h
  split at h
  · split at h
    · cases h
    · cases h
      simp
  · rename_i hSome
    split at h
    · cases h
    · cases h
      simpa using hSome

end FlowGraph

------------------------------------------------------------
-- Operations
------------------------------------------------------------

namespace FlowGraph.Builder

open Process

variable {b : Builder}

/- A node that declares a variable. -/
theorem typed_declared
    (b : Builder)
    (initial : Value) :
    b.StaysTyped (b.added (variableNode initial)) :=
  gains_added.typed (Node.Obeys.getLocalVariable).wellTyped

/- The new variable is declared by the new node. -/
theorem typedIn_variableAt
    (b : Builder)
    (initial : Value) :
    (variableAt b.graph.nextId initial.type).TypedIn
      (b.added (variableNode initial)).graph :=
  ⟨rfl, _, Graph.get?_attach_self, rfl, rfl⟩

theorem typed_setVariable
    {v : Variable}
    (hVariable : b.Typed → v.TypedIn b.graph)
    (input : Input) :
    b.StaysTyped (setVariable v input b).2 := by
  intro hTyped
  have hDeclared := hVariable hTyped
  unfold setVariable
  cases hRead : input.read v.value.type with
  | error e => exact StaysTyped.refl b hTyped
  | ok value =>
      refine (leaves_place _ b).typed (fun _ => ?_) hTyped
      rw [hDeclared.handle]
      refine .setLocalVariable ?_
      rw [type_of_read hRead]
      exact hDeclared.declared

/- A function is begun in a frame without a gate. -/
theorem typed_beginFunction
    (event : String) :
    (beginFunction event).Leaves StaysTyped := by
  intro b hTyped
  rcases (gains_added (n := Script.entryNode event)).typed
        (fun _ => .graphEntry rfl) hTyped with
    ⟨hAdded, hKept⟩
  refine ⟨⟨hAdded.graph, ?_⟩, hKept⟩
  intro v hGate
  cases hGate

theorem typed_printString
    (input : Input) :
    (printString input).Leaves StaysTyped :=
  typed_checked fun _ hRead => typed_place fun _ _ =>
    .printString (type_of_read hRead)

theorem typed_binary
    (op : BinaryOp)
    (x y : Value) :
    (binary op x y).Leaves StaysTyped := by
  rw [leaves_iff]
  intro b
  rw [meets_binary]
  refine ⟨?_, fun _ _ => .refl b⟩
  intro x' y' hOperands
  rcases check_of_operands hOperands with ⟨hSame, hCheck⟩
  split
  · exact .refl b
  · exact gains_added.typed (obeys_binary hSame hCheck).wellTyped

theorem typed_unary
    (op : UnaryOp)
    (x : Value) :
    (unary op x).Leaves StaysTyped := by
  rw [leaves_iff]
  intro b
  rw [meets_unary]
  refine ⟨?_, fun _ _ => .refl b⟩
  intro _ hCheck
  split
  · exact .refl b
  · exact gains_added.typed (obeys_unary hCheck).wellTyped

theorem typed_assembleList
    (element : Scalar)
    (items : List Input) :
    (assembleList element items).Leaves StaysTyped := by
  refine typed_checked fun _ hCheck => ?_
  refine typed_checked fun args hArgs => ?_
  refine typed_bind (typed_add fun _ _ => ?_) fun _ => .refl
  rcases size_of_check hCheck with ⟨hSome, hLimit⟩
  rw [← length_of_mapM hArgs] at hSome hLimit
  refine .assemblyList ?_ hSome hLimit
  intro v hv
  rcases exists_of_mem_mapM hArgs hv with ⟨item, _, hRead⟩
  exact type_of_read hRead

theorem typed_assembleDictionary
    (key value : ValueType)
    (pairs : List (Input × Input)) :
    (assembleDictionary key value pairs).Leaves
      StaysTyped := by
  refine typed_checked fun _ hCheck => ?_
  refine typed_checked fun args hArgs => ?_
  refine typed_bind (typed_add fun _ _ => ?_) fun _ => .refl
  rcases size_of_check hCheck with ⟨hSome, hLimit⟩
  exact .assemblyDictionary (types_of_readPairs hArgs) hSome
    hLimit

theorem typed_breakLoop
    (loops : List Nat) :
    (breakLoop loops).Leaves StaysTyped := by
  refine typed_bind .refl fun f => ?_
  refine typed_checked fun targets hTargets => ?_
  refine typed_bind (typed_place fun _ _ => ?_) fun _ => ?_
  · have hSome : targets.map Int64.ofNat ≠ [] := by
      simpa using targets_ne_nil hTargets
    have hArgs :
        targets.map (fun id => Value.int (Int64.ofNat id)) =
          (targets.map Int64.ofNat).map Value.int := by
      rw [List.map_map]
      rfl
    rw [hArgs]
    exact .breakLoop hSome
  · exact typed_bind (typed_still fun _ => ⟨rfl, rfl⟩)
      fun _ => .refl

/- The gate is declared like any other variable. -/
theorem typed_gated
    (b : Builder) :
    b.StaysTyped b.gated := by
  unfold gated
  split
  · exact .refl b
  · intro hTyped
    rcases typed_declared b (.bool false) hTyped with
      ⟨hAdded, hKept⟩
    refine ⟨⟨hAdded.graph, ?_⟩, hKept⟩
    intro v hGate
    cases hGate
    exact ⟨typedIn_variableAt b (.bool false), rfl⟩

theorem typed_returnGate :
    returnGate.Leaves StaysTyped := by
  rw [leaves_iff]
  intro b
  rw [meets_returnGate]
  exact typed_gated b

/- What a step with the gate needs to know about it. -/
theorem typed_withGate
    {α : Type}
    {f : Variable → Build α}
    (hf :
      ∀ v (b : Builder), b.frame.gate = some v →
        b.StaysTyped (f v b).2) :
    (returnGate >>= f).Leaves StaysTyped := by
  intro b
  refine andThen_state StaysTyped.trans
    (P := fun v b' => b'.frame.gate = some v) ?_ hf
  rw [meets_returnGate]
  exact ⟨typed_gated b, gated_gate⟩

theorem typed_returnNow :
    returnNow.Leaves StaysTyped := by
  refine typed_withGate fun gate b hGate => ?_
  refine bind_state StaysTyped.trans
    (typed_setVariable (fun h => (h.gate gate hGate).1) _)
    fun _ => ?_
  refine typed_bind .refl fun f => ?_
  split
  · exact typed_bind (typed_breakLoop f.loops) fun _ =>
      typed_still fun _ => ⟨rfl, rfl⟩
  · exact typed_still fun _ => ⟨rfl, rfl⟩

theorem typed_continueLoop :
    continueLoop.Leaves StaysTyped := by
  rw [leaves_iff]
  intro b
  rw [meets_continueLoop]
  split
  · exact .of_same rfl rfl rfl
  · exact .refl b

theorem typed_returnGuard :
    Script.returnGuard.Leaves StaysTyped := by
  refine typed_withGate fun gate b hGate => ?_
  refine bind_state StaysTyped.trans ?_ fun id =>
    typed_bind (typed_still fun _ => ⟨rfl, rfl⟩)
      fun _ => .refl
  intro hTyped
  exact (leaves_place _ b).typed
    (fun _ => .doubleBranch (hTyped.gate gate hGate).2) hTyped

end FlowGraph.Builder
