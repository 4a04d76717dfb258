import FlowGraph.Proofs.Control
import FlowGraph.Proofs.Values

/-
  Where the arguments of nodes come from.

  As long as the steps of a builder are given usable values,
  every pin among the arguments of a node is an output of an
  earlier node, of exactly the type of the argument, and
  what a step yields is usable again.

  Key definitions include:
    * `FlowGraph.Graph.Ordered`
    * `FlowGraph.Builder.Sane`
    * `FlowGraph.Builder.Follows`
    * `FlowGraph.Builder.Does`

  Key theorems include:
    * `FlowGraph.Builder.follows_node`
    * `FlowGraph.Builder.does_returnNow`
-/

------------------------------------------------------------
-- Ordered Graphs
------------------------------------------------------------

namespace FlowGraph

/-
  The arguments of a node are literals of their types and
  outputs of earlier nodes.
-/
structure Graph.Ordered
    (g : Graph) :
    Prop where
  below :
    ∀ {id n}, g.nodes.get? id = some n → id < g.nextId
  args :
    ∀ {id n}, g.nodes.get? id = some n →
      ∀ v ∈ n.args, v.Usable g (id ≤ ·)

/- The variable is declared as a gate, which is down first. -/
structure Variable.IsGate
    (g : Graph)
    (v : Variable) :
    Prop where
  eq : v = Builder.variableAt v.node .bool
  node :
    g.nodes.get? v.node =
      some (Builder.variableNode
        ⟨.bool, .literal (.bool false)⟩)

theorem Variable.IsGate.handle_source
    {g : Graph}
    {v : Variable}
    (h : v.IsGate g) :
    v.handle.source = .pin ⟨v.node, "variable", 0⟩ := by
  rw [h.eq]
  rfl

theorem Variable.IsGate.value_source
    {g : Graph}
    {v : Variable}
    (h : v.IsGate g) :
    v.value.source = .pin ⟨v.node, "value", 1⟩ := by
  rw [h.eq]
  rfl

theorem Variable.IsGate.mono
    {g g' : Graph}
    {v : Variable}
    (h : v.IsGate g)
    (hNodes :
      ∀ id n, g.nodes.get? id = some n →
        g'.nodes.get? id = some n) :
    v.IsGate g' :=
  ⟨h.eq, hNodes _ _ h.node⟩

namespace Builder

/- Nodes that no name may stand for, the gate among them. -/
def Hidden
    (H : Nat → Prop)
    (b : Builder)
    (id : Nat) :
    Prop :=
  H id ∨ ∃ v, b.frame.gate = some v ∧ v.node = id

/- The builder has an ordered graph and a proper gate. -/
structure Sane
    (H : Nat → Prop)
    (b : Builder) :
    Prop where
  ordered : b.graph.Ordered
  hidden : ∀ id, b.Hidden H id → id < b.graph.nextId
  gate : ∀ v, b.frame.gate = some v → v.IsGate b.graph

/- Nodes were added, and only new ones were hidden. -/
structure Follows
    (H : Nat → Prop)
    (b b' : Builder) :
    Prop where
  sane : b'.Sane H
  nodes :
    ∀ id n, b.graph.nodes.get? id = some n →
      b'.graph.nodes.get? id = some n
  nextId_le : b.graph.nextId ≤ b'.graph.nextId
  hidden :
    ∀ id, b'.Hidden H id →
      b.Hidden H id ∨ b.graph.nextId ≤ id
  config : b'.config = b.config

variable {H : Nat → Prop} {b b₁ b₂ : Builder} {v : Value}

theorem Follows.refl
    (h : b.Sane H) :
    b.Follows H b :=
  ⟨h, fun _ _ hNode => hNode, Nat.le_refl _,
    fun _ hId => Or.inl hId, rfl⟩

theorem Follows.trans
    (h₁ : b.Follows H b₁)
    (h₂ : b₁.Follows H b₂) :
    b.Follows H b₂ := by
  refine ⟨h₂.sane,
    fun id n hNode => h₂.nodes id n (h₁.nodes id n hNode),
    Nat.le_trans h₁.nextId_le h₂.nextId_le, ?_,
    h₂.config.trans h₁.config⟩
  intro id hId
  rcases h₂.hidden id hId with hId | hNew
  · exact h₁.hidden id hId
  · exact Or.inr (Nat.le_trans h₁.nextId_le hNew)

/- What is usable stays usable. -/
theorem Follows.usable
    (h : b.Follows H b₁)
    (hSane : b.Sane H)
    (hv : v.Usable b.graph (b.Hidden H)) :
    v.Usable b₁.graph (b₁.Hidden H) := by
  refine hv.mono h.nodes ?_
  intro id n hNode hId
  rcases h.hidden id hId with hOld | hNew
  · exact hOld
  · have hLt := hSane.ordered.below hNode
    omega

/- Nothing need be hidden from the graph itself. -/
theorem usable_anyway
    {g : Graph}
    {hidden : Nat → Prop}
    (hv : v.Usable g hidden) :
    v.Usable g (fun _ => False) :=
  hv.mono (fun _ _ hNode => hNode) fun _ _ _ => False.elim

/- A change of the frame that leaves the gate alone. -/
theorem follows_frame
    (h : b.Sane H)
    {f : Frame}
    (hGate : f.gate = b.frame.gate) :
    b.Follows H { b with frame := f } := by
  have hHidden :
      Hidden H { b with frame := f } = b.Hidden H := by
    unfold Hidden
    rw [hGate]
  refine ⟨⟨h.ordered, ?_, ?_⟩, fun _ _ hNode => hNode,
    Nat.le_refl _, ?_, rfl⟩
  · rw [hHidden]
    exact h.hidden
  · rw [hGate]
    exact h.gate
  · intro id hId
    rw [hHidden] at hId
    exact Or.inl hId

/- A node with usable arguments was added. -/
theorem follows_node
    {n : Node}
    (h : b.Sane H)
    (hArgs :
      ∀ v ∈ n.args, v.Usable b.graph (fun _ => False))
    (hNodes :
      b₁.graph.nodes =
        b.graph.nodes.insert b.graph.nextId n)
    (hNext : b₁.graph.nextId = b.graph.nextId + 1)
    (hGate : b₁.frame.gate = b.frame.gate)
    (hConfig : b₁.config = b.config) :
    b.Follows H b₁ := by
  have hHidden : b₁.Hidden H = b.Hidden H := by
    unfold Hidden
    rw [hGate]
  have hOld :
      ∀ id m, b.graph.nodes.get? id = some m →
        b₁.graph.nodes.get? id = some m := by
    intro id m hNode
    have hLt := h.ordered.below hNode
    rw [hNodes, Table.get?_insert_of_ne _ _ (by omega)]
    exact hNode
  -- The new node is the only one that was not there.
  have hCases :
      ∀ {id m}, b₁.graph.nodes.get? id = some m →
        (id = b.graph.nextId ∧ m = n) ∨
          b.graph.nodes.get? id = some m := by
    intro id m hNode
    rw [hNodes] at hNode
    by_cases hEq : id = b.graph.nextId
    · rw [hEq, Table.get?_insert_self] at hNode
      exact Or.inl ⟨hEq, (Option.some.inj hNode).symm⟩
    · rw [Table.get?_insert_of_ne _ _ hEq] at hNode
      exact Or.inr hNode
  refine ⟨⟨⟨?_, ?_⟩, ?_, ?_⟩, hOld, by omega, ?_,
    hConfig⟩
  · intro id m hNode
    rcases hCases hNode with ⟨hEq, _⟩ | hNode
    · omega
    · have hLt := h.ordered.below hNode
      omega
  · intro id m hNode v hv
    rcases hCases hNode with ⟨hEq, hm⟩ | hNode
    · rw [hm] at hv
      refine (hArgs v hv).mono hOld ?_
      intro k m hNode hLe
      have hLt := h.ordered.below hNode
      omega
    · exact (h.ordered.args hNode v hv).mono hOld
        fun _ _ _ hLe => hLe
  · intro id hId
    rw [hHidden] at hId
    have hLt := h.hidden id hId
    omega
  · intro v hv
    rw [hGate] at hv
    exact (h.gate v hv).mono hOld
  · intro id hId
    rw [hHidden] at hId
    exact Or.inl hId

/- A new node is not hidden. -/
theorem not_hidden_nextId
    (h : b.Sane H)
    (hGate : b₁.frame.gate = b.frame.gate) :
    ¬ b₁.Hidden H b.graph.nextId := by
  intro hId
  have hHidden : b₁.Hidden H = b.Hidden H := by
    unfold Hidden
    rw [hGate]
  rw [hHidden] at hId
  exact Nat.lt_irrefl _ (h.hidden _ hId)

end Builder

end FlowGraph

------------------------------------------------------------
-- Placing And Linking
------------------------------------------------------------

namespace FlowGraph.Builder

/- Links may have been added, but nothing else. -/
structure SameNodes
    (b b' : Builder) :
    Prop where
  nodes : b'.graph.nodes = b.graph.nodes
  nextId : b'.graph.nextId = b.graph.nextId
  frame : b'.frame = b.frame
  config : b'.config = b.config

variable {H : Nat → Prop} {b b₁ b₂ : Builder} {n : Node}

theorem SameNodes.refl :
    b.SameNodes b :=
  ⟨rfl, rfl, rfl, rfl⟩

theorem SameNodes.trans
    (h₁ : b.SameNodes b₁)
    (h₂ : b₁.SameNodes b₂) :
    b.SameNodes b₂ :=
  ⟨h₂.nodes.trans h₁.nodes, h₂.nextId.trans h₁.nextId,
    h₂.frame.trans h₁.frame, h₂.config.trans h₁.config⟩

theorem SameNodes.follows
    (h : b.SameNodes b₁)
    (hSane : b.Sane H) :
    b.Follows H b₁ := by
  have hHidden : b₁.Hidden H = b.Hidden H := by
    unfold Hidden
    rw [h.frame]
  have hOld :
      ∀ id n, b.graph.nodes.get? id = some n →
        b₁.graph.nodes.get? id = some n := by
    intro id n hNode
    rw [h.nodes]
    exact hNode
  have hUsable :
      ∀ {v : Value} {hidden : Nat → Prop},
        v.Usable b.graph hidden → v.Usable b₁.graph hidden :=
    fun hv => hv.mono hOld fun _ _ _ hId => hId
  refine ⟨⟨⟨?_, ?_⟩, ?_, ?_⟩, hOld,
    Nat.le_of_eq h.nextId.symm, ?_, h.config⟩
  · intro id n hNode
    rw [h.nodes] at hNode
    rw [h.nextId]
    exact hSane.ordered.below hNode
  · intro id n hNode v hv
    rw [h.nodes] at hNode
    exact hUsable (hSane.ordered.args hNode v hv)
  · intro id hId
    rw [hHidden] at hId
    rw [h.nextId]
    exact hSane.hidden id hId
  · intro v hv
    rw [h.frame] at hv
    exact (hSane.gate v hv).mono hOld
  · intro id hId
    rw [hHidden] at hId
    exact Or.inl hId

theorem meets_connect_nodes
    (e : Endpoint)
    (t : Nat) :
    (connect e t).Meets b (fun _ b' => b.SameNodes b')
      (fun _ _ => True) := by
  unfold Process.Meets connect
  cases hConnect : b.graph.connect e t with
  | error err => trivial
  | ok g =>
      rcases bind_eq_ok.mp hConnect with ⟨_, _, hLink⟩
      split at hLink
      · cases hLink
      · cases hLink
        exact ⟨rfl, rfl, rfl, rfl⟩

theorem meets_each_connect
    (tail : List Endpoint)
    (t : Nat) :
    (Process.each (fun e => connect e t) tail).Meets b
      (fun _ b' => b.SameNodes b') (fun _ _ => True) := by
  induction tail generalizing b with
  | nil => exact .refl
  | cons e rest ih =>
      unfold Process.each
      rw [Process.meets_bind]
      refine (meets_connect_nodes e t).mono ?_
        fun _ _ _ => trivial
      intro _ b₁ hFirst
      refine ih.mono ?_ fun _ _ _ => trivial
      intro _ b₂ hRest
      exact hFirst.trans hRest

end FlowGraph.Builder

namespace FlowGraph.Script

/- Wiring the aliases adds links and nothing else. -/
theorem meets_wireAliases_nodes
    (s : Session)
    (node : Nat)
    (branches : List (Option Branch))
    (resolved : List (Option Branch × Nat))
    (i : Nat)
    (join : List Endpoint) :
    (wireAliases node branches i resolved join).Meets s
      (fun _ s' =>
        ∃ b, s.builder.SameNodes b ∧ s' = s.withBuilder b)
      (fun _ _ => True) := by
  induction resolved generalizing s i join with
  | nil => exact ⟨s.builder, .refl, rfl⟩
  | cons p rest ih =>
      rcases p with ⟨own, target⟩
      cases own with
      | some b => exact ih s (i + 1) join
      | none =>
          unfold wireAliases
          split
          · rename_i shared _
            rw [Process.meets_bind]
            unfold wireAlias
            split
            · rw [Process.meets_bind, meets_build]
              refine (Builder.meets_connect_nodes _ _).mono
                ?_ fun _ _ _ => trivial
              intro _ b hLinked
              refine (ih (s.withBuilder b) (i + 1) join).mono
                ?_ fun _ _ _ => trivial
              intro _ s' hRest
              rcases hRest with ⟨b', hSame, hEq⟩
              exact ⟨b', hLinked.trans hSame, hEq⟩
            · exact ih s (i + 1) _
          · exact ih s (i + 1) join

end FlowGraph.Script

namespace FlowGraph.Builder

variable {H : Nat → Prop} {b b₁ : Builder} {n : Node}

/- Placing a node adds it to the graph. -/
theorem meets_place_node
    {Q : Nat → Builder → Prop}
    (h :
      ∀ b', b'.graph.nodes =
          b.graph.nodes.insert b.graph.nextId n →
        b'.graph.nextId = b.graph.nextId + 1 →
          b'.frame.gate = b.frame.gate →
            b'.config = b.config →
              Q b.graph.nextId b') :
    (place n).Meets b Q (fun _ _ => True) := by
  unfold place
  simp only [Process.meets_bind, meets_fromFrame, meets_add]
  refine (meets_each_connect _ _).mono ?_
    fun _ _ _ => trivial
  intro _ b₁ hSame
  have hGate : b₁.frame.gate = b.frame.gate := by
    rw [hSame.frame]
    rfl
  split
  · exact h _ hSame.nodes hSame.nextId hGate hSame.config
  · exact h _ hSame.nodes hSame.nextId hGate hSame.config

/- The same in terms of what follows. -/
theorem meets_place_follows
    {Q : Nat → Builder → Prop}
    (hSane : b.Sane H)
    (hArgs :
      ∀ v ∈ n.args, v.Usable b.graph (fun _ => False))
    (h :
      ∀ b', b.Follows H b' →
        ¬ b'.Hidden H b.graph.nextId →
          b'.graph.nodes.get? b.graph.nextId = some n →
            b'.graph.nextId = b.graph.nextId + 1 →
              Q b.graph.nextId b') :
    (place n).Meets b Q (fun _ _ => True) := by
  apply meets_place_node
  intro b' hNodes hNext hGate hConfig
  refine h b'
    (follows_node hSane hArgs hNodes hNext hGate hConfig)
    (not_hidden_nextId hSane hGate) ?_ hNext
  rw [hNodes]
  exact Table.get?_insert_self _ _ _

end FlowGraph.Builder

------------------------------------------------------------
-- Steps
------------------------------------------------------------

namespace FlowGraph.Script

/- A name may stand for the result. -/
def Result.Usable
    (H : Nat → Prop)
    (b : Builder) :
    Result → Prop
  | .node id => ¬ b.Hidden H id ∧ id < b.graph.nextId
  | .value v => v.Usable b.graph (b.Hidden H)
  | .variable v =>
      v.handle.Usable b.graph (b.Hidden H) ∧
        v.value.Usable b.graph (b.Hidden H)
  | _ => True

end FlowGraph.Script

namespace FlowGraph.Builder

open Script.Action

/- The step adds nodes in order and yields what is usable. -/
def Does
    (H : Nat → Prop)
    (b : Builder)
    (step : Build Script.Result) :
    Prop :=
  step.Meets b (fun r b' => b.Follows H b' ∧ r.Usable H b')
    (fun _ _ => True)

variable {H : Nat → Prop} {b : Builder}

/- A step that yields a node. -/
theorem does_ofNode
    {m : Build Nat}
    (h :
      m.Meets b
        (fun id b' =>
          b.Follows H b' ∧
            Script.Result.Usable H b' (.node id))
        (fun _ _ => True)) :
    b.Does H (ofNode m) := by
  unfold Does ofNode
  rw [Process.meets_bind]
  exact h

/- A node whose arguments are usable is placed. -/
theorem meets_place_usable
    {n : Node}
    (hSane : b.Sane H)
    (hArgs : ∀ v ∈ n.args, v.Usable b.graph (b.Hidden H)) :
    (place n).Meets b
      (fun id b' =>
        b.Follows H b' ∧
          Script.Result.Usable H b' (.node id))
      (fun _ _ => True) := by
  refine meets_place_follows hSane
    (fun v hv => usable_anyway (hArgs v hv)) ?_
  intro b' hFollows hNot _ hNext
  have hLt : b.graph.nextId < b'.graph.nextId := by
    omega
  exact ⟨hFollows, hNot, hLt⟩

theorem does_place
    {n : Node}
    (hSane : b.Sane H)
    (hArgs : ∀ v ∈ n.args, v.Usable b.graph (b.Hidden H)) :
    b.Does H (ofNode (place n)) :=
  does_ofNode (meets_place_usable hSane hArgs)

/- A node was added apart from the flow. -/
theorem follows_added
    {n : Node}
    (hSane : b.Sane H)
    (hArgs : ∀ v ∈ n.args, v.Usable b.graph (b.Hidden H)) :
    b.Follows H (b.added n) :=
  follows_node hSane
    (fun v hv => usable_anyway (hArgs v hv)) rfl rfl rfl rfl

theorem does_add
    {n : Node}
    (hSane : b.Sane H)
    (hArgs : ∀ v ∈ n.args, v.Usable b.graph (b.Hidden H)) :
    b.Does H (ofNode (add n)) :=
  ⟨follows_added hSane hArgs, not_hidden_nextId hSane rfl,
    Nat.lt_succ_self _⟩

theorem does_placeOfType
    (hSane : b.Sane H)
    (nodeType : String)
    {args : List Value}
    (hArgs : ∀ v ∈ args, v.Usable b.graph (b.Hidden H)) :
    b.Does H (ofNode (placeOfType nodeType args)) := by
  unfold placeOfType
  split
  · split
    · exact does_place hSane hArgs
    · exact does_place hSane hArgs
  · exact does_place hSane hArgs

/- A step that yields a value. -/
theorem does_ofValue
    {m : Build Value}
    (h :
      m.Meets b
        (fun v b' =>
          b.Follows H b' ∧ v.Usable b'.graph (b'.Hidden H))
        (fun _ _ => True)) :
    b.Does H (ofValue m) := by
  unfold Does ofValue
  rw [Process.meets_bind]
  exact h

theorem does_pinValue
    {id : Nat}
    (hSane : b.Sane H)
    (hNot : ¬ b.Hidden H id)
    (slot : String)
    (index : Nat) :
    b.Does H (ofValue (pinValue id slot index)) := by
  apply does_ofValue
  unfold pinValue
  rw [Process.meets_bind, Process.meets_read,
    Process.meets_ofExcept]
  refine ⟨?_, fun _ _ => trivial⟩
  intro v hv
  rcases bind_eq_ok.mp hv with ⟨n, hNode, hv⟩
  have hGet : b.graph.nodes.get? id = some n := by
    unfold Graph.node at hNode
    split at hNode
    · cases hNode
      assumption
    · cases hNode
  split at hv
  · cases hv
    exact ⟨.refl hSane, usable_pin hNot hGet (by assumption)⟩
  · cases hv

/- A variable is declared by a node of its own. -/
theorem follows_declared
    {initial : Value}
    (hSane : b.Sane H)
    (h : initial.Usable b.graph (b.Hidden H)) :
    b.Follows H (b.added (variableNode initial)) := by
  apply follows_added hSane
  intro v hv
  rw [List.mem_singleton.mp hv]
  exact h

/- The handle and the value of a new variable are usable. -/
theorem usable_variableAt
    {g : Graph}
    {hidden : Nat → Prop}
    {id : Nat}
    {initial : Value}
    (hNot : ¬ hidden id)
    (hNode : g.nodes.get? id = some (variableNode initial)) :
    (variableAt id initial.type).handle.Usable g hidden ∧
      (variableAt id initial.type).value.Usable g hidden := by
  have hHandle :
      (variableNode initial).output? "variable" 0 =
        some ⟨"variable", .localVariable⟩ := rfl
  have hValue :
      (variableNode initial).output? "value" 1 =
        some ⟨"value", initial.type⟩ := rfl
  exact ⟨usable_pin hNot hNode hHandle,
    usable_pin hNot hNode hValue⟩

theorem does_declareVariable
    {initial : Value}
    (hSane : b.Sane H)
    (h : initial.Usable b.graph (b.Hidden H)) :
    b.Does H (ofVariable (declareVariable initial)) := by
  unfold Does ofVariable
  rw [Process.meets_bind, meets_declareVariable]
  exact ⟨follows_declared hSane h,
    usable_variableAt (not_hidden_nextId hSane rfl)
      Graph.get?_attach_self⟩

theorem does_setVariable
    {v : Variable}
    {input : Input}
    (hSane : b.Sane H)
    (hv : v.handle.Usable b.graph (b.Hidden H))
    (hInput : input.Usable b.graph (b.Hidden H)) :
    b.Does H (ofNode (setVariable v input)) := by
  apply does_ofNode
  unfold setVariable
  rw [Process.meets_bind, Process.meets_ofExcept]
  refine ⟨?_, fun _ _ => trivial⟩
  intro value hRead
  apply meets_place_usable hSane
  intro w hw
  rcases List.mem_cons.mp hw with hEq | hw
  · rw [hEq]
    exact hv
  · rw [List.mem_singleton.mp hw]
    exact usable_read hInput hRead

theorem does_printString
    {input : Input}
    (hSane : b.Sane H)
    (hInput : input.Usable b.graph (b.Hidden H)) :
    b.Does H (ofNode (printString input)) := by
  apply does_ofNode
  unfold printString
  rw [Process.meets_bind, Process.meets_ofExcept]
  refine ⟨?_, fun _ _ => trivial⟩
  intro text hRead
  apply meets_place_usable hSane
  intro w hw
  rw [List.mem_singleton.mp hw]
  exact usable_read hInput hRead

theorem does_binary
    {x y : Value}
    (hSane : b.Sane H)
    (op : BinaryOp)
    (hx : x.Usable b.graph (b.Hidden H))
    (hy : y.Usable b.graph (b.Hidden H)) :
    b.Does H (ofValue (binary op x y)) := by
  apply does_ofValue
  rw [meets_binary]
  refine ⟨?_, fun _ _ => trivial⟩
  intro x' y' hOperands
  have hUsable := usable_operands hx hy hOperands
  split
  · rename_i v hFold
    exact ⟨.refl hSane, usable_binary hFold⟩
  · refine ⟨follows_added hSane ?_,
      usable_pin (not_hidden_nextId hSane rfl)
        Graph.get?_attach_self (output?_binaryNode op x' y')⟩
    intro w hw
    rcases List.mem_cons.mp hw with hEq | hw
    · rw [hEq]
      exact hUsable.1
    · rw [List.mem_singleton.mp hw]
      exact hUsable.2

theorem does_unary
    {x : Value}
    (hSane : b.Sane H)
    (op : UnaryOp)
    (hx : x.Usable b.graph (b.Hidden H)) :
    b.Does H (ofValue (unary op x)) := by
  apply does_ofValue
  rw [meets_unary]
  refine ⟨?_, fun _ _ => trivial⟩
  intro _ _
  split
  · rename_i v hFold
    exact ⟨.refl hSane, usable_unary hFold⟩
  · refine ⟨follows_added hSane ?_,
      usable_pin (not_hidden_nextId hSane rfl)
        Graph.get?_attach_self (output?_unaryNode op x)⟩
    intro w hw
    rw [List.mem_singleton.mp hw]
    exact hx

theorem does_assembleList
    {items : List Input}
    (hSane : b.Sane H)
    (element : Scalar)
    (hItems :
      ∀ i ∈ items, i.Usable b.graph (b.Hidden H)) :
    b.Does H (ofValue (assembleList element items)) := by
  apply does_ofValue
  apply meets_assembleList
  · intro args hArgs
    exact ⟨follows_added hSane
        (usable_readItems hItems hArgs),
      usable_pin (not_hidden_nextId hSane rfl)
        Graph.get?_attach_self
        (output?_listNode element args)⟩
  · intro _ _
    trivial

theorem does_assembleDictionary
    {pairs : List (Input × Input)}
    (hSane : b.Sane H)
    (key value : ValueType)
    (hPairs :
      ∀ p ∈ pairs, p.1.Usable b.graph (b.Hidden H) ∧
        p.2.Usable b.graph (b.Hidden H)) :
    b.Does H
      (ofValue (assembleDictionary key value pairs)) := by
  apply does_ofValue
  apply meets_assembleDictionary
  · intro args hArgs
    exact ⟨follows_added hSane
        (usable_readPairs hPairs hArgs),
      usable_pin (not_hidden_nextId hSane rfl)
        Graph.get?_attach_self
        (output?_dictionaryNode args)⟩
  · intro _ _
    trivial

end FlowGraph.Builder

------------------------------------------------------------
-- Steps That Leave A Path
------------------------------------------------------------

namespace FlowGraph.Builder

open Script.Action

variable {H : Nat → Prop} {b : Builder}

/- Loops are stopped by their numbers. -/
theorem meets_breakLoop_usable
    (hSane : b.Sane H)
    (loops : List Nat) :
    (breakLoop loops).Meets b
      (fun id b' =>
        b.Follows H b' ∧
          Script.Result.Usable H b' (.node id))
      (fun _ _ => True) := by
  unfold breakLoop placeBuiltin
  simp only [Process.meets_bind, meets_frameNow,
    Process.meets_ofExcept, Process.meets_pure,
    meets_onFrame]
  refine ⟨?_, fun _ _ => trivial⟩
  intro targets _
  refine (meets_place_usable hSane ?_).mono ?_
    fun _ _ _ => trivial
  · intro w hw
    rcases List.mem_map.mp hw with ⟨id, _, hEq⟩
    rw [← hEq]
    exact usable_int _
  · intro id b' hPlaced
    exact ⟨hPlaced.1.trans
      (follows_frame hPlaced.1.sane rfl), hPlaced.2⟩

/- What a gate consists of is usable. -/
theorem usable_gate
    {g : Graph}
    {v : Variable}
    (h : v.IsGate g) :
    v.handle.Usable g (fun _ => False) ∧
      v.value.Usable g (fun _ => False) := by
  rw [h.eq]
  exact usable_variableAt (fun h => h) h.node

/- Declaring the gate hides a new node. -/
theorem follows_gated
    (hSane : b.Sane H) :
    b.Follows H b.gated := by
  unfold gated
  split
  · exact .refl hSane
  · have hAdded :
        b.Follows H (b.added (variableNode (.bool false))) :=
      follows_declared hSane (usable_bool false)
    have hHidden :
        ∀ id,
          Hidden H
              { b.added (variableNode (.bool false)) with
                frame := b.frame.setGate
                  (variableAt b.graph.nextId .bool) } id →
            b.Hidden H id ∨ id = b.graph.nextId := by
      intro id hId
      rcases hId with hId | ⟨v, hv, hEq⟩
      · exact Or.inl (Or.inl hId)
      · cases hv
        exact Or.inr hEq.symm
    refine ⟨⟨hAdded.sane.ordered, ?_, ?_⟩, hAdded.nodes,
      hAdded.nextId_le, ?_, rfl⟩
    · intro id hId
      show id < b.graph.nextId + 1
      rcases hHidden id hId with hOld | hNew
      · have hLt := hSane.hidden id hOld
        omega
      · omega
    · intro v hv
      cases hv
      exact ⟨rfl, Graph.get?_attach_self⟩
    · intro id hId
      rcases hHidden id hId with hOld | hNew
      · exact Or.inl hOld
      · exact Or.inr (Nat.le_of_eq hNew.symm)

theorem does_returnGate
    (hSane : b.Sane H) :
    b.Does H (ofGate returnGate) := by
  unfold Does ofGate
  rw [Process.meets_bind, meets_returnGate]
  exact ⟨follows_gated hSane, trivial⟩

theorem does_ofUnit
    {m : Build Unit}
    (h :
      m.Meets b (fun _ b' => b.Follows H b')
        (fun _ _ => True)) :
    b.Does H (ofUnit m) := by
  unfold Does ofUnit
  rw [Process.meets_bind]
  exact h.mono (fun _ _ hFollows => ⟨hFollows, trivial⟩)
    fun _ _ _ => trivial

theorem does_continueLoop
    (hSane : b.Sane H) :
    b.Does H (ofUnit continueLoop) := by
  apply does_ofUnit
  rw [meets_continueLoop]
  split
  · exact follows_frame hSane rfl
  · trivial

theorem does_returnNow
    (hSane : b.Sane H) :
    b.Does H (ofUnit returnNow) := by
  have hGated := follows_gated hSane
  have hHandle :=
    (usable_gate (hGated.sane.gate b.gateOf gated_gate)).1
  apply does_ofUnit
  unfold returnNow setVariable placeBuiltin
  simp only [Process.meets_bind, meets_returnGate,
    Process.meets_ofExcept, meets_frameNow]
  refine ⟨?_, fun _ _ => trivial⟩
  intro value hRead
  refine meets_place_follows hGated.sane ?_ ?_
  · intro w hw
    rcases List.mem_cons.mp hw with hEq | hw
    · rw [hEq]
      exact hHandle
    · rw [List.mem_singleton.mp hw]
      exact usable_literal hRead
  · intro b₁ hRaised _ _ _
    have hRaised := hGated.trans hRaised
    split
    · rw [Process.meets_bind]
      refine (meets_breakLoop_usable hRaised.sane _).mono ?_
        fun _ _ _ => trivial
      intro _ b₂ hStopped
      exact (hRaised.trans hStopped.1).trans
        (follows_frame hStopped.1.sane rfl)
    · exact hRaised.trans (follows_frame hRaised.sane rfl)

end FlowGraph.Builder
