import FlowGraph.Proofs.Expansion
import FlowGraph.Proofs.NodeTyping

/-
  Graphs of typed scripts.

  A script that adds nodes of built-in types only through
  the operations made for them has a graph in which all
  these nodes obey their rules.  This is so after every
  statement, finished or refused, and also once the inline
  lists are expanded: a list literal makes way for a pin of
  the same type, and the node behind the pin obeys the rule
  for lists.

  Key definitions include:
    * `FlowGraph.Script.Action.typed`
    * `FlowGraph.Script.Session.Typed`
    * `FlowGraph.Graph.HasList`

  Key theorems include:
    * `FlowGraph.Script.sustained_typed`
    * `FlowGraph.Graph.Typed.expandEach`
    * `FlowGraph.Script.nodes_obey_rules`
-/

------------------------------------------------------------
-- Typed Sessions
------------------------------------------------------------

namespace FlowGraph.Script

namespace Session

/- The named variables are declared as well. -/
structure Typed
    (s : Session) :
    Prop where
  builder : s.builder.Typed
  locals : ∀ p ∈ s.names.locals, p.2.TypedIn s.graph

/- A step keeps all nodes and goes by the rules. -/
def StaysTyped
    (s s' : Session) :
    Prop :=
  s.Typed → s'.Typed ∧ s.graph.Retains s'.graph

variable {s s₁ s₂ : Session}

theorem StaysTyped.refl
    (s : Session) :
    s.StaysTyped s :=
  fun h => ⟨h, fun _ _ hNode => hNode⟩

theorem StaysTyped.trans
    (h₁ : s.StaysTyped s₁)
    (h₂ : s₁.StaysTyped s₂) :
    s.StaysTyped s₂ := by
  intro hTyped
  rcases h₁ hTyped with ⟨hTyped₁, hKept₁⟩
  rcases h₂ hTyped₁ with ⟨hTyped₂, hKept₂⟩
  exact ⟨hTyped₂, fun id n hNode =>
    hKept₂ id n (hKept₁ id n hNode)⟩

/- A step of the builder. -/
theorem staysTyped_builder
    {b : Builder}
    (h : s.builder.StaysTyped b) :
    s.StaysTyped (s.withBuilder b) := by
  intro hTyped
  rcases h hTyped.builder with ⟨hBuilder, hKept⟩
  exact ⟨⟨hBuilder, fun p hp =>
    (hTyped.locals p hp).mono hKept⟩, hKept⟩

/- A change of the frame that does not concern the gate. -/
theorem staysTyped_frame
    {f : Frame → Frame}
    (hGate : (f s.frame).gate = s.frame.gate) :
    s.StaysTyped (s.onFrame f) :=
  staysTyped_builder (.of_same rfl rfl hGate)

end Session

end FlowGraph.Script

------------------------------------------------------------
-- Constructs
------------------------------------------------------------

namespace FlowGraph.Script

open Builder

theorem typed_inLoop
    {α : Type}
    {body : Run α}
    (node : Nat)
    (hBody : body.Leaves Session.StaysTyped) :
    (inLoop node body).Leaves Session.StaysTyped := by
  rw [Process.leaves_iff]
  intro s
  rw [meets_inLoop]
  have hEnter :
      s.StaysTyped (s.onFrame fun f => f.pushLoop node) :=
    Session.staysTyped_frame rfl
  exact Process.meets_state.mpr ((hEnter.trans
    (hBody _)).trans (Session.staysTyped_frame rfl))

/- The gate of the outer function is still declared. -/
theorem typed_inFunction
    {body : Run Unit}
    (event : String)
    (hBody : body.Leaves Session.StaysTyped) :
    (inFunction event body).Leaves Session.StaysTyped := by
  rw [Process.leaves_iff]
  intro s
  rw [meets_inFunction]
  refine Process.meets_state.mpr (fun hTyped => ?_)
  rcases (Session.staysTyped_builder (typed_beginFunction event
        s.builder)).trans (hBody _) hTyped with
    ⟨hRan, hKept⟩
  refine ⟨⟨⟨hRan.builder.graph, ?_⟩, hRan.locals⟩, hKept⟩
  intro v hGate
  rcases hTyped.builder.gate v hGate with ⟨hVariable, hType⟩
  exact ⟨hVariable.mono hKept, hType⟩

/- Different labels are different values. -/
theorem eq_of_labelValue
    {l k : Label}
    (h : l.value = k.value) :
    l = k := by
  cases l <;> cases k <;> cases h <;> rfl

theorem obeys_switchNode
    {g : Graph}
    {control : Value}
    {sw : Switch (Run Unit)}
    {targets : List CaseKey}
    (h : checkSwitch control sw = .ok targets) :
    (switchNode control sw).Obeys g := by
  rcases passed_of_checkSwitch h with ⟨hControl, hOnce, hTypes⟩
  have hDistinct : (sw.labels.map Label.value).Nodup :=
    List.Pairwise.map Label.value
      (fun _ _ hNe hEq => hNe (eq_of_labelValue hEq))
      (Switch.nodup_of_firstRepeated hOnce).1
  refine .multipleBranches hControl ?_ ?_ hDistinct
  · intro v hv
    rcases List.mem_map.mp hv with ⟨l, hl, rfl⟩
    rw [← hTypes l hl]
    cases l <;> rfl
  · intro v hv
    rcases List.mem_map.mp hv with ⟨l, _, rfl⟩
    cases l with
    | int i => exact Or.inl ⟨i, rfl⟩
    | str t => exact Or.inr ⟨t, rfl⟩

theorem obeys_itemsNode
    {g : Graph}
    {list : Value}
    {element : ValueType}
    (h : list.type.element? = some element) :
    (itemsNode list element).Obeys g := by
  cases hType : list.type with
  | list s =>
      rw [hType] at h
      cases h
      exact .listIterationLoop hType
  | _ =>
      rw [hType] at h
      cases h

/- What every statement keeps. -/
theorem sustained_typed :
    Sustained Builder.StaysTyped
      (fun _ => Session.StaysTyped) where
  refl _ s := .refl s
  trans h₁ h₂ := h₁.trans h₂
  inner _ h := h
  record _ _ _ _ hTyped :=
    ⟨⟨hTyped.builder, hTyped.locals⟩, fun _ _ hNode => hNode⟩
  bindNode _ _ _ _ hTyped :=
    ⟨⟨hTyped.builder, hTyped.locals⟩, fun _ _ hNode => hNode⟩
  bindValue _ _ _ _ hTyped :=
    ⟨⟨hTyped.builder, hTyped.locals⟩, fun _ _ hNode => hNode⟩
  still := .refl
  build := Session.staysTyped_builder
  setTail _ _ := .of_same rfl rfl rfl
  connect := typed_connect
  placeBranch hType := typed_place fun _ _ =>
    .doubleBranch hType
  placeSwitch hCheck := typed_place fun _ _ =>
    obeys_switchNode hCheck
  placeRange hStart hStop := typed_place fun _ _ =>
    .finiteLoop hStart hStop
  placeItems hElement := typed_place fun _ _ =>
    obeys_itemsNode hElement
  returnGuard := typed_returnGuard
  inLoop node hBody := typed_inLoop node hBody
  inFunction event _ hBody := typed_inFunction event hBody

end FlowGraph.Script

------------------------------------------------------------
-- Actions
------------------------------------------------------------

namespace FlowGraph.Script

open Builder

/-
  Nodes of built-in types are added only by the operations
  made for them.
-/
def Action.typed : Action → Bool
  | .placeOfType nodeType _ => nodeType ∉ builtinTypes
  | .addData _ nodeType _ => nodeType ∉ builtinTypes
  | .place draft => draft.nodeType ∉ builtinTypes
  | .placeBuiltin _ _ _ => false
  | .addBuiltin _ _ _ => false
  | _ => true

/- The same for statements. -/
def Stmt.typed : Stmt → Bool
  | .action _ a => a.typed
  | _ => true

theorem nodeType_draft
    {names : Names}
    {draft : Draft}
    {n : Node}
    (h : draft.eval names = .ok n) :
    n.nodeType = draft.nodeType := by
  rcases bind_eq_ok.mp h with ⟨args, _, h⟩
  rcases bind_eq_ok.mp h with ⟨outputs, _, h⟩
  cases h
  rfl

/- A variable that has a name is declared. -/
theorem Session.Typed.variable
    {s : Session}
    {name : String}
    {v : Variable}
    (h : s.Typed)
    (hFind : s.names.findVariable name = .ok v) :
    v.TypedIn s.graph := by
  unfold Names.findVariable at hFind
  split at hFind
  · rename_i hLookup
    cases hFind
    exact h.locals (name, v) (mem_of_lookup hLookup)
  · cases hFind

/-
  The step goes by the rules, and a variable that it yields
  is declared.
-/
def Session.AbidesBy
    (s : Session)
    (step : Build Result) :
    Prop :=
  step.Meets s.builder
    (fun r b =>
      (b.Typed ∧ s.graph.Retains b.graph) ∧
        ∀ v, r = .variable v → v.TypedIn b.graph)
    (fun _ b => b.Typed ∧ s.graph.Retains b.graph)

variable {s : Session}

/- A step whose result is not a variable. -/
theorem Session.Typed.abides
    {α : Type}
    {m : Build α}
    {result : α → Result}
    (h : s.Typed)
    (hm : s.builder.StaysTyped (m s.builder).2)
    (hPlain : ∀ a, (result a).isVariable = false) :
    s.AbidesBy (m >>= fun a => pure (result a)) := by
  unfold Session.AbidesBy
  rw [Process.meets_bind]
  have hRun := hm h.builder
  refine (Process.meets_state.mpr hRun).mono ?_
    fun _ _ hEnd => hEnd
  intro a b hEnd
  refine ⟨hEnd, ?_⟩
  intro v hResult
  have hNot := hPlain a
  rw [hResult] at hNot
  cases hNot

/- The steps of a script that uses typed operations. -/
theorem Session.Typed.step
    {a : Action}
    {step : Build Result}
    (h : s.Typed)
    (hMeans : a.Means s.names step)
    (hTyped : a.typed = true) :
    s.AbidesBy step := by
  cases hMeans with
  | beginFunction event =>
      exact h.abides (typed_beginFunction event _)
        fun _ => rfl
  | placeOfType nodeType _ =>
      have hOther : nodeType ∉ builtinTypes :=
        of_decide_eq_true hTyped
      refine h.abides ?_ fun _ => rfl
      unfold placeOfType
      rw [Builtin.ofName?_eq_none_iff.mpr hOther]
      exact typed_place (fun _ =>
        Node.wellTyped_of_not_mem hOther) _
  | addData nodeType _ _ =>
      have hOther : nodeType ∉ builtinTypes :=
        of_decide_eq_true hTyped
      exact h.abides (typed_add (fun _ =>
        Node.wellTyped_of_not_mem hOther) _) fun _ => rfl
  | place hDraft =>
      refine h.abides (typed_place (fun _ =>
        Node.wellTyped_of_not_mem ?_) _) fun _ => rfl
      rw [nodeType_draft hDraft]
      exact of_decide_eq_true hTyped
  | placeBuiltin _ _ _ => cases hTyped
  | addBuiltin _ _ _ => cases hTyped
  | pin _ _ _ => exact h.abides (.refl _) fun _ => rfl
  | keep _ => exact h.abides (.refl _) fun _ => rfl
  | binary op _ _ =>
      exact h.abides (typed_binary op _ _ _) fun _ => rfl
  | unary op _ =>
      exact h.abides (typed_unary op _ _) fun _ => rfl
  | declare _ =>
      unfold Session.AbidesBy Action.ofVariable
      rw [Process.meets_bind, meets_declareVariable]
      refine ⟨typed_declared _ _ h.builder, ?_⟩
      intro v hResult
      cases hResult
      exact typedIn_variableAt s.builder _
  | set hFind _ =>
      exact h.abides (typed_setVariable
        (fun _ => h.variable hFind) _) fun _ => rfl
  | print _ =>
      exact h.abides (typed_printString _ _) fun _ => rfl
  | list _ _ =>
      exact h.abides (typed_assembleList _ _ _) fun _ => rfl
  | dict _ _ _ =>
      exact h.abides (typed_assembleDictionary _ _ _ _)
        fun _ => rfl
  | breakLoop _ =>
      exact h.abides (typed_breakLoop _ _) fun _ => rfl
  | returnNow =>
      exact h.abides (typed_returnNow _) fun _ => rfl
  | continueLoop =>
      exact h.abides (typed_continueLoop _) fun _ => rfl
  | sealPath _ =>
      exact h.abides (.of_same rfl rfl rfl) fun _ => rfl
  | returnGate =>
      exact h.abides (typed_returnGate _) fun _ => rfl
  | gateVariable =>
      unfold Session.AbidesBy Action.ofVariable
      rw [Process.meets_bind, meets_returnGate]
      have hGated := typed_gated _ h.builder
      refine ⟨hGated, ?_⟩
      intro v hResult
      cases hResult
      exact (hGated.1.gate _ gated_gate).1
  | setTail _ =>
      exact h.abides (.of_same rfl rfl rfl) fun _ => rfl
  | linkFrom _ _ =>
      exact h.abides (.of_same rfl rfl rfl) fun _ => rfl

/- A declared variable gets a name. -/
theorem Session.Typed.keep
    {b : Builder}
    {r : Result}
    (h : s.Typed)
    (hBuilder : b.Typed)
    (hKept : s.graph.Retains b.graph)
    (hResult : ∀ v, r = .variable v → v.TypedIn b.graph)
    (bind : Binding) :
    ((s.withBuilder b).withNames
      (s.names.keep bind r)).Typed := by
  refine ⟨hBuilder, ?_⟩
  have hOld :
      ∀ p ∈ s.names.locals, p.2.TypedIn b.graph :=
    fun p hp => (h.locals p hp).mono hKept
  rcases bind with ⟨valueName, nodeName⟩
  cases r with
  | «variable» v =>
      cases valueName with
      | none => exact hOld
      | some name =>
          exact List.forall_mem_cons.mpr
            ⟨hResult v rfl, hOld⟩
  | node id => cases nodeName <;> exact hOld
  | value v => cases valueName <;> exact hOld
  | _ => exact hOld

theorem typed_action
    (path : Path)
    (bind : Binding)
    (a : Action)
    (hTyped : (Stmt.action bind a).typed = true) :
    (journaled path bind a.run).Leaves
      Session.StaysTyped := by
  refine sustained_typed.action path ?_
  intro s step hMeans
  by_cases h : s.Typed
  · refine (h.step hMeans hTyped).mono ?_ ?_
    · rintro r b ⟨⟨hBuilder, hKept⟩, hResult⟩ -
      exact ⟨h.keep hBuilder hKept hResult bind, hKept⟩
    · rintro e b ⟨hBuilder, hKept⟩ -
      exact ⟨⟨hBuilder, fun p hp =>
        (h.locals p hp).mono hKept⟩, hKept⟩
  · have hEnds : step.Meets s.builder (fun _ _ => True)
        (fun _ _ => True) :=
      (Process.meets_state (P := fun _ => True)).mpr trivial
    exact hEnds.mono (fun _ _ _ hs => absurd hs h)
      fun _ _ _ hs => absurd hs h

/- Nothing is there at first. -/
theorem Session.Typed.new
    (name : String)
    (config : Config) :
    (Session.new name config).Typed := by
  refine ⟨⟨⟨?_, ?_⟩, ?_⟩, List.forall_mem_nil _⟩
  · intro id n hNode
    cases hNode
  · intro id n hNode
    cases hNode
  · intro v hGate
    cases hGate

/- The session at the end. -/
theorem typed_run
    {script : List Stmt}
    (name : String)
    (config : Config)
    (hTyped : everyIn Stmt.typed script = true) :
    (run name config script).Typed :=
  (sustained_typed.runFrom typed_action hTyped 0 _
    (.new name config)).1

end FlowGraph.Script

------------------------------------------------------------
-- Expanded Lists
------------------------------------------------------------

namespace FlowGraph

variable {g g' : Graph} {n : Node} {s : Scalar}
variable {args : List Value}
variable {id position : Nat} {old v : Value}

/- The only argument is replaced. -/
theorem set_singleton
    {a : Value}
    (h : [a][position]? = some old)
    (v : Value) :
    a = old ∧ [a].set position v = [v] := by
  cases position with
  | zero =>
      cases h
      exact ⟨rfl, rfl⟩
  | succ k => cases h

/- Two operands of one type that is not a list type. -/
theorem operand_ne_list
    {a b : Value}
    (hMem : old ∈ [a, b])
    (hSame : b.type = a.type)
    (hNot : a.type ≠ .list s) :
    old.type ≠ .list s := by
  rcases List.mem_cons.mp hMem with rfl | hMem
  · exact hNot
  · rw [List.mem_singleton.mp hMem, hSame]
    exact hNot

/- Types stay as they are. -/
theorem map_type_set
    (hOld : args[position]? = some old)
    (hType : v.type = old.type) :
    (args.set position v).map Value.type =
      args.map Value.type := by
  refine List.ext_getElem? fun i => ?_
  rw [List.getElem?_map, List.getElem?_map]
  by_cases hEq : position = i
  · subst hEq
    have hLt := (List.getElem?_eq_some_iff.mp hOld).1
    rw [List.getElem?_set_self hLt, hOld, Option.map_some,
      Option.map_some, hType]
  · rw [List.getElem?_set_ne hEq]

/- The node with another argument at a position. -/
def Node.withArg
    (n : Node)
    (position : Nat)
    (v : Value) :
    Node :=
  { n with args := n.args.set position v }

/-
  A list may be replaced by another one of its type: of
  lists the rules see the type only.
-/
theorem Node.Obeys.withArg
    (h : n.Obeys g)
    (hOld : n.args[position]? = some old)
    (hList : old.type = .list s)
    (hType : v.type = old.type) :
    (n.withArg position v).Obeys g := by
  have hMem := List.mem_of_getElem? hOld
  unfold Node.withArg
  cases h with
  | graphEntry hEvent =>
      rcases set_singleton hOld v with ⟨rfl, hSet⟩
      rw [hSet]
      exact .graphEntry (hType.trans hEvent)
  | doubleBranch hCondition =>
      rcases set_singleton hOld v with ⟨rfl, hSet⟩
      rw [hSet]
      exact .doubleBranch (hType.trans hCondition)
  | multipleBranches hControl hSame hLabels hDistinct =>
      -- Neither the control value nor a label is a list.
      have hNot :
          old.type = .int ∨ old.type = .str := by
        rcases List.mem_cons.mp hMem with rfl | hLabel
        · exact hControl
        · rw [hSame old hLabel]
          exact hControl
      rw [hList] at hNot
      rcases hNot with hNot | hNot <;> cases hNot
  | finiteLoop hStart hStop =>
      rcases position with _ | _ | k
      · cases hOld
        exact .finiteLoop (hType.trans hStart) hStop
      · cases hOld
        exact .finiteLoop hStart (hType.trans hStop)
      · cases hOld
  | listIterationLoop hItems =>
      rcases set_singleton hOld v with ⟨rfl, hSet⟩
      rw [hSet]
      exact .listIterationLoop (hType.trans hItems)
  | breakLoop hSome =>
      rcases List.mem_map.mp hMem with ⟨k, _, rfl⟩
      cases hList
  | getLocalVariable =>
      rcases set_singleton hOld v with ⟨rfl, hSet⟩
      rw [hSet, ← hType]
      exact .getLocalVariable
  | setLocalVariable hDeclared =>
      rcases position with _ | _ | k
      · cases hOld
        cases hList
      · cases hOld
        exact .setLocalVariable (by rw [hType]; exact hDeclared)
      · cases hOld
  | printString hText =>
      rcases set_singleton hOld v with ⟨rfl, hSet⟩
      rw [hSet]
      exact .printString (hType.trans hText)
  | assemblyList hItems hSome hLimit =>
      rw [hItems old hMem] at hList
      cases hList
  | assemblyDictionary hItems hSome hLimit =>
      exact .assemblyDictionary
        ((map_type_set hOld hType).trans hItems) hSome hLimit
  | equality hOp hSame =>
      rcases position with _ | _ | k
      · cases hOld
        exact .equality hOp (hSame.trans hType.symm)
      · cases hOld
        exact .equality hOp (hType.trans hSame)
      · cases hOld
  | arithmetic hOp hSame hNumber =>
      exact absurd hList (operand_ne_list hMem hSame
        (by rcases hNumber with h | h <;> simp [h]))
  | ordering hOp hSame hNumber =>
      exact absurd hList (operand_ne_list hMem hSame
        (by rcases hNumber with h | h <;> simp [h]))
  | connective hOp hSame hBool =>
      exact absurd hList (operand_ne_list hMem hSame
        (by simp [hBool]))
  | magnitude hOp hNumber =>
      rw [List.mem_singleton.mp hMem] at hList
      rw [hList] at hNumber
      rcases hNumber with hNot | hNot <;> cases hNot
  | logicalNot hBool =>
      rw [List.mem_singleton.mp hMem, hBool] at hList
      cases hList

/- An argument of a node is a list of elements of a type. -/
def Graph.HasList
    (g : Graph)
    (id position : Nat)
    (s : Scalar) :
    Prop :=
  ∃ n old, g.nodes.get? id = some n ∧
    n.args[position]? = some old ∧ old.type = .list s

/- Replacing a list changes no other list. -/
theorem Graph.HasList.replaceArg
    {k p : Nat}
    {r : Scalar}
    (h : g.HasList k p r)
    (hHere : g.HasList id position s)
    (hType : v.type = .list s) :
    (g.replaceArg id position v).HasList k p r := by
  rcases h with ⟨n, a, hNode, hArg, hItems⟩
  rcases hHere with ⟨m, b, hOther, hOld, hList⟩
  unfold Graph.HasList
  rw [get?_replaceArg, hNode, Option.map_some]
  by_cases hEq : k = id
  · rw [if_pos hEq]
    by_cases hPosition : position = p
    · -- The list that is replaced has the same type.
      subst hEq hPosition
      cases hNode.symm.trans hOther
      cases hArg.symm.trans hOld
      have hLt := (List.getElem?_eq_some_iff.mp hOld).1
      refine ⟨_, v, rfl, List.getElem?_set_self hLt, ?_⟩
      rw [hType, ← hList, hItems]
    · exact ⟨_, a, rfl, (List.getElem?_set_ne hPosition).trans
        hArg, hItems⟩
  · rw [if_neg hEq]
    exact ⟨n, a, rfl, hArg, hItems⟩

theorem Graph.HasList.mono
    (h : g.HasList id position s)
    (hKept : g.Retains g') :
    g'.HasList id position s := by
  rcases h with ⟨n, a, hNode, hRest⟩
  exact ⟨n, a, hKept id n hNode, hRest⟩

/- A list is replaced by another one of its type. -/
theorem Graph.Typed.replaceArg
    (h : g.Typed)
    (hHere : g.HasList id position s)
    (hType : v.type = .list s) :
    (g.replaceArg id position v).Typed := by
  rcases hHere with ⟨m, old, hOther, hOld, hList⟩
  -- A declaration is known by its type and its outputs.
  have hDeclared :
      ∀ k t, g.Declares k t →
        (g.replaceArg id position v).Declares k t := by
    rintro k t ⟨n, hNode, hName, hOutputs⟩
    unfold Graph.Declares
    rw [get?_replaceArg, hNode, Option.map_some]
    refine ⟨_, rfl, ?_⟩
    split
    · exact ⟨hName, hOutputs⟩
    · exact ⟨hName, hOutputs⟩
  refine ⟨?_, ?_⟩
  · intro k n hNode
    rw [get?_replaceArg] at hNode
    rcases Option.map_eq_some_iff.mp hNode with ⟨n', hNode', _⟩
    exact h.below hNode'
  · intro k n hNode
    rw [get?_replaceArg] at hNode
    rcases Option.map_eq_some_iff.mp hNode with ⟨n', hNode', hEq⟩
    have hBefore := (h.nodes k n' hNode').mono hDeclared
    rw [← hEq]
    split
    · subst k
      cases hNode'.symm.trans hOther
      intro hBuiltin
      exact (hBefore hBuiltin).withArg hOld hList
        (hType.trans hList.symm)
    · exact hBefore

end FlowGraph

namespace FlowGraph.Graph

variable {g g' : Graph} {inline : InlineList}

/- What a list that was expanded has become. -/
theorem expanded_of_expandList
    (h : g.expandList inline = .ok g') :
    ∃ args,
      (∀ v ∈ args, v.type = .scalar inline.element) ∧
      1 ≤ args.length ∧ args.length ≤ 100 ∧
      g' =
        (g.attach (Builder.listNode inline.element args)
          []).replaceArg inline.node inline.position
            (.pin (.list inline.element)
              ⟨g.nextId, "list", 0⟩) := by
  rcases of_expandList h with ⟨args, hFits, hArgs, hEq⟩
  rw [← length_of_mapM hArgs] at hFits
  refine ⟨args, ?_, hFits.1, hFits.2, hEq⟩
  intro v hv
  rcases exists_of_mem_mapM hArgs hv with ⟨l, _, hLiteral⟩
  have hRead :
      (Input.literal l).read (.scalar inline.element) =
        .ok v := hLiteral
  exact type_of_read hRead

/- One list is expanded, and the others stay where they are. -/
theorem Typed.expandList
    (h : g.Typed)
    (hHere :
      g.HasList inline.node inline.position inline.element)
    (hStep : g.expandList inline = .ok g') :
    g'.Typed ∧
      ∀ id position s, g.HasList id position s →
        g'.HasList id position s := by
  rcases expanded_of_expandList hStep with
    ⟨args, hItems, hSome, hLimit, rfl⟩
  have hNode :
      (Builder.listNode inline.element args).WellTyped g :=
    fun _ => .assemblyList hItems hSome hLimit
  rcases h.insert hNode rfl rfl with
    ⟨hAdded, hKept⟩ :
      (g.attach _ []).Typed ∧ g.Retains (g.attach _ [])
  exact ⟨hAdded.replaceArg (hHere.mono hKept) rfl,
    fun id position s hList =>
      (hList.mono hKept).replaceArg (hHere.mono hKept) rfl⟩

/- Lists are expanded one after another until one is refused. -/
theorem Typed.expandEach
    {inlines : List InlineList}
    (h : g.Typed)
    (hLists :
      ∀ i ∈ inlines, g.HasList i.node i.position i.element) :
    (Graph.expandEach inlines g).2.Typed := by
  induction inlines generalizing g with
  | nil => exact h
  | cons inline rest ih =>
      rw [List.forall_mem_cons] at hLists
      unfold Graph.expandEach
      cases hStep : g.expandList inline with
      | error e => exact h
      | ok g' =>
          rcases h.expandList hLists.1 hStep with ⟨hTyped, hKept⟩
          exact ih hTyped fun i hi =>
            hKept _ _ _ (hLists.2 i hi)

theorem Typed.expandLists
    (h : g.Typed) :
    g.expandLists.2.Typed := by
  refine h.expandEach ?_
  intro inline hMem
  rcases at_of_mem_inlineLists hMem with
    ⟨n, v, hNode, hAt, hType, _⟩
  exact ⟨n, v, hNode, hAt, hType⟩

end FlowGraph.Graph

namespace FlowGraph

/- What is finished is the graph as it is or expanded. -/
theorem Builder.eq_of_finish
    {b : Builder}
    {c : Compiled}
    (h : b.finish = .ok c) :
    c = b.graph.finished ∨
      c = b.graph.expandLists.2.finished := by
  unfold Builder.finish at h
  split at h
  · split at h
    · rename_i g hExpand
      right
      rw [hExpand]
      exact Graph.eq_of_compile h
    · cases h
  · exact Or.inl (Graph.eq_of_compile h)

end FlowGraph

------------------------------------------------------------
-- Typed Scripts
------------------------------------------------------------

namespace FlowGraph.Script

/-
  In the graph of a script that uses typed operations all
  nodes of built-in types obey their rules.  So they do when
  the inline lists are expanded, up to the first one that is
  refused, and one of the two graphs is the finished one.
-/
theorem nodes_obey_rules
    (name : String)
    (config : Config)
    (script : List Stmt)
    (hTyped : everyIn Stmt.typed script = true) :
    (run name config script).graph.WellTyped ∧
      (run name config script).graph.expandLists.2.WellTyped ∧
      ∀ c, (run name config script).builder.finish = .ok c →
        c = (run name config script).graph.finished ∨
          c = (run name config
            script).graph.expandLists.2.finished := by
  have hRun := (typed_run name config hTyped).builder.graph
  exact ⟨hRun.nodes, hRun.expandLists.nodes, fun _ hFinish =>
    Builder.eq_of_finish hFinish⟩

/-
  A loop over an inline list leaves its function at one
  item and adds up the others.  After it the gate, which gets
  a name, is lowered.
-/
def sumUntilThree : List Stmt :=
  [.action .none (.beginFunction "start"),
    .action ⟨some "total", none⟩ (.declare (.value (.int 0))),
    .forEach ⟨some "item", none⟩
      (.literal "int_list"
        (.list [.int 1, .int 2, .int 3, .int 4]))
      [.switch .none (.ref "item")
        [(.int 3, .body [.action .none .returnNow])]
        (.body
          [.action ⟨some "next", none⟩
              (.binary .add (.ref "total") (.ref "item")),
            .action .none
              (.set "total" (.operand (.ref "next")))])],
    .action ⟨some "gate", none⟩ .gateVariable,
    .action .none (.set "gate" (.literal (.bool false)))]

/-
  The loop, its guard and the node that assembles the list
  obey their rules.
-/
theorem expanded_loop_obeys_rules :
    everyIn Stmt.typed sumUntilThree = true ∧
      (∀ e ∈ (run "demo" .default sumUntilThree).entries,
        e.event.isFailure = false) ∧
      ∀ nodeType ∈ ["list_iteration_loop", "double_branch",
          "multiple_branches", "addition",
          "set_local_variable", "assembly_list"],
        ∃ id n,
          (run "demo" .default
            sumUntilThree).graph.expandLists.2.nodes.get? id =
              some n ∧
          n.nodeType = nodeType ∧
          n.Obeys (run "demo" .default
            sumUntilThree).graph.expandLists.2 := by
  have hTyped : everyIn Stmt.typed sumUntilThree = true := by
    decide
  have hNodes :
      ∀ nodeType ∈ ["list_iteration_loop", "double_branch",
          "multiple_branches", "addition",
          "set_local_variable", "assembly_list"],
        nodeType ∈ builtinTypes ∧
          ∃ entry ∈
              (run "demo" .default
                sumUntilThree).graph.expandLists.2.nodes.entries,
            entry.2.nodeType = nodeType := by
    decide +kernel
  refine ⟨hTyped, by decide +kernel, ?_⟩
  intro nodeType hMem
  rcases hNodes nodeType hMem with
    ⟨hBuiltin, entry, hEntry, hName⟩
  have hNode := Table.get?_eq_some_iff.mpr hEntry
  exact ⟨entry.1, entry.2, hNode, hName,
    (nodes_obey_rules "demo" .default sumUntilThree
      hTyped).2.1 _ _ hNode (hName ▸ hBuiltin)⟩

end FlowGraph.Script
