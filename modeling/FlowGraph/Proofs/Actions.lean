import FlowGraph.Proofs.Progress
import FlowGraph.Proofs.Structured

/-
  What the actions of a structured script do.

  Whatever the operands come to, an action of a structured
  script advances the flow and yields something new, or it
  is refused for another reason than the graph.

  Key definitions include:
    * `FlowGraph.Yields`
    * `FlowGraph.Script.Session.Performs`
    * `FlowGraph.Script.Action.Acts`

  Key theorems include:
    * `FlowGraph.Script.yields_prepare`
    * `FlowGraph.Script.meets_action`
    * `FlowGraph.Script.actsBy_prepare`
-/

------------------------------------------------------------
-- Computations With A Property
------------------------------------------------------------

namespace FlowGraph

/- What is yielded has a property; refusals are harmless. -/
structure Yields
    {α : Type}
    (r : Except Error α)
    (P : α → Prop) :
    Prop where
  ok : ∀ a, r = .ok a → P a
  harmless : Harmless r

variable {α β : Type}

theorem yields_pure
    {a : α}
    {P : α → Prop}
    (h : P a) :
    Yields (pure a : Except Error α) P := by
  refine ⟨?_, harmless_pure a⟩
  intro b hb
  cases hb
  exact h

/- A harmless computation before another one. -/
theorem Harmless.andThen
    {r : Except Error α}
    {f : α → Except Error β}
    {P : β → Prop}
    (hr : Harmless r)
    (hf : ∀ a, r = .ok a → Yields (f a) P) :
    Yields (r >>= f) P := by
  cases hEq : r with
  | error e =>
      refine ⟨?_, harmless_error.mpr (hr e hEq)⟩
      intro b hb
      cases hb
  | ok a => exact hf a hEq

end FlowGraph

------------------------------------------------------------
-- Steps
------------------------------------------------------------

namespace FlowGraph.Script

open Script.Action

/- The step advances the flow and yields something new. -/
def Session.Performs
    (s : Session)
    (step : Build Result) :
    Prop :=
  step.Meets s.builder
    (fun r b =>
      s.builder.Advances b ∧
        Session.IsNew s (s.withBuilder b) r)
    (fun e _ => e.isRegistry = false)

variable {s : Session}

/- A step whose result is a node. -/
theorem performs_ofNode
    {m : Build Nat}
    (h :
      m.Meets s.builder
        (fun id b =>
          s.builder.Advances b ∧ s.graph.nextId ≤ id ∧
            ∃ n, b.graph.nodes.get? id = some n)
        (fun e _ => e.isRegistry = false)) :
    s.Performs (ofNode m) := by
  unfold Session.Performs ofNode
  rw [Process.meets_bind]
  refine h.mono ?_ fun _ _ he => he
  rintro id b ⟨hAdvances, hLe, n, hNode⟩
  exact ⟨hAdvances, Session.isNew_node hNode hLe⟩

/- A step whose result is a value. -/
theorem performs_ofValue
    {m : Build Value}
    (h :
      m.Meets s.builder (fun _ b => s.builder.Advances b)
        (fun e _ => e.isRegistry = false)) :
    s.Performs (ofValue m) := by
  unfold Session.Performs ofValue
  rw [Process.meets_bind]
  refine h.mono ?_ fun _ _ he => he
  intro _ b hAdvances
  exact ⟨hAdvances, trivial, by simp⟩

/- A step without a result. -/
theorem performs_ofUnit
    {m : Build Unit}
    (h :
      m.Meets s.builder (fun _ b => s.builder.Advances b)
        (fun e _ => e.isRegistry = false)) :
    s.Performs (ofUnit m) := by
  unfold Session.Performs ofUnit
  rw [Process.meets_bind]
  refine h.mono ?_ fun _ _ he => he
  intro _ b hAdvances
  exact ⟨hAdvances, trivial, by simp⟩

theorem performs_place
    {n : Node}
    (hReady : s.Ready)
    (hExec : n.nodeClass = .exec) :
    s.Performs (ofNode (Builder.place n)) := by
  refine performs_ofNode ?_
  rw [Builder.meets_place hReady.builder hExec]
  exact ⟨Builder.advances_placed hReady.builder hExec,
    Nat.le_refl _, n, Graph.get?_attach_self⟩

theorem performs_add
    {n : Node}
    (hReady : s.Ready) :
    s.Performs (ofNode (Builder.add n)) := by
  refine performs_ofNode ?_
  rw [Builder.meets_add]
  exact ⟨Builder.advances_added hReady.builder,
    Nat.le_refl _, n, Graph.get?_attach_self⟩

theorem performs_placeOfType
    (hReady : s.Ready)
    (nodeType : String)
    (args : List Value) :
    s.Performs
      (ofNode (Builder.placeOfType nodeType args)) := by
  unfold Builder.placeOfType
  split
  · split
    · rename_i kind hKind hExec
      exact performs_place hReady hExec
    · exact performs_place hReady rfl
  · exact performs_place hReady rfl

/- An output of a node that is there. -/
theorem performs_pinValue
    {id : Nat}
    {n : Node}
    (hReady : s.Ready)
    (hNode : s.graph.nodes.get? id = some n)
    (slot : String)
    (index : Nat) :
    s.Performs
      (ofValue (Builder.pinValue id slot index)) := by
  refine performs_ofValue ?_
  unfold Builder.pinValue
  rw [Process.meets_bind, Process.meets_read,
    Process.meets_ofExcept]
  refine ⟨fun _ _ => .refl hReady.builder, ?_⟩
  intro e he
  simp only [Graph.pinValue, Graph.node, hNode, bind,
    Except.bind] at he
  split at he
  · cases he
  · cases he
    rfl

theorem performs_declareVariable
    (hReady : s.Ready)
    (initial : Value) :
    s.Performs
      (ofVariable (Builder.declareVariable initial)) := by
  unfold Session.Performs ofVariable
  rw [Process.meets_bind, Builder.meets_declareVariable]
  refine ⟨Builder.advances_added hReady.builder,
    ⟨Nat.le_refl _,
      Builder.variableAt_declared s.builder initial, ?_⟩,
    by simp⟩
  intro w hGate hEq
  have hLt : w.node < s.graph.nextId :=
    (hReady.builder.gate w hGate).node_lt
  exact absurd hEq (Nat.ne_of_lt hLt)

theorem performs_setVariable
    (hReady : s.Ready)
    (v : Variable)
    (input : Input) :
    s.Performs (ofNode (Builder.setVariable v input)) := by
  refine performs_ofNode ?_
  rw [Builder.meets_setVariable hReady.builder]
  refine ⟨?_, harmless_read input v.value.type⟩
  intro value _
  exact ⟨Builder.advances_placed hReady.builder rfl,
    Nat.le_refl _, _, Graph.get?_attach_self⟩

theorem performs_printString
    (hReady : s.Ready)
    (input : Input) :
    s.Performs (ofNode (Builder.printString input)) := by
  refine performs_ofNode ?_
  rw [Builder.meets_printString hReady.builder]
  refine ⟨?_, harmless_read input .str⟩
  intro text _
  exact ⟨Builder.advances_placed hReady.builder rfl,
    Nat.le_refl _, _, Graph.get?_attach_self⟩

theorem performs_binary
    (hReady : s.Ready)
    (op : BinaryOp)
    (x y : Value) :
    s.Performs (ofValue (Builder.binary op x y)) := by
  refine performs_ofValue ?_
  rw [Builder.meets_binary]
  refine ⟨?_, harmless_operands op x y⟩
  intro x' y' _
  split
  · exact .refl hReady.builder
  · exact Builder.advances_added hReady.builder

theorem performs_unary
    (hReady : s.Ready)
    (op : UnaryOp)
    (x : Value) :
    s.Performs (ofValue (Builder.unary op x)) := by
  refine performs_ofValue ?_
  rw [Builder.meets_unary]
  refine ⟨?_, harmless_checkUnary op x⟩
  intro _ _
  split
  · exact .refl hReady.builder
  · exact Builder.advances_added hReady.builder

theorem performs_assembleList
    (hReady : s.Ready)
    (element : Scalar)
    (items : List Input) :
    s.Performs
      (ofValue (Builder.assembleList element items)) := by
  refine performs_ofValue (Builder.meets_assembleList ?_ ?_)
  · intro args _
    exact Builder.advances_added hReady.builder
  · rintro e (he | he)
    · exact harmless_check _ _ e he
    · exact harmless_readItems _ _ e he

theorem performs_assembleDictionary
    (hReady : s.Ready)
    (key value : ValueType)
    (pairs : List (Input × Input)) :
    s.Performs
      (ofValue
        (Builder.assembleDictionary key value pairs)) := by
  refine performs_ofValue
    (Builder.meets_assembleDictionary ?_ ?_)
  · intro args _
    exact Builder.advances_added hReady.builder
  · rintro e (he | he)
    · exact harmless_check _ _ e he
    · exact harmless_readPairs _ _ _ e he

theorem performs_breakLoop
    (hReady : s.Ready)
    (loops : List Nat) :
    s.Performs (ofNode (Builder.breakLoop loops)) := by
  refine performs_ofNode ?_
  rw [Builder.meets_breakLoop hReady.builder]
  refine ⟨?_, harmless_breakTargets s.frame loops⟩
  intro targets _
  exact ⟨Builder.advances_placed hReady.builder rfl,
    Nat.le_refl _, _, Graph.get?_attach_self⟩

theorem performs_continueLoop
    (hReady : s.Ready) :
    s.Performs (ofUnit Builder.continueLoop) := by
  refine performs_ofUnit ?_
  rw [Builder.meets_continueLoop]
  split
  · exact Builder.advances_seal hReady.builder false
  · rfl

theorem performs_returnGate
    (hReady : s.Ready) :
    s.Performs (ofGate Builder.returnGate) := by
  unfold Session.Performs ofGate
  rw [Process.meets_bind, Builder.meets_returnGate]
  exact ⟨Builder.advances_gated hReady.builder, trivial,
    by simp⟩

end FlowGraph.Script

------------------------------------------------------------
-- Actions
------------------------------------------------------------

namespace FlowGraph.Script

open Script.Action

variable {s : Session}

/- A scalar type that is given by its name. -/
theorem harmless_parseScalar
    (name : String) :
    Harmless (parseScalar name) := by
  refine (harmless_parse name).bind ?_
  intro t
  split
  · exact harmless_pure _
  · exact harmless_throw.mpr rfl

/- A pair of arguments. -/
theorem harmless_evalPair
    (names : Names)
    (pair : Argument × Argument) :
    Harmless (evalPair names pair) :=
  (harmless_argument names pair.1).bind fun _ =>
    (harmless_argument names pair.2).bind fun _ =>
      harmless_pure _

/- A node in terms of operands. -/
theorem harmless_draft
    (names : Names)
    (d : Draft) :
    Harmless (d.eval names) :=
  (Harmless.mapM (harmless_eval names) d.args).bind fun _ =>
    (Harmless.mapM harmless_pinDraft d.outputs).bind fun _ =>
      harmless_pure _

/- A node is of the class that its draft says. -/
theorem nodeClass_draft
    {names : Names}
    {d : Draft}
    {n : Node}
    (h : d.eval names = .ok n) :
    n.nodeClass = d.nodeClass := by
  unfold Draft.eval at h
  simp only [bind, Except.bind] at h
  split at h
  · cases h
  · split at h
    · cases h
    · cases h
      rfl

/- A name that is found stands for a node. -/
theorem findNode_isSome
    (hReady : s.Ready)
    {name : String}
    {id : Nat}
    (h : s.names.findNode name = .ok id) :
    ∃ n, s.graph.nodes.get? id = some n := by
  unfold Names.findNode at h
  split at h
  · rename_i found hLookup
    cases h
    exact hReady.nodes _ (mem_of_lookup hLookup)
  · cases h

/-
  The step that an action of a structured script stands for.
-/
theorem yields_prepare
    (hReady : s.Ready)
    (a : Action)
    (h : a.structured = true) :
    Yields (a.prepare s.names) s.Performs := by
  have hArgs := Harmless.mapM (harmless_eval s.names)
  cases a with
  | beginFunction event => cases h
  | placeOfType nodeType args =>
      exact (hArgs args).andThen fun values _ =>
        yields_pure (performs_placeOfType hReady nodeType
          values)
  | addData args nodeType outputs =>
      exact (hArgs args).andThen fun _ _ =>
        (Harmless.mapM harmless_pinDraft outputs).andThen
          fun _ _ => yields_pure (performs_add hReady)
  | place draft =>
      refine (harmless_draft s.names draft).andThen ?_
      intro n hn
      refine yields_pure (performs_place hReady ?_)
      rw [nodeClass_draft hn]
      simpa [Action.structured] using h
  | placeBuiltin args kind dynamic =>
      have hExec : kind.nodeClass = .exec := by
        simpa [Action.structured] using h
      exact (hArgs args).andThen fun _ _ =>
        (harmless_parseDynamic dynamic).andThen fun _ _ =>
          yields_pure (performs_place hReady hExec)
  | addBuiltin args kind dynamic =>
      exact (hArgs args).andThen fun _ _ =>
        (harmless_parseDynamic dynamic).andThen fun _ _ =>
          yields_pure (performs_add hReady)
  | pin node slot index =>
      cases node with
      | id n => cases h
      | name name =>
          refine (harmless_nodeRef s.names _).andThen ?_
          intro id hId
          obtain ⟨n, hNode⟩ := findNode_isSome hReady hId
          exact yields_pure
            (performs_pinValue hReady hNode slot index)
  | keep operand =>
      exact (harmless_eval s.names operand).andThen
        fun _ _ => yields_pure
          (performs_ofValue (.refl hReady.builder))
  | binary op x y =>
      exact (harmless_eval s.names x).andThen fun _ _ =>
        (harmless_eval s.names y).andThen fun _ _ =>
          yields_pure (performs_binary hReady op _ _)
  | unary op x =>
      exact (harmless_eval s.names x).andThen fun _ _ =>
        yields_pure (performs_unary hReady op _)
  | declare initial =>
      exact (harmless_eval s.names initial).andThen
        fun _ _ => yields_pure
          (performs_declareVariable hReady _)
  | set name input =>
      exact (harmless_findVariable s.names name).andThen
        fun _ _ => (harmless_argument s.names input).andThen
          fun _ _ => yields_pure
            (performs_setVariable hReady _ _)
  | print input =>
      exact (harmless_argument s.names input).andThen
        fun _ _ => yields_pure
          (performs_printString hReady _)
  | list items element =>
      exact
        (Harmless.mapM (harmless_argument s.names)
          items).andThen fun _ _ =>
            (harmless_parseScalar element).andThen fun _ _ =>
              yields_pure
                (performs_assembleList hReady _ _)
  | dict pairs key value =>
      exact
        (Harmless.mapM (harmless_evalPair s.names)
          pairs).andThen fun _ _ =>
            (harmless_parse key).andThen fun _ _ =>
              (harmless_parse value).andThen fun _ _ =>
                yields_pure
                  (performs_assembleDictionary hReady _ _ _)
  | breakLoop loops =>
      exact
        (Harmless.mapM (harmless_nodeRef s.names)
          loops).andThen fun _ _ =>
            yields_pure (performs_breakLoop hReady _)
  | returnNow =>
      refine yields_pure (performs_ofUnit ?_)
      rw [Builder.meets_returnNow hReady.builder]
      exact Builder.advances_returned hReady.builder
  | continueLoop =>
      exact yields_pure (performs_continueLoop hReady)
  | sealPath returning => cases h
  | returnGate =>
      exact yields_pure (performs_returnGate hReady)
  | gateVariable => cases h
  | setTail tail => cases h
  | linkFrom node index => cases h

/- What an action of a structured script comes to. -/
theorem meets_action
    {P : Entry → Prop}
    (hReady : s.Ready)
    (a : Action)
    (h : a.structured = true) :
    a.run.Meets s
      (fun r s' =>
        Session.Leads P s.graph.nextId s s' ∧
          Session.IsNew s s' r)
      (fun e s' =>
        e.isRegistry = false ∧ s'.journal = s.journal) := by
  have hPrepare := yields_prepare hReady a h
  unfold Action.run
  rw [Process.meets_bind, meets_resolved]
  refine ⟨?_, ?_⟩
  · intro step hStep
    rw [meets_build]
    refine (hPrepare.ok step hStep).mono ?_ ?_
    · rintro r b ⟨hAdvances, hNew⟩
      exact ⟨Session.leads_withBuilder hReady hAdvances,
        hNew⟩
    · intro e b he
      exact ⟨he, rfl⟩
  · intro e he
    exact ⟨hPrepare.harmless e he, rfl⟩

end FlowGraph.Script

------------------------------------------------------------
-- What An Action Leaves Behind
------------------------------------------------------------

namespace FlowGraph.Script

open Script.Action

/- The actions that add a node apart from the flow at most. -/
def Action.isData : Action → Bool
  | .addData _ _ _ => true
  | .addBuiltin _ _ _ => true
  | .pin _ _ _ => true
  | .keep _ => true
  | .binary _ _ _ => true
  | .unary _ _ => true
  | .declare _ => true
  | .list _ _ => true
  | .dict _ _ _ => true
  | _ => false

/- The actions that put a node into the flow. -/
def Action.isCall : Action → Bool
  | .placeOfType _ _ => true
  | .place _ => true
  | .placeBuiltin _ _ _ => true
  | .set _ _ => true
  | .print _ => true
  | _ => false

/-
  The node that a call puts into the flow, as far as the call
  says.
-/
def Action.Shows
    (names : Names)
    (n : Node) :
    Action → Prop
  | .print _ =>
      ∃ text, n = Builder.printNode text
  | .set name _ =>
      ∃ v value, names.findVariable name = .ok v ∧
        n = Builder.assignNode v value
  | .placeOfType nodeType _ =>
      Builtin.ofName? nodeType = none →
        ∃ args, n = .exec nodeType args 1
  | _ => True

/-
  What an action of a structured script yields and makes of
  a builder.
-/
inductive Action.Acts
    (names : Names)
    (b : Builder) :
    Action → Result → Builder → Prop
  | rests {a : Action} {r : Result}
      (hData : a.isData = true)
      (hResult : ∀ id, r ≠ .node id) :
      Acts names b a r b
  | adds {a : Action} {r : Result} {n : Node}
      (hData : a.isData = true)
      (hResult : ∀ id, r = .node id → id = b.graph.nextId) :
      Acts names b a r (b.added n)
  | places {a : Action} {n : Node}
      (hCall : a.isCall = true)
      (hExec : n.nodeClass = .exec)
      (hShows : a.Shows names n) :
      Acts names b a (.node b.graph.nextId) (b.placed n)
  | breaks {refs : List NodeRef} {loops targets : List Nat}
      (hLoops : refs.mapM (NodeRef.eval names) = .ok loops)
      (hTargets :
        Builder.breakTargets b.frame loops = .ok targets) :
      Acts names b (.breakLoop refs) (.node b.graph.nextId)
        (b.placed (Builder.breakNode targets))
  | continues
      (hInLoop : b.frame.inLoop = true) :
      Acts names b .continueLoop .none
        { b with frame := b.frame.sealPath false }
  | returns :
      Acts names b .returnNow .none b.returned
  | declares :
      Acts names b .returnGate (.gate b.gateOf) b.gated

/- The step acts as the action does. -/
def Action.ActsBy
    (names : Names)
    (b : Builder)
    (a : Action)
    (step : Build Result) :
    Prop :=
  step.Meets b (fun r b' => a.Acts names b r b')
    (fun _ _ => True)

variable {names : Names} {b : Builder} {a : Action}

theorem actsBy_place
    {n : Node}
    (hReady : b.Ready)
    (hCall : a.isCall = true)
    (hExec : n.nodeClass = .exec)
    (hShows : a.Shows names n) :
    a.ActsBy names b (ofNode (Builder.place n)) := by
  unfold ActsBy ofNode
  rw [Process.meets_bind, Builder.meets_place hReady hExec]
  exact .places hCall hExec hShows

theorem actsBy_ofValue
    {m : Build Value}
    (hData : a.isData = true)
    (h :
      m.Meets b
        (fun _ b' => b' = b ∨ ∃ n, b' = b.added n)
        (fun _ _ => True)) :
    a.ActsBy names b (ofValue m) := by
  unfold ActsBy ofValue
  rw [Process.meets_bind]
  refine h.mono ?_ fun _ _ _ => trivial
  intro v b' hEnd
  rcases hEnd with hSame | ⟨n, hAdded⟩
  · rw [hSame]
    exact .rests hData (by simp)
  · rw [hAdded]
    exact .adds hData (by simp)

theorem actsBy_pinValue
    (hData : a.isData = true)
    (id : Nat)
    (slot : String)
    (index : Nat) :
    a.ActsBy names b
      (ofValue (Builder.pinValue id slot index)) := by
  apply actsBy_ofValue hData
  unfold Builder.pinValue
  rw [Process.meets_bind, Process.meets_read,
    Process.meets_ofExcept]
  exact ⟨fun _ _ => Or.inl rfl, fun _ _ => trivial⟩

theorem actsBy_binary
    (hData : a.isData = true)
    (op : BinaryOp)
    (x y : Value) :
    a.ActsBy names b (ofValue (Builder.binary op x y)) := by
  apply actsBy_ofValue hData
  rw [Builder.meets_binary]
  refine ⟨?_, fun _ _ => trivial⟩
  intro x' y' _
  split
  · exact Or.inl rfl
  · exact Or.inr ⟨_, rfl⟩

theorem actsBy_unary
    (hData : a.isData = true)
    (op : UnaryOp)
    (x : Value) :
    a.ActsBy names b (ofValue (Builder.unary op x)) := by
  apply actsBy_ofValue hData
  rw [Builder.meets_unary]
  refine ⟨?_, fun _ _ => trivial⟩
  intro _ _
  split
  · exact Or.inl rfl
  · exact Or.inr ⟨_, rfl⟩

theorem actsBy_breakLoop
    {refs : List NodeRef}
    {loops : List Nat}
    (hReady : b.Ready)
    (hLoops : refs.mapM (NodeRef.eval names) = .ok loops) :
    (Action.breakLoop refs).ActsBy names b
      (ofNode (Builder.breakLoop loops)) := by
  unfold ActsBy ofNode
  rw [Process.meets_bind, Builder.meets_breakLoop hReady]
  exact ⟨fun _ hTargets => .breaks hLoops hTargets,
    fun _ _ => trivial⟩

/- The step that an action stands for acts as it does. -/
theorem actsBy_prepare
    (hReady : b.Ready)
    (h : a.structured = true)
    {step : Build Result}
    (hStep : a.prepare names = .ok step) :
    a.ActsBy names b step := by
  cases a with
  | beginFunction event => cases h
  | placeOfType nodeType args =>
      rcases bind_eq_ok.mp hStep with ⟨values, _, hStep⟩
      cases hStep
      unfold Builder.placeOfType
      split
      · rename_i kind hKind
        have hShows :
            ∀ n, (Action.placeOfType nodeType args).Shows
              names n := by
          intro n hNone
          rw [hNone] at hKind
          cases hKind
        split
        · rename_i hExec
          exact actsBy_place hReady rfl hExec (hShows _)
        · exact actsBy_place hReady rfl rfl (hShows _)
      · exact actsBy_place hReady rfl rfl
          fun _ => ⟨values, rfl⟩
  | addData args nodeType outputs =>
      rcases bind_eq_ok.mp hStep with ⟨values, _, hStep⟩
      rcases bind_eq_ok.mp hStep with ⟨outs, _, hStep⟩
      cases hStep
      exact Acts.adds rfl fun _ hEq =>
        (Result.node.inj hEq).symm
  | place draft =>
      rcases bind_eq_ok.mp hStep with ⟨n, hn, hStep⟩
      cases hStep
      have hExec : n.nodeClass = .exec := by
        rw [nodeClass_draft hn]
        simpa [Action.structured] using h
      exact actsBy_place hReady rfl hExec trivial
  | placeBuiltin args kind dynamic =>
      rcases bind_eq_ok.mp hStep with ⟨values, _, hStep⟩
      rcases bind_eq_ok.mp hStep with ⟨t, _, hStep⟩
      cases hStep
      have hExec : kind.nodeClass = .exec := by
        simpa [Action.structured] using h
      exact actsBy_place hReady rfl hExec trivial
  | addBuiltin args kind dynamic =>
      rcases bind_eq_ok.mp hStep with ⟨values, _, hStep⟩
      rcases bind_eq_ok.mp hStep with ⟨t, _, hStep⟩
      cases hStep
      exact Acts.adds rfl fun _ hEq =>
        (Result.node.inj hEq).symm
  | pin node slot index =>
      rcases bind_eq_ok.mp hStep with ⟨id, _, hStep⟩
      cases hStep
      exact actsBy_pinValue rfl id slot index
  | keep o =>
      rcases bind_eq_ok.mp hStep with ⟨v, _, hStep⟩
      cases hStep
      exact Acts.rests rfl (by simp)
  | binary op x y =>
      rcases bind_eq_ok.mp hStep with ⟨v, _, hStep⟩
      rcases bind_eq_ok.mp hStep with ⟨w, _, hStep⟩
      cases hStep
      exact actsBy_binary rfl op v w
  | unary op x =>
      rcases bind_eq_ok.mp hStep with ⟨v, _, hStep⟩
      cases hStep
      exact actsBy_unary rfl op v
  | declare initial =>
      rcases bind_eq_ok.mp hStep with ⟨v, _, hStep⟩
      cases hStep
      unfold ActsBy ofVariable
      rw [Process.meets_bind, Builder.meets_declareVariable]
      exact Acts.adds rfl (by simp)
  | set name input =>
      rcases bind_eq_ok.mp hStep with ⟨v, hv, hStep⟩
      rcases bind_eq_ok.mp hStep with ⟨i, _, hStep⟩
      cases hStep
      unfold ActsBy ofNode
      rw [Process.meets_bind, Builder.meets_setVariable hReady]
      exact ⟨fun value _ =>
        Acts.places rfl rfl ⟨v, value, hv, rfl⟩,
        fun _ _ => trivial⟩
  | print input =>
      rcases bind_eq_ok.mp hStep with ⟨i, _, hStep⟩
      cases hStep
      unfold ActsBy ofNode
      rw [Process.meets_bind, Builder.meets_printString hReady]
      exact ⟨fun text _ => Acts.places rfl rfl ⟨text, rfl⟩,
        fun _ _ => trivial⟩
  | list items element =>
      rcases bind_eq_ok.mp hStep with ⟨is, _, hStep⟩
      rcases bind_eq_ok.mp hStep with ⟨t, _, hStep⟩
      cases hStep
      apply actsBy_ofValue rfl
      exact Builder.meets_assembleList
        (fun _ _ => Or.inr ⟨_, rfl⟩) fun _ _ => trivial
  | dict pairs key value =>
      rcases bind_eq_ok.mp hStep with ⟨ps, _, hStep⟩
      rcases bind_eq_ok.mp hStep with ⟨k, _, hStep⟩
      rcases bind_eq_ok.mp hStep with ⟨t, _, hStep⟩
      cases hStep
      apply actsBy_ofValue rfl
      exact Builder.meets_assembleDictionary
        (fun _ _ => Or.inr ⟨_, rfl⟩) fun _ _ => trivial
  | breakLoop refs =>
      rcases bind_eq_ok.mp hStep with ⟨loops, hLoops, hStep⟩
      cases hStep
      exact actsBy_breakLoop hReady hLoops
  | returnNow =>
      cases hStep
      unfold ActsBy ofUnit
      rw [Process.meets_bind, Builder.meets_returnNow hReady]
      exact Acts.returns
  | continueLoop =>
      cases hStep
      unfold ActsBy ofUnit
      rw [Process.meets_bind, Builder.meets_continueLoop]
      split
      · rename_i hInLoop
        exact Acts.continues hInLoop
      · trivial
  | returnGate =>
      cases hStep
      unfold ActsBy ofGate
      rw [Process.meets_bind, Builder.meets_returnGate]
      exact Acts.declares
  | sealPath returning => cases h
  | gateVariable => cases h
  | setTail tail => cases h
  | linkFrom node index => cases h

end FlowGraph.Script
