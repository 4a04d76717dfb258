import FlowGraph.Proofs.Journal
import FlowGraph.Proofs.Values

/-
  Relations that every step of a script sustains.

  A statement may be refused halfway, and what it did until
  then stays done.  A relation between the state before a
  step and the state after it that the elementary steps
  sustain, refused or not, is sustained by every statement
  and by every body.

  Key definitions include:
    * `FlowGraph.Process.Leaves`
    * `FlowGraph.Script.Sustained`
    * `FlowGraph.Script.Action.Means`

  Key theorems include:
    * `FlowGraph.Process.Leaves.bind`
    * `FlowGraph.Script.Action.means_of_prepare`
    * `FlowGraph.Script.Sustained.runStmt`
    * `FlowGraph.Script.Sustained.runFrom`
-/

------------------------------------------------------------
-- What A Step Leaves
------------------------------------------------------------

namespace FlowGraph.Process

variable {σ α β : Type}

/-
  Every state is related to the one that the step leaves,
  refused or not.
-/
def Leaves
    (m : Process σ α)
    (R : σ → σ → Prop) :
    Prop :=
  ∀ s, R s (m s).2

/- A property of the state alone, whatever the outcome. -/
theorem meets_state
    {m : Process σ α}
    {s : σ}
    {P : σ → Prop} :
    m.Meets s (fun _ s' => P s') (fun _ s' => P s') ↔
      P (m s).2 := by
  unfold Meets
  rcases m s with ⟨_ | _, _⟩ <;> exact Iff.rfl

variable {R : σ → σ → Prop}

theorem leaves_iff
    {m : Process σ α} :
    m.Leaves R ↔
      ∀ s, m.Meets s (fun _ s' => R s s')
        (fun _ s' => R s s') :=
  forall_congr' fun _ => meets_state.symm

/-
  One step after another.  The second need only be good for
  what the first yields.
-/
theorem andThen_state
    {m : Process σ α}
    {f : α → Process σ β}
    {s : σ}
    {P : α → σ → Prop}
    (hTrans : ∀ {s t u}, R s t → R t u → R s u)
    (hm :
      m.Meets s (fun a s' => R s s' ∧ P a s')
        (fun _ s' => R s s'))
    (hf : ∀ a s', P a s' → R s' (f a s').2) :
    R s ((m >>= f) s).2 := by
  refine meets_state.mp ?_
  rw [meets_bind]
  refine hm.mono ?_ fun _ _ h => h
  rintro a s' ⟨hFirst, ha⟩
  exact meets_state.mpr (hTrans hFirst (hf a s' ha))

/- The second step is good for whatever it is given. -/
theorem bind_state
    {m : Process σ α}
    {f : α → Process σ β}
    {s : σ}
    (hTrans : ∀ {s t u}, R s t → R t u → R s u)
    (hm : R s (m s).2)
    (hf : ∀ a, (f a).Leaves R) :
    R s ((m >>= f) s).2 :=
  andThen_state (P := fun _ _ => True) hTrans
    ((meets_state (P := R s)).mpr hm |>.mono
      (fun _ _ h => ⟨h, trivial⟩) fun _ _ h => h)
    fun a s' _ => hf a s'

theorem Leaves.bind
    {m : Process σ α}
    {f : α → Process σ β}
    (hTrans : ∀ {s t u}, R s t → R t u → R s u)
    (hm : m.Leaves R)
    (hf : ∀ a, (f a).Leaves R) :
    (m >>= f).Leaves R :=
  fun s => bind_state hTrans (hm s) hf

/- A check comes before a step that relies on it. -/
theorem Leaves.checked
    {r : Except Error α}
    {f : α → Process σ β}
    (hRefl : ∀ s, R s s)
    (hf : ∀ a, r = .ok a → (f a).Leaves R) :
    ((liftM r : Process σ α) >>= f).Leaves R := by
  intro s
  cases r with
  | error e => exact hRefl s
  | ok a => exact hf a rfl s

/- A step for every item of a list. -/
theorem Leaves.each
    {f : α → Process σ Unit}
    (hRefl : ∀ s, R s s)
    (hTrans : ∀ {s t u}, R s t → R t u → R s u)
    (hf : ∀ a, (f a).Leaves R)
    (items : List α) :
    (Process.each f items).Leaves R := by
  induction items with
  | nil => exact hRefl
  | cons a rest ih => exact (hf a).bind hTrans fun _ => ih

end FlowGraph.Process

------------------------------------------------------------
-- Sustained Relations
------------------------------------------------------------

namespace FlowGraph.Script

open Builder (placeBuiltin)

/- Whether a result is a variable, which takes a name. -/
def Result.isVariable : Result → Bool
  | .variable _ => true
  | _ => false

/-
  The step leaves related sessions and yields something
  other than a variable.
-/
def YieldsPlain
    (R : Session → Session → Prop)
    (m : Run Result) :
    Prop :=
  ∀ s, m.Meets s
    (fun r s' => R s s' ∧ r.isVariable = false)
    (fun _ s' => R s s')

/-
  The relation `R` between sessions, which may depend on the
  place, is sustained by the elementary steps of a script.
  `B` is what it says of the builder.

  The nodes of the constructs are placed after a check of
  their arguments, so they need only be good for arguments
  that pass the check.
-/
structure Sustained
    (B : Builder → Builder → Prop)
    (R : Path → Session → Session → Prop) :
    Prop where
  refl : ∀ path s, R path s s
  trans :
    ∀ {path s t u}, R path s t → R path t u → R path s u
  inner :
    ∀ {path segment s t}, segment ≠ .function →
      R (path ++ [segment]) s t → R path s t
  record :
    ∀ path s place event, R path s (s.record place event)
  bindNode :
    ∀ path s name id,
      R path s (s.withNames (s.names.bindNode name id))
  bindValue :
    ∀ path s name v,
      R path s (s.withNames (s.names.bindValue name v))
  still : ∀ b, B b b
  build :
    ∀ {path s b}, B s.builder b → R path s (s.withBuilder b)
  setTail :
    ∀ b tail, B b { b with frame := b.frame.setTail tail }
  connect : ∀ e t, (Builder.connect e t).Leaves B
  placeBranch :
    ∀ {c : Value}, c.type = .bool →
      (placeBuiltin .doubleBranch [c] none).Leaves B
  placeSwitch :
    ∀ {c : Value} {sw : Switch (Run Unit)} {targets},
      checkSwitch c sw = .ok targets →
        (placeBuiltin .multipleBranches
          (c :: sw.labels.map Label.value) none).Leaves B
  placeRange :
    ∀ {a b : Value}, a.type = .int → b.type = .int →
      (placeBuiltin .finiteLoop [a, b] none).Leaves B
  placeItems :
    ∀ {l : Value} {element}, l.type.element? = some element →
      (placeBuiltin .listIterationLoop [l]
        (some element)).Leaves B
  returnGuard : Script.returnGuard.Leaves B
  inLoop :
    ∀ {path α} {body : Run α} (node : Nat),
      body.Leaves (R path) →
        (Script.inLoop node body).Leaves (R path)
  inFunction :
    ∀ {path} {body : Run Unit} (event : String),
      Writes (path ++ [.function] <+: ·) body →
        body.Leaves (R (path ++ [.function])) →
          (Script.inFunction event body).Leaves (R path)

namespace Sustained

variable {B : Builder → Builder → Prop}
variable {R : Path → Session → Session → Prop}
variable {path : Path} {α β : Type}

theorem andThen
    (h : Sustained B R)
    {m : Run α}
    {f : α → Run β}
    (hm : m.Leaves (R path))
    (hf : ∀ a, (f a).Leaves (R path)) :
    (m >>= f).Leaves (R path) :=
  hm.bind h.trans hf

theorem pure
    (h : Sustained B R)
    (a : α) :
    (Pure.pure a : Run α).Leaves (R path) :=
  h.refl path

theorem checked
    (h : Sustained B R)
    {r : Except Error α}
    {f : α → Run β}
    (hf : ∀ a, r = .ok a → (f a).Leaves (R path)) :
    ((liftM r : Run α) >>= f).Leaves (R path) :=
  Process.Leaves.checked (h.refl path) hf

theorem resolved
    (h : Sustained B R)
    (f : Names → Except Error α) :
    (Script.resolved f).Leaves (R path) :=
  h.refl path

/- A step on the builder. -/
theorem lift
    (h : Sustained B R)
    {m : Build α}
    (hm : m.Leaves B) :
    (liftM m : Run α).Leaves (R path) :=
  fun s => h.build (hm s.builder)

theorem withTail
    (h : Sustained B R)
    (s : Session)
    (tail : List Endpoint) :
    R path s (s.withTail tail) :=
  h.build (h.setTail s.builder tail)

theorem setCursor
    (h : Sustained B R)
    (tail : List Endpoint) :
    (liftM (Builder.onFrame fun f => f.setTail tail)
      : Run Unit).Leaves (R path) :=
  fun s => h.withTail s tail

theorem pinValue
    (h : Sustained B R)
    (id : Nat)
    (slot : String)
    (index : Nat) :
    (liftM (Builder.pinValue id slot index)
      : Run Value).Leaves (R path) :=
  h.lift h.still

/- A result other than a variable is kept. -/
theorem keep
    (h : Sustained B R)
    {r : Result}
    (hPlain : r.isVariable = false)
    (s : Session)
    (bind : Binding) :
    R path s (s.withNames (s.names.keep bind r)) := by
  rcases bind with ⟨valueName, nodeName⟩
  cases r with
  | node id =>
      cases nodeName with
      | none => exact h.refl path s
      | some name => exact h.bindNode path s name id
  | value v =>
      cases valueName with
      | none => exact h.refl path s
      | some name => exact h.bindValue path s name v
  | «variable» v => cases hPlain
  | _ => exact h.refl path s

theorem keepLoop
    (h : Sustained B R)
    (bind : Binding)
    (node : Nat)
    (value : Value) :
    (Script.keepLoop bind node value).Leaves (R path) := by
  rw [Process.leaves_iff]
  intro s
  rw [meets_keepLoop]
  have hValue :
      R path s (s.withNames (s.names.keep bind (.value value))) :=
    h.keep rfl s bind
  exact h.trans hValue (h.keep (r := .node node) rfl _ bind)

end Sustained

end FlowGraph.Script

------------------------------------------------------------
-- Constructs
------------------------------------------------------------

namespace FlowGraph.Script.Sustained

variable {B : Builder → Builder → Prop}
variable {R : Path → Session → Session → Prop}
variable {path : Path} {α β : Type}

theorem inBranch
    (h : Sustained B R)
    {body : Run Unit}
    (hBody : body.Leaves (R path))
    (node index : Nat) :
    (Script.inBranch node index body).Leaves (R path) := by
  rw [Process.leaves_iff]
  intro s
  rw [meets_inBranch]
  have hEnter : R path s (s.withTail [⟨node, index⟩]) :=
    h.withTail s _
  have hRun := hBody (s.withTail [⟨node, index⟩])
  exact Process.meets_state.mpr
    (h.trans (h.trans hEnter hRun) (h.withTail _ _))

theorem conditional
    (h : Sustained B R)
    {onTrue onFalse : Run Unit}
    (hTrue : onTrue.Leaves (R path))
    (hFalse : onFalse.Leaves (R path))
    (c : Value) :
    (Script.conditional c onTrue onFalse).Leaves
      (R path) := by
  refine h.checked fun v hExpect => ?_
  have hType := (eq_of_expect hExpect).2
  exact h.andThen (h.lift (h.placeBranch hType)) fun node =>
    h.andThen (h.inBranch hTrue node 0) fun _ =>
      h.andThen (h.inBranch hFalse node 1) fun _ =>
        h.andThen (h.setCursor _) fun _ => h.pure node

theorem runArms
    (h : Sustained B R)
    {arms : List (Arm (Run Unit))}
    (hArms :
      ∀ arm ∈ arms, ∀ body, arm.body? = some body →
        body.Leaves (R path))
    (node index : Nat) :
    (Script.runArms node index arms).Leaves (R path) := by
  induction arms generalizing index with
  | nil => exact h.pure []
  | cons arm rest ih =>
      have hRest :=
        ih (fun a ha => hArms a (List.mem_cons_of_mem _ ha))
          (index + 1)
      refine h.andThen ?_ fun b =>
        h.andThen hRest fun bs => h.pure (b :: bs)
      cases arm with
      | body body =>
          have hBody := hArms _ List.mem_cons_self body rfl
          exact h.andThen (h.inBranch hBody node index)
            fun b => h.pure (some b)
      | empty => exact h.pure _
      | «alias» k => exact h.pure _

theorem wireAliases
    (h : Sustained B R)
    (node : Nat)
    (branches : List (Option Branch))
    (resolved : List (Option Branch × Nat))
    (index : Nat)
    (join : List Endpoint) :
    (Script.wireAliases node branches index resolved
      join).Leaves (R path) := by
  induction resolved generalizing index join with
  | nil => exact h.pure join
  | cons p rest ih =>
      rcases p with ⟨own, target⟩
      cases own with
      | some b => exact ih (index + 1) join
      | none =>
          unfold Script.wireAliases
          split
          · refine h.andThen ?_ fun join' =>
              ih (index + 1) join'
            unfold wireAlias
            split
            · exact h.andThen (h.lift (h.connect _ _))
                fun _ => h.pure join
            · exact h.pure _
          · exact ih (index + 1) join

theorem dispatch
    (h : Sustained B R)
    {sw : Switch (Run Unit)}
    (hArms :
      ∀ arm ∈ sw.arms, ∀ body, arm.body? = some body →
        body.Leaves (R path))
    (control : Value) :
    (Script.dispatch control sw).Leaves (R path) :=
  h.checked fun _ hCheck =>
    h.andThen (h.lift (h.placeSwitch hCheck)) fun node =>
      h.andThen (h.runArms hArms node 0) fun _ =>
        h.andThen (h.wireAliases node _ _ _ _) fun join =>
          h.andThen (h.setCursor join) fun _ => h.pure node

theorem loopBody
    (h : Sustained B R)
    {body : Run Unit}
    (hBody : body.Leaves (R path))
    (node : Nat) :
    (Script.loopBody node body).Leaves (R path) := by
  refine h.andThen (h.inLoop node (h.inBranch hBody node 0))
    fun branch => ?_
  refine h.andThen (h.setCursor [⟨node, 1⟩]) fun _ => ?_
  split
  · exact h.andThen (h.lift h.returnGuard) fun _ => h.pure _
  · exact h.pure _

theorem countingLoop
    (h : Sustained B R)
    {body : Nat → Value → Run Unit}
    (hBody : ∀ node value, (body node value).Leaves (R path))
    (start stop : Input) :
    (Script.countingLoop start stop body).Leaves (R path) :=
  h.checked fun _ hStart => h.checked fun _ hStop =>
    h.andThen (h.lift (h.placeRange (type_of_read hStart)
      (type_of_read hStop))) fun node =>
        h.andThen (h.pinValue node _ _) fun value =>
          h.andThen (h.loopBody (hBody node value) node)
            fun _ => h.pure node

theorem itemLoop
    (h : Sustained B R)
    {body : Nat → Value → Run Unit}
    (hBody : ∀ node value, (body node value).Leaves (R path))
    (list : Value) :
    (Script.itemLoop list body).Leaves (R path) := by
  refine h.checked fun element hItem => ?_
  have hElement : list.type.element? = some element := by
    unfold itemType at hItem
    split at hItem
    · rename_i hSome
      cases hItem
      exact hSome
    · cases hItem
  exact h.andThen (h.lift (h.placeItems hElement)) fun node =>
    h.andThen (h.pinValue node _ _) fun value =>
      h.andThen (h.loopBody (hBody node value) node)
        fun _ => h.pure node

end FlowGraph.Script.Sustained

------------------------------------------------------------
-- Actions
------------------------------------------------------------

namespace FlowGraph.Script

open Script.Action

/-
  The step that an action stands for under some names, the
  operands evaluated.
-/
inductive Action.Means
    (names : Names) :
    Action → Build Result → Prop
  | beginFunction (event : String) :
      Means names (.beginFunction event)
        (ofNode (Builder.beginFunction event))
  | placeOfType {args values}
      (nodeType : String)
      (hArgs :
        args.mapM (Operand.eval names) = .ok values) :
      Means names (.placeOfType nodeType args)
        (ofNode (Builder.placeOfType nodeType values))
  | addData {args values outputs pins}
      (nodeType : String)
      (hArgs : args.mapM (Operand.eval names) = .ok values)
      (hPins : outputs.mapM PinDraft.eval = .ok pins) :
      Means names (.addData args nodeType outputs)
        (ofNode (Builder.addData nodeType values pins))
  | place {draft n}
      (hDraft : draft.eval names = .ok n) :
      Means names (.place draft) (ofNode (Builder.place n))
  | placeBuiltin {args values dynamic type}
      (kind : Builtin)
      (hArgs : args.mapM (Operand.eval names) = .ok values)
      (hType : parseDynamic dynamic = .ok type) :
      Means names (.placeBuiltin args kind dynamic)
        (ofNode (Builder.placeBuiltin kind values type))
  | addBuiltin {args values dynamic type}
      (kind : Builtin)
      (hArgs : args.mapM (Operand.eval names) = .ok values)
      (hType : parseDynamic dynamic = .ok type) :
      Means names (.addBuiltin args kind dynamic)
        (ofNode (Builder.addBuiltin kind values type))
  | pin {node id}
      (slot : String)
      (index : Nat)
      (hNode : node.eval names = .ok id) :
      Means names (.pin node slot index)
        (ofValue (Builder.pinValue id slot index))
  | keep {operand v}
      (hValue : operand.eval names = .ok v) :
      Means names (.keep operand) (ofValue (pure v))
  | binary {x y v w}
      (op : BinaryOp)
      (hLeft : x.eval names = .ok v)
      (hRight : y.eval names = .ok w) :
      Means names (.binary op x y)
        (ofValue (Builder.binary op v w))
  | unary {x v}
      (op : UnaryOp)
      (hValue : x.eval names = .ok v) :
      Means names (.unary op x)
        (ofValue (Builder.unary op v))
  | declare {initial v}
      (hValue : initial.eval names = .ok v) :
      Means names (.declare initial)
        (ofVariable (Builder.declareVariable v))
  | set {name v arg input}
      (hVariable : names.findVariable name = .ok v)
      (hInput : arg.eval names = .ok input) :
      Means names (.set name arg)
        (ofNode (Builder.setVariable v input))
  | print {arg input}
      (hInput : arg.eval names = .ok input) :
      Means names (.print arg)
        (ofNode (Builder.printString input))
  | list {args items type element}
      (hItems : args.mapM (Argument.eval names) = .ok items)
      (hElement : parseScalar type = .ok element) :
      Means names (.list args type)
        (ofValue (Builder.assembleList element items))
  | dict {args pairs keyType key valueType value}
      (hPairs : args.mapM (evalPair names) = .ok pairs)
      (hKey : ValueType.parse keyType = .ok key)
      (hValue : ValueType.parse valueType = .ok value) :
      Means names (.dict args keyType valueType)
        (ofValue (Builder.assembleDictionary key value pairs))
  | breakLoop {refs loops}
      (hLoops : refs.mapM (NodeRef.eval names) = .ok loops) :
      Means names (.breakLoop refs)
        (ofNode (Builder.breakLoop loops))
  | returnNow :
      Means names .returnNow (ofUnit Builder.returnNow)
  | continueLoop :
      Means names .continueLoop (ofUnit Builder.continueLoop)
  | sealPath (returning : Bool) :
      Means names (.sealPath returning)
        (ofUnit (Builder.onFrame fun f =>
          f.sealPath returning))
  | returnGate :
      Means names .returnGate (ofGate Builder.returnGate)
  | gateVariable :
      Means names .gateVariable
        (ofVariable Builder.returnGate)
  | setTail {refs tail}
      (hTail : refs.mapM (EndpointRef.eval names) = .ok tail) :
      Means names (.setTail refs)
        (ofUnit (Builder.onFrame fun f => f.setTail tail))
  | linkFrom {node id}
      (index : Nat)
      (hNode : node.eval names = .ok id) :
      Means names (.linkFrom node index)
        (ofUnit (Builder.onFrame fun f =>
          f.linkFrom id index))

theorem Action.means_of_prepare
    {names : Names}
    {a : Action}
    {step : Build Result}
    (h : a.prepare names = .ok step) :
    a.Means names step := by
  unfold Action.prepare at h
  split at h
  all_goals
    repeat' rcases bind_eq_ok.mp h with ⟨_, _, h⟩
  all_goals
    cases h
    constructor <;> assumption

/- An action sustains what its step on the builder does. -/
theorem Sustained.action
    {B : Builder → Builder → Prop}
    {R : Path → Session → Session → Prop}
    (h : Sustained B R)
    {a : Action}
    {bind : Binding}
    (path : Path)
    (hStep :
      ∀ s step, a.Means s.names step →
        step.Meets s.builder
          (fun r b => R path s
            ((s.withBuilder b).withNames
              (s.names.keep bind r)))
          (fun _ b => R path s (s.withBuilder b))) :
    (Script.journaled path bind a.run).Leaves (R path) := by
  rw [Process.leaves_iff]
  intro s
  rw [meets_journaled, Action.run, Process.meets_bind,
    meets_resolved]
  refine ⟨?_, fun _ _ => h.record path s path _⟩
  intro step hPrepare
  rw [meets_build]
  refine (hStep s step (means_of_prepare hPrepare)).mono ?_ ?_
  · intro r b hRun
    exact h.trans hRun (h.record path _ path _)
  · intro e b hRun
    exact h.trans hRun (h.record path _ path _)

end FlowGraph.Script

------------------------------------------------------------
-- Statements
------------------------------------------------------------

namespace FlowGraph.Script

namespace Sustained

variable {B : Builder → Builder → Prop}
variable {R : Path → Session → Session → Prop}
variable {path : Path} {α : Type}

theorem finish
    (h : Sustained B R)
    {r : Result}
    (hPlain : r.isVariable = false)
    (s : Session)
    (place : Path)
    (bind : Binding) :
    R path s (s.finish place bind r) :=
  h.trans (h.keep hPlain s bind)
    (h.record path _ place _)

theorem yields
    (h : Sustained B R)
    {r : Result}
    (hPlain : r.isVariable = false) :
    YieldsPlain (R path) (Pure.pure r) :=
  fun s => ⟨h.refl path s, hPlain⟩

theorem thenYields
    (h : Sustained B R)
    {m : Run α}
    {f : α → Run Result}
    (hm : m.Leaves (R path))
    (hf : ∀ a, YieldsPlain (R path) (f a)) :
    YieldsPlain (R path) (m >>= f) := by
  intro s
  rw [Process.meets_bind]
  refine (Process.leaves_iff.mp hm s).mono ?_ fun _ _ h => h
  intro a s' hFirst
  exact (hf a s').mono
    (fun _ _ hSecond =>
      ⟨h.trans hFirst hSecond.1, hSecond.2⟩)
    fun _ _ hSecond => h.trans hFirst hSecond

/- A statement that does not yield a variable. -/
theorem journaled
    (h : Sustained B R)
    {m : Run Result}
    (hm : YieldsPlain (R path) m)
    (place : Path)
    (bind : Binding) :
    (Script.journaled place bind m).Leaves (R path) := by
  rw [Process.leaves_iff]
  intro s
  rw [meets_journaled]
  refine (hm s).mono ?_ ?_
  · rintro r s' ⟨hRun, hPlain⟩
    exact h.trans hRun (h.finish hPlain s' place bind)
  · intro e s' hRun
    exact h.trans hRun (h.record path s' place _)

theorem entered
    (h : Sustained B R)
    {body : Run Unit}
    (hBody : body.Leaves (R path))
    (place : Path) :
    (Script.entered place body).Leaves (R path) :=
  h.andThen (fun s => h.record path s place _) fun _ => hBody

/- Catching a refusal undoes nothing. -/
theorem attempt
    (h : Sustained B R)
    {body : Run Unit}
    (hBody : body.Leaves (R path)) :
    YieldsPlain (R path) do
      match ← body.observe with
      | .ok () => return .succeeded
      | .error e => return .caught e := by
  refine h.thenYields hBody fun outcome => ?_
  cases outcome with
  | ok _ => exact h.yields rfl
  | error e => exact h.yields rfl

/-
  Statements and bodies sustain what their actions sustain.
  `p` is a test that all statements pass.
-/
theorem runStmt
    (h : Sustained B R)
    {p : Stmt → Bool}
    (hAction :
      ∀ path bind a, p (.action bind a) = true →
        (Script.journaled path bind a.run).Leaves
          (R path)) :
    (∀ (s : Stmt) (path : Path), s.every p = true →
      (Script.runStmt path s).Leaves (R path)) ∧
      ∀ (b : List Stmt) (path : Path) (i : Nat),
        everyIn p b = true →
          (runBlock path i b).Leaves (R path) := by
  apply Stmt.induction
  · intro st hBodies path hEvery
    rw [Stmt.every_iff] at hEvery
    rcases hEvery with ⟨hSelf, hInner⟩
    -- A body is run at a place of its own.
    have hBody :
        ∀ b ∈ st.bodies, ∀ segment,
          (Script.entered (path ++ [segment])
            (runBlock (path ++ [segment]) 0 b)).Leaves
              (R (path ++ [segment])) :=
      fun b hb segment =>
        h.entered (hBodies b hb _ 0 (hInner b hb)) _
    have hHere :
        ∀ b ∈ st.bodies, ∀ segment, segment ≠ .function →
          (Script.entered (path ++ [segment])
            (runBlock (path ++ [segment]) 0 b)).Leaves
              (R path) :=
      fun b hb segment hNot s =>
        h.inner hNot (hBody b hb segment s)
    cases st with
    | action bind a => exact hAction path bind a hSelf
    | function bind event body =>
        have hOwn := hBody body (by simp [Stmt.bodies])
        refine h.journaled (h.thenYields (h.inFunction event
          ?_ (hOwn .function)) fun _ => h.yields rfl) path _
        refine Writes.mono ((writes_runStmt.2 body _
          0).entered ?_) ?_
        · rintro ⟨j, -, hj⟩
          exact not_common_start hj
        · rintro q (rfl | ⟨j, -, hj⟩)
          · exact List.prefix_refl _
          · exact (List.prefix_append _ _).trans hj
    | ifThen bind c thenBody =>
        have hThen := hHere thenBody (by simp [Stmt.bodies])
          .thenBody (by simp)
        exact h.journaled (h.thenYields (h.resolved _)
          fun v => h.thenYields (h.conditional hThen
            (h.pure ()) v) fun _ => h.yields rfl) path _
    | ifElse bind c thenBody elseBody =>
        have hThen := hHere thenBody (by simp [Stmt.bodies])
          .thenBody (by simp)
        have hElse := hHere elseBody (by simp [Stmt.bodies])
          .elseBody (by simp)
        exact h.journaled (h.thenYields (h.resolved _)
          fun v => h.thenYields (h.conditional hThen hElse v)
            fun _ => h.yields rfl) path _
    | switch bind control cases default =>
        have hArms :
            ∀ arm ∈ (preparedSwitch path cases default).arms,
              ∀ body, arm.body? = some body →
                body.Leaves (R path) := by
          intro arm hArm body hEq
          rcases List.mem_iff_getElem?.mp hArm with ⟨j, hj⟩
          rcases body_preparedSwitch bind control hj hEq with
            ⟨b, hb, rfl⟩
          refine hHere b (Stmt.mem_bodies hb) _ ?_
          cases j <;> simp [armSegment]
        exact h.journaled (h.thenYields (h.resolved _)
          fun v => h.thenYields (h.dispatch hArms v)
            fun _ => h.yields rfl) path _
    | forRange bind start stop body =>
        have hRound := hHere body (by simp [Stmt.bodies])
          .loopBody (by simp)
        exact h.journaled (h.thenYields (h.resolved _)
          fun start => h.thenYields (h.resolved _)
            fun stop => h.thenYields (h.countingLoop
              (fun node value =>
                h.andThen (h.keepLoop bind node value)
                  fun _ => hRound) start stop)
              fun _ => h.yields rfl) path _
    | forEach bind list body =>
        have hRound := hHere body (by simp [Stmt.bodies])
          .loopBody (by simp)
        exact h.journaled (h.thenYields (h.resolved _)
          fun list => h.thenYields (h.itemLoop
            (fun node value =>
              h.andThen (h.keepLoop bind node value)
                fun _ => hRound) list)
            fun _ => h.yields rfl) path _
    | branch node index body =>
        have hRun := hHere body (by simp [Stmt.bodies])
          .branch (by simp)
        exact h.journaled (h.thenYields (h.resolved _)
          fun id => h.thenYields (h.inBranch hRun id index)
            fun _ => h.yields rfl) path _
    | loop node body =>
        have hRun := hHere body (by simp [Stmt.bodies])
          .loop (by simp)
        exact h.journaled (h.thenYields (h.resolved _)
          fun id => h.thenYields (h.inLoop id hRun)
            fun _ => h.yields rfl) path _
    | attempt body =>
        exact h.journaled (h.attempt
          (hHere body (by simp [Stmt.bodies]) .attempt
            (by simp))) path _
  · intro path i _
    exact h.pure ()
  · intro st rest hs hRest path i hEvery
    rw [everyIn_cons] at hEvery
    refine h.andThen (fun s => h.inner ?_
      (hs _ hEvery.1 s)) fun _ => hRest path (i + 1) hEvery.2
    simp

/- A refusal at the top does not end a script. -/
theorem runFrom
    (h : Sustained B R)
    {p : Stmt → Bool}
    (hAction :
      ∀ path bind a, p (.action bind a) = true →
        (Script.journaled path bind a.run).Leaves (R path))
    {block : List Stmt}
    (hEvery : everyIn p block = true)
    (i : Nat)
    (s : Session) :
    R [] s (Script.runFrom i block s) := by
  induction block generalizing i s with
  | nil => exact h.refl [] s
  | cons st rest ih =>
      rw [everyIn_cons] at hEvery
      have hFirst :=
        (h.runStmt hAction).1 st ([] ++ [.statement i])
          hEvery.1 s
      exact h.trans (h.inner (by simp) hFirst)
        (ih hEvery.2 (i + 1) _)

end Sustained

end FlowGraph.Script
