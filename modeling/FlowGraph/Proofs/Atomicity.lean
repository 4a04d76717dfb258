import FlowGraph.Proofs.Provenance
import FlowGraph.Proofs.Sustained

/-
  Refusals that change nothing.

  An operation checks its operands before it touches the
  graph or the frame.  In every state, whatever its cursor,
  a refusal that does not come from the graph itself leaves
  the state as it was.  A construct with bodies does the
  same until the first of its bodies starts.

  Key definitions include:
    * `FlowGraph.Process.Atomic`
    * `FlowGraph.Script.Session.Started`
    * `FlowGraph.Script.Careful`
    * `FlowGraph.Script.Stmt.isChecked`

  Key theorems include:
    * `FlowGraph.Builder.meets_place_anywhere`
    * `FlowGraph.Script.careful_dispatch`
    * `FlowGraph.Script.careful_runStmt`
    * `FlowGraph.Script.rejections_change_nothing`
-/

------------------------------------------------------------
-- Atomic Steps
------------------------------------------------------------

namespace FlowGraph.Process

variable {σ α β : Type}

/- Of a step only the refusals are looked at. -/
theorem Meets.refusals
    {m : Process σ α}
    {s : σ}
    {Q : α → σ → Prop}
    {E E' : Error → σ → Prop}
    (h : m.Meets s Q E)
    (hE : ∀ e s', E e s' → E' e s') :
    m.Meets s (fun _ _ => True) E' :=
  h.mono (fun _ _ _ => trivial) hE

/-
  Unless the graph itself refuses, a refusal leaves the
  state as it was.
-/
def Atomic
    (m : Process σ α) :
    Prop :=
  ∀ s e s', m s = (.error e, s') → e.isRegistry = false →
    s' = s

theorem atomic_of_meets
    {m : Process σ α}
    (h :
      ∀ s, m.Meets s (fun _ _ => True)
        (fun e s' => e.isRegistry = false → s' = s)) :
    m.Atomic := by
  intro s e s' hm
  exact (h s).of_error hm

theorem Atomic.meets
    {m : Process σ α}
    (h : m.Atomic)
    (s : σ) :
    m.Meets s (fun _ _ => True)
      (fun e s' => e.isRegistry = false → s' = s) := by
  unfold Meets
  split
  · trivial
  · rename_i e s' hm
    exact h s e s' hm

/- Nothing but the graph itself refuses the step. -/
def Firm
    (m : Process σ α) :
    Prop :=
  ∀ s, m.Meets s (fun _ _ => True)
    (fun e _ => e.isRegistry = true)

theorem Firm.atomic
    {m : Process σ α}
    (h : m.Firm) :
    m.Atomic := by
  apply atomic_of_meets
  intro s
  apply (h s).refusals
  intro e _ hRegistry hNot
  rw [hRegistry] at hNot
  cases hNot

/- The same step for every item of a list. -/
theorem Firm.each
    {f : α → Process σ Unit}
    (h : ∀ a, (f a).Firm)
    (items : List α) :
    (Process.each f items).Firm := by
  induction items with
  | nil =>
      intro s
      trivial
  | cons a rest ih =>
      intro s
      unfold Process.each
      rw [meets_bind]
      apply (h a s).mono
      · intro _ s' _
        exact ih s'
      · intro _ _ hRegistry
        exact hRegistry

/- A check comes before everything else. -/
theorem Atomic.checked
    {r : Except Error α}
    {f : α → Process σ β}
    (h : ∀ a, (f a).Atomic) :
    ((liftM r : Process σ α) >>= f).Atomic := by
  apply atomic_of_meets
  intro s
  cases r with
  | error e => exact fun _ => rfl
  | ok a => exact (h a).meets s

/- A result is passed on. -/
theorem Atomic.map
    {m : Process σ α}
    (h : m.Atomic)
    (f : α → β) :
    (m >>= fun a => pure (f a)).Atomic := by
  apply atomic_of_meets
  intro s
  rw [meets_bind]
  exact h.meets s

end FlowGraph.Process

------------------------------------------------------------
-- Operations Of A Builder
------------------------------------------------------------

namespace FlowGraph.Builder

theorem firm_connect
    (source : Endpoint)
    (target : Nat) :
    (connect source target).Firm := by
  intro b
  unfold Process.Meets connect
  cases hConnect : b.graph.connect source target with
  | error e => exact Graph.isRegistry_of_connect hConnect
  | ok g => trivial

/- Placing a node is refused at its links or not at all. -/
theorem firm_place
    (n : Node) :
    (place n).Firm := by
  intro b
  unfold place
  rw [Process.meets_bind, meets_fromFrame, Process.meets_bind,
    meets_add, Process.meets_bind]
  apply (Process.Firm.each (fun e => firm_connect e _) _ _).mono
  · intro _ _ _
    split
    · trivial
    · trivial
  · intro _ _ hRegistry
    exact hRegistry

/-
  Wherever the cursor is, a node that is placed is there
  afterwards, and only the graph refuses it.
-/
theorem meets_place_anywhere
    (b : Builder)
    (n : Node) :
    (place n).Meets b
      (fun id b' => b'.graph.nodes.get? id = some n)
      (fun e _ => e.isRegistry = true) := by
  have hFound :
      (place n).Meets b
        (fun id b' => b'.graph.nodes.get? id = some n)
        (fun _ _ => True) := by
    apply meets_place_node
    intro b' hNodes _ _ _
    rw [hNodes]
    exact Table.get?_insert_self _ _ _
  apply (hFound.and (firm_place n b)).mono
  · intro _ _ h
    exact h.1
  · intro _ _ h
    exact h.2

theorem firm_placeBuiltin
    (kind : Builtin)
    (args : List Value)
    (dynamic : Option ValueType) :
    (placeBuiltin kind args dynamic).Firm :=
  firm_place _

theorem atomic_printString
    (input : Input) :
    (printString input).Atomic :=
  .checked fun _ => (firm_placeBuiltin _ _ _).atomic

theorem atomic_setVariable
    (v : Variable)
    (input : Input) :
    (setVariable v input).Atomic :=
  .checked fun _ => (firm_placeBuiltin _ _ _).atomic

theorem atomic_binary
    (op : BinaryOp)
    (x y : Value) :
    (binary op x y).Atomic := by
  apply Process.atomic_of_meets
  intro b
  rw [meets_binary]
  constructor
  · intro x' y' _
    split
    · trivial
    · trivial
  · intro e _ _
    rfl

theorem atomic_unary
    (op : UnaryOp)
    (x : Value) :
    (unary op x).Atomic := by
  apply Process.atomic_of_meets
  intro b
  rw [meets_unary]
  constructor
  · intro _ _
    split
    · trivial
    · trivial
  · intro e _ _
    rfl

theorem atomic_assembleList
    (element : Scalar)
    (items : List Input) :
    (assembleList element items).Atomic := by
  apply Process.atomic_of_meets
  intro b
  apply meets_assembleList
  · intro _ _
    trivial
  · intro e _ _
    rfl

theorem atomic_assembleDictionary
    (key value : ValueType)
    (pairs : List (Input × Input)) :
    (assembleDictionary key value pairs).Atomic := by
  apply Process.atomic_of_meets
  intro b
  apply meets_assembleDictionary
  · intro _ _
    trivial
  · intro e _ _
    rfl

/- The path ends only after the node is in place. -/
theorem atomic_breakLoop
    (loops : List Nat) :
    (breakLoop loops).Atomic := by
  apply Process.atomic_of_meets
  intro b
  unfold breakLoop
  rw [Process.meets_bind, meets_frameNow, Process.meets_bind,
    Process.meets_ofExcept]
  constructor
  · intro targets _
    rw [Process.meets_bind]
    -- Ending the path is not refused.
    exact (firm_placeBuiltin _ _ _).atomic.meets b
  · intro e _ _
    rfl

theorem atomic_continueLoop :
    continueLoop.Atomic := by
  apply Process.atomic_of_meets
  intro b
  rw [meets_continueLoop]
  split
  · trivial
  · intro _
    rfl

end FlowGraph.Builder

------------------------------------------------------------
-- Bodies That Have Started
------------------------------------------------------------

namespace FlowGraph.Script

/- The journal tells of a body that was entered since. -/
def Session.Started
    (s s' : Session) :
    Prop :=
  ∃ news, s'.journal = news ++ s.journal ∧
    ∃ d ∈ news, d.event = .entered

namespace Session

variable {s s₁ s' : Session}

theorem started_record
    (path : Path) :
    s.Started (s.record path .entered) :=
  ⟨[⟨path, s.builder, .entered⟩], rfl, _,
    List.mem_singleton_self _, rfl⟩

/- What is written later does not undo it. -/
theorem Started.trans_suffix
    (h : s.Started s₁)
    (hSuffix : s₁.journal <:+ s'.journal) :
    s.Started s' := by
  rcases h with ⟨news, hJournal, d, hd, hEvent⟩
  rcases hSuffix with ⟨more, hMore⟩
  refine ⟨more ++ news, ?_, d,
    List.mem_append_right _ hd, hEvent⟩
  rw [← hMore, hJournal, List.append_assoc]

/- Nothing may be written before it. -/
theorem Started.of_eq
    (h : s₁.Started s')
    (hEq : s₁.journal = s.journal) :
    s.Started s' := by
  rcases h with ⟨news, hJournal, hMem⟩
  rw [hEq] at hJournal
  exact ⟨news, hJournal, hMem⟩

theorem Started.suffix
    (h : s.Started s') :
    s.journal <:+ s'.journal := by
  rcases h with ⟨news, hJournal, _⟩
  exact ⟨news, hJournal.symm⟩

theorem Started.ne
    (h : s.Started s') :
    s'.journal ≠ s.journal := by
  rcases h with ⟨news, hJournal, d, hd, _⟩
  rw [hJournal]
  intro hEq
  rw [List.append_left_eq_self.mp hEq] at hd
  cases hd

end Session

variable {α β : Type}

/- Whatever the outcome, the journal is only added to. -/
def Extends
    (m : Run α) :
    Prop :=
  m.Leaves fun s s' => s.journal <:+ s'.journal

/- Whatever the outcome, a body was entered. -/
def Starts
    (m : Run α) :
    Prop :=
  m.Leaves Session.Started

theorem Writes.extends
    {P : Path → Prop}
    {m : Run α}
    (h : Writes P m) :
    Extends m := by
  intro s
  exact Process.meets_state.mp
    ((h s).mono (fun _ _ hWrote => hWrote.suffix)
      (fun _ _ hWrote => hWrote.suffix))

theorem Starts.extends
    {m : Run α}
    (h : Starts m) :
    Extends m :=
  fun s => (h s).suffix

theorem Extends.bind
    {m : Run α}
    {f : α → Run β}
    (hm : Extends m)
    (hf : ∀ a, Extends (f a)) :
    Extends (m >>= f) :=
  Process.Leaves.bind
    (fun h₁ h₂ => List.IsSuffix.trans h₁ h₂) hm hf

/- A body was entered, and more steps follow. -/
theorem Starts.andThen
    {m : Run α}
    {f : α → Run β}
    (hm : Starts m)
    (hf : ∀ a, Extends (f a)) :
    Starts (m >>= f) := by
  intro s
  apply Process.meets_state.mp
  rw [Process.meets_bind]
  apply (Process.meets_state.mpr (hm s)).mono
  · intro a s₁ hStarted
    exact Process.meets_state.mpr
      (hStarted.trans_suffix (hf a s₁))
  · intro _ _ hStarted
    exact hStarted

theorem starts_entered
    {body : Run Unit}
    (h : Extends body)
    (path : Path) :
    Starts (entered path body) := by
  intro s
  apply Process.meets_state.mp
  rw [meets_entered]
  exact Process.meets_state.mpr
    ((Session.started_record path).trans_suffix (h _))

theorem Extends.inBranch
    {body : Run Unit}
    (h : Extends body)
    (node index : Nat) :
    Extends (inBranch node index body) := by
  rw [Extends, Process.leaves_iff] at h ⊢
  intro s
  rw [meets_inBranch]
  exact h (s.withTail [⟨node, index⟩])

theorem Starts.inBranch
    {body : Run Unit}
    (h : Starts body)
    (node index : Nat) :
    Starts (inBranch node index body) := by
  rw [Starts, Process.leaves_iff] at h ⊢
  intro s
  rw [meets_inBranch]
  exact h (s.withTail [⟨node, index⟩])

theorem Starts.inLoop
    {body : Run α}
    (h : Starts body)
    (node : Nat) :
    Starts (inLoop node body) := by
  rw [Starts, Process.leaves_iff] at h ⊢
  intro s
  rw [meets_inLoop]
  exact h (s.onFrame fun f => f.pushLoop node)

end FlowGraph.Script

------------------------------------------------------------
-- Constructs
------------------------------------------------------------

namespace FlowGraph.Script

variable {α β : Type}

/-
  Unless the graph itself refuses, a refusal leaves the
  session as it was or comes after the start of a body.
-/
def Careful
    (m : Run α) :
    Prop :=
  ∀ s, m.Meets s (fun _ _ => True)
    (fun e s' => e.isRegistry = false →
      s' = s ∨ s.Started s')

theorem careful_build
    {m : Build α}
    (h : m.Atomic) :
    Careful (liftM m : Run α) := by
  intro s
  rw [meets_build]
  apply (h.meets s.builder).refusals
  intro e b hSame hNot
  rw [hSame hNot]
  exact Or.inl rfl

theorem Careful.checked
    {r : Except Error α}
    {f : α → Run β}
    (h : ∀ a, Careful (f a)) :
    Careful ((liftM r : Run α) >>= f) := by
  intro s
  cases r with
  | error e => exact fun _ => Or.inl rfl
  | ok a => exact h a s

theorem Careful.resolved
    {g : Names → Except Error α}
    {f : α → Run β}
    (h : ∀ names a, g names = .ok a → Careful (f a)) :
    Careful (resolved g >>= f) := by
  intro s
  rw [Process.meets_bind, meets_resolved]
  constructor
  · intro a ha
    exact h s.names a ha s
  · intro e _ _
    exact Or.inl rfl

theorem Careful.map
    {m : Run α}
    (h : Careful m)
    (f : α → β) :
    Careful (m >>= fun a => pure (f a)) := by
  intro s
  rw [Process.meets_bind]
  exact h s

/-
  Once the node of a construct is in place, only the bodies
  are left to be refused.
-/
theorem careful_placed
    {kind : Builtin}
    {args : List Value}
    {dynamic : Option ValueType}
    {f : Nat → Run α}
    (h :
      ∀ (s : Session) id,
        s.graph.nodes.get? id = some (kind.node args dynamic) →
          (f id).Meets s (fun _ _ => True)
            (fun _ s' => s.Started s')) :
    Careful
      ((liftM (Builder.placeBuiltin kind args dynamic)
        : Run Nat) >>= f) := by
  intro s
  rw [Process.meets_bind, meets_build]
  apply (Builder.meets_place_anywhere s.builder _).mono
  · intro id b hNode
    apply (h (s.withBuilder b) id hNode).refusals
    intro e s' hStarted _
    exact Or.inr (hStarted.of_eq rfl)
  · intro e b hRegistry hNot
    rw [hRegistry] at hNot
    cases hNot

/- A step that starts a body does so before any refusal. -/
theorem Starts.meets
    {m : Run α}
    (h : Starts m)
    (s : Session) :
    m.Meets s (fun _ _ => True)
      (fun _ s' => s.Started s') := by
  apply (Process.leaves_iff.mp h s).refusals
  intro _ _ hStarted
  exact hStarted

theorem careful_conditional
    {onTrue onFalse : Run Unit}
    (hTrue : Starts onTrue)
    (hFalse : Extends onFalse)
    (c : Value) :
    Careful (conditional c onTrue onFalse) := by
  apply Careful.checked
  intro _
  apply careful_placed
  intro s node _
  apply Starts.meets
  apply (hTrue.inBranch node 0).andThen
  intro t
  apply (hFalse.inBranch node 1).bind
  intro f
  exact ((quiet_build _).andThen fun _ =>
    quiet_pure node).extends

theorem starts_loopBody
    {body : Run Unit}
    (h : Starts body)
    (node : Nat) :
    Starts (loopBody node body) := by
  apply ((h.inBranch node 0).inLoop node).andThen
  intro branch
  apply (quiet_build _).extends.bind
  intro _
  split
  · exact ((quiet_build _).andThen fun _ =>
      quiet_pure _).extends
  · exact (quiet_pure _).extends

/-
  The value of a round is an output of the node that was
  just placed, so it is found.
-/
theorem meets_rounds
    {kind : Builtin}
    {args : List Value}
    {dynamic : Option ValueType}
    {body : Nat → Value → Run Unit}
    {s : Session}
    {node : Nat}
    (spec : PinSpec)
    (hBody : ∀ node value, Starts (body node value))
    (hNode :
      s.graph.nodes.get? node = some (kind.node args dynamic))
    (hSpec : kind.outputs[0]? = some spec) :
    ((liftM (Builder.pinValue node spec.name 0) : Run Value) >>=
      fun value => loopBody node (body node value) >>= fun _ =>
        pure node).Meets s (fun _ _ => True)
      (fun _ s' => s.Started s') := by
  rw [Process.meets_bind, meets_build,
    Builder.meets_pinValue hNode (Builder.output?_node hSpec)]
  apply Starts.meets
  apply (starts_loopBody (hBody node _) node).andThen
  intro _
  exact (quiet_pure node).extends

theorem careful_countingLoop
    {body : Nat → Value → Run Unit}
    (hBody : ∀ node value, Starts (body node value))
    (start stop : Input) :
    Careful (countingLoop start stop body) := by
  apply Careful.checked
  intro _
  apply Careful.checked
  intro _
  apply careful_placed
  intro s node hNode
  exact meets_rounds ⟨"current_loop_value", some .int⟩
    hBody hNode rfl

theorem careful_itemLoop
    {body : Nat → Value → Run Unit}
    (hBody : ∀ node value, Starts (body node value))
    (list : Value) :
    Careful (itemLoop list body) := by
  apply Careful.checked
  intro _
  apply careful_placed
  intro s node hNode
  exact meets_rounds ⟨"iteration_value", none⟩
    hBody hNode rfl

end FlowGraph.Script

------------------------------------------------------------
-- Switches
------------------------------------------------------------

namespace FlowGraph.Script

variable {arms : List (Arm (Run Unit))}

theorem extends_runArms
    (h :
      ∀ arm ∈ arms, ∀ body, arm.body? = some body →
        Starts body)
    (node index : Nat) :
    Extends (runArms node index arms) := by
  induction arms generalizing index with
  | nil => exact (quiet_pure _).extends
  | cons arm rest ih =>
      rw [List.forall_mem_cons] at h
      have hRest :
          ∀ b, Extends (runArms node (index + 1) rest >>=
            fun bs => pure (b :: bs)) := by
        intro b
        apply (ih h.2 (index + 1)).bind
        intro bs
        exact (quiet_pure _).extends
      apply Extends.bind ?_ hRest
      cases arm with
      | body body =>
          have hBody := (h.1 body rfl).inBranch node index
          exact hBody.extends.bind fun _ =>
            (quiet_pure _).extends
      | empty => exact (quiet_pure _).extends
      | «alias» k => exact (quiet_pure _).extends

/- The first arm with a body starts it. -/
theorem starts_runArms
    (h :
      ∀ arm ∈ arms, ∀ body, arm.body? = some body →
        Starts body)
    (hSome : ∃ arm ∈ arms, arm.body? ≠ none)
    (node index : Nat) :
    Starts (runArms node index arms) := by
  induction arms generalizing index with
  | nil =>
      rcases hSome with ⟨arm, hArm, _⟩
      cases hArm
  | cons arm rest ih =>
      have hHere := (List.forall_mem_cons.mp h).1
      have hLater := (List.forall_mem_cons.mp h).2
      have hPure :
          ∀ b bs,
            Extends (pure (b :: bs)
              : Run (List (Option Branch))) :=
        fun b bs => (quiet_pure _).extends
      cases arm with
      | body body =>
          have hBody := (hHere body rfl).inBranch node index
          have hArm : Starts (runArm node index (.body body)) :=
            hBody.andThen fun _ => (quiet_pure _).extends
          apply hArm.andThen
          intro b
          exact (extends_runArms hLater node (index + 1)).bind
            (hPure b)
      | empty =>
          have hRest : ∃ arm ∈ rest, arm.body? ≠ none := by
            simpa [Arm.body?] using hSome
          exact (ih hLater hRest (index + 1)).andThen (hPure _)
      | «alias» k =>
          have hRest : ∃ arm ∈ rest, arm.body? ≠ none := by
            simpa [Arm.body?] using hSome
          exact (ih hLater hRest (index + 1)).andThen (hPure _)

/- Arms without bodies are not refused and have no nodes. -/
theorem meets_runArms_empty
    (h : ∀ arm ∈ arms, arm.body? = none)
    (node index : Nat)
    (s : Session) :
    (runArms node index arms).Meets s
      (fun branches _ => ∀ b, some b ∈ branches → b.head = none)
      (fun _ _ => False) := by
  induction arms generalizing index with
  | nil =>
      intro b hb
      cases hb
  | cons arm rest ih =>
      rw [List.forall_mem_cons] at h
      have hRest := ih h.2 (index + 1)
      have hArm :
          (runArm node index arm).Meets s
            (fun own s' => s' = s ∧
              ∀ b, own = some b → b.head = none)
            (fun _ _ => False) := by
        cases arm with
        | body body => cases h.1
        | empty =>
            refine ⟨rfl, ?_⟩
            intro b hb
            cases hb
            rfl
        | «alias» k =>
            refine ⟨rfl, ?_⟩
            intro b hb
            cases hb
      unfold runArms
      rw [Process.meets_bind]
      apply hArm.mono ?_ fun _ _ hFalse => hFalse
      intro own s' hOwn
      rw [hOwn.1, Process.meets_bind]
      apply hRest.mono ?_ fun _ _ hFalse => hFalse
      intro branches s'' hHeads b hb
      rcases List.mem_cons.mp hb with hEq | hMem
      · exact hOwn.2 b hEq.symm
      · exact hHeads b hMem

/- An alias of a branch without nodes needs no link. -/
theorem meets_wireAliases_empty
    {branches : List (Option Branch)}
    (h : ∀ b, some b ∈ branches → b.head = none)
    (node index : Nat)
    (resolved : List (Option Branch × Nat))
    (join : List Endpoint)
    (s : Session) :
    (wireAliases node branches index resolved join).Meets s
      (fun _ _ => True) (fun _ _ => False) := by
  induction resolved generalizing index join with
  | nil => trivial
  | cons entry rest ih =>
      rcases entry with ⟨own, target⟩
      cases own with
      | some b => exact ih (index + 1) join
      | none =>
          unfold wireAliases
          split
          · rename_i shared hShared
            have hHead :=
              h shared (List.mem_of_getElem? hShared)
            unfold wireAlias
            rw [hHead]
            exact ih (index + 1) _
          · exact ih (index + 1) join

theorem careful_dispatch
    {sw : Switch (Run Unit)}
    (h :
      ∀ arm ∈ sw.arms, ∀ body, arm.body? = some body →
        Starts body)
    (control : Value) :
    Careful (dispatch control sw) := by
  apply Careful.checked
  intro targets
  apply careful_placed
  intro s node _
  by_cases hSome : ∃ arm ∈ sw.arms, arm.body? ≠ none
  · apply Starts.meets
    apply (starts_runArms h hSome node 0).andThen
    intro branches
    exact ((quiet_wireAliases node _ _ _ _).andThen fun _ =>
      (quiet_build _).andThen fun _ =>
        quiet_pure node).extends
  · -- Without a body there is nothing left to be refused.
    have hNone : ∀ arm ∈ sw.arms, arm.body? = none := by
      intro arm hArm
      by_cases hBody : arm.body? = none
      · exact hBody
      · exact absurd ⟨arm, hArm, hBody⟩ hSome
    rw [Process.meets_bind]
    apply (meets_runArms_empty hNone node 0 s).mono
    · intro branches s₁ hHeads
      rw [Process.meets_bind]
      apply (meets_wireAliases_empty hHeads _ _ _ _ _).refusals
      intro _ _ hFalse
      exact hFalse.elim
    · intro _ _ hFalse
      exact hFalse.elim

end FlowGraph.Script

------------------------------------------------------------
-- Statements
------------------------------------------------------------

namespace FlowGraph.Script

/- The actions that check before they change anything. -/
def Action.isChecked : Action → Bool
  | .print _
  | .set _ _
  | .binary _ _ _
  | .unary _ _
  | .list _ _
  | .dict _ _ _
  | .breakLoop _
  | .continueLoop => true
  | _ => false

/- The statements that check before they change anything. -/
def Stmt.isChecked : Stmt → Bool
  | .action _ a => a.isChecked
  | .ifThen _ _ _
  | .ifElse _ _ _ _
  | .switch _ _ _ _
  | .forRange _ _ _ _
  | .forEach _ _ _ => true
  | _ => false

theorem Action.atomic_of_means
    {names : Names}
    {a : Action}
    {step : Build Result}
    (h : a.isChecked = true)
    (hMeans : a.Means names step) :
    step.Atomic := by
  cases hMeans with
  | print _ => exact (Builder.atomic_printString _).map _
  | set _ _ => exact (Builder.atomic_setVariable _ _).map _
  | binary _ _ _ => exact (Builder.atomic_binary _ _ _).map _
  | unary _ _ => exact (Builder.atomic_unary _ _).map _
  | list _ _ => exact (Builder.atomic_assembleList _ _).map _
  | dict _ _ _ =>
      exact (Builder.atomic_assembleDictionary _ _ _).map _
  | breakLoop _ => exact (Builder.atomic_breakLoop _).map _
  | continueLoop => exact Builder.atomic_continueLoop.map _
  | _ => cases h

/- The names of the operands are looked up before all else. -/
theorem careful_runStmt
    {st : Stmt}
    (h : st.isChecked = true)
    (path : Path) :
    ∃ bind m, runStmt path st = journaled path bind m ∧
      Careful m := by
  have hBody :
      ∀ path b, Starts (entered path (runBlock path 0 b)) :=
    fun path b =>
      starts_entered (writes_runStmt.2 b path 0).extends path
  have hRound :
      ∀ bind path b node value,
        Starts (keepLoop bind node value >>= fun _ =>
          entered path (runBlock path 0 b)) := by
    intro bind path b node value
    rw [Starts, Process.leaves_iff]
    intro s
    rw [Process.meets_bind, meets_keepLoop]
    exact Process.meets_state.mpr
      ((hBody path b _).of_eq rfl)
  cases st with
  | action bind a =>
      refine ⟨_, _, rfl, ?_⟩
      apply Careful.resolved
      intro names step hPrepare
      exact careful_build
        (Action.atomic_of_means h
          (Action.means_of_prepare hPrepare))
  | ifThen bind c thenBody =>
      refine ⟨_, _, rfl, ?_⟩
      apply Careful.resolved
      intro _ v _
      exact (careful_conditional (hBody _ _)
        (quiet_pure ()).extends v).map _
  | ifElse bind c thenBody elseBody =>
      refine ⟨_, _, rfl, ?_⟩
      apply Careful.resolved
      intro _ v _
      exact (careful_conditional (hBody _ _)
        (hBody _ _).extends v).map _
  | switch bind control cases default =>
      refine ⟨_, _, rfl, ?_⟩
      apply Careful.resolved
      intro _ v _
      refine Careful.map ?_ _
      apply careful_dispatch
      intro arm hArm body hEq
      rcases List.mem_iff_getElem?.mp hArm with ⟨j, hj⟩
      rcases body_preparedSwitch bind control hj hEq with
        ⟨b, _, hEntered⟩
      rw [hEntered]
      exact hBody _ b
  | forRange bind start stop body =>
      refine ⟨_, _, rfl, ?_⟩
      apply Careful.resolved
      intro _ start _
      apply Careful.resolved
      intro _ stop _
      exact (careful_countingLoop (hRound bind _ body)
        start stop).map _
  | forEach bind list body =>
      refine ⟨_, _, rfl, ?_⟩
      apply Careful.resolved
      intro _ list _
      exact (careful_itemLoop (hRound bind _ body) list).map _
  | _ => cases h

/- A refused statement leaves its entry in the journal. -/
theorem eq_record_of_refused
    {path : Path}
    {st : Stmt}
    {s s' : Session}
    {e : Error}
    (h : st.isChecked = true)
    (hRun : runStmt path st s = (.error e, s'))
    (hNot : e.isRegistry = false)
    (hUnstarted : ¬ s.Started s') :
    s' = s.record path (.failed e) := by
  rcases careful_runStmt h path with ⟨bind, m, hEq, hCareful⟩
  have hMeets :
      (journaled path bind m).Meets s (fun _ _ => True)
        (fun e s' => e.isRegistry = false →
          s' = s.record path (.failed e) ∨ s.Started s') := by
    rw [meets_journaled]
    apply (hCareful s).refusals
    intro e s₁ hCases hNot
    rcases hCases hNot with hSame | hStarted
    · rw [hSame]
      exact Or.inl rfl
    · exact Or.inr
        (hStarted.trans_suffix (List.suffix_cons _ _))
  rw [hEq] at hRun
  exact (hMeets.of_error hRun hNot).resolve_right hUnstarted

end FlowGraph.Script

------------------------------------------------------------
-- Bodies That Do Not Matter
------------------------------------------------------------

namespace FlowGraph

variable {β γ : Type}

/- The arm with another body in the place of its own. -/
def Arm.map
    (f : β → γ) :
    Arm β → Arm γ
  | .body b => .body (f b)
  | .alias k => .alias k
  | .empty => .empty

/- The switch with other bodies in the place of its own. -/
def Switch.map
    (f : β → γ)
    (sw : Switch β) :
    Switch γ :=
  ⟨sw.cases.map fun c => (c.1, c.2.map f), sw.default.map f⟩

/- Every body is one of the others. -/
theorem Switch.of_body_map
    {f : β → γ}
    {sw : Switch β}
    {arm : Arm γ}
    {body : γ}
    (hArm : arm ∈ (sw.map f).arms)
    (hBody : arm.body? = some body) :
    ∃ b, body = f b := by
  have hArms : (sw.map f).arms = sw.arms.map (Arm.map f) := by
    simp [Switch.arms, Switch.map]
  rw [hArms] at hArm
  rcases List.mem_map.mp hArm with ⟨arm', _, hEq⟩
  rw [← hEq] at hBody
  cases arm' with
  | body b =>
      cases hBody
      exact ⟨b, rfl⟩
  | «alias» k => cases hBody
  | empty => cases hBody

namespace Script

variable {α : Type} {s s' : Session} {e : Error}

/- A body that is journaled and does nothing. -/
def mark : Run Unit :=
  entered [] (pure ())

theorem starts_mark :
    Starts mark :=
  starts_entered (quiet_pure ()).extends []

/-
  If a step comes to the same with bodies that leave a mark
  and with bodies that do not, then none of them has started.
-/
theorem eq_of_unmarked
    {marked plain : Run α}
    {P : Path → Prop}
    (hMarked : Careful marked)
    (hPlain : Writes P plain)
    (hNone : ∀ p, ¬ P p)
    (h : marked s = (.error e, s'))
    (h' : plain s = (.error e, s'))
    (hNot : e.isRegistry = false) :
    s' = s := by
  rcases (hMarked s).of_error h hNot with hSame | hStarted
  · exact hSame
  · rcases (hPlain s).of_error h' with
      ⟨news, hJournal, _, hNews⟩
    have hEmpty : news = [] := by
      apply List.eq_nil_iff_forall_not_mem.mpr
      intro d hd
      exact hNone d.path (hNews d hd)
    rw [hEmpty] at hJournal
    exact absurd hJournal hStarted.ne

end Script

end FlowGraph

------------------------------------------------------------
-- Refusals In Every State
------------------------------------------------------------

namespace FlowGraph.Script

/-
  In every state, whatever its graph, cursor, loops and
  gate, an operation that is refused leaves the state as it
  was, unless the graph itself refuses.  So does a construct
  whose bodies have not started: one that comes to the same
  refusal whatever its bodies are, or a statement after
  which the journal tells of no body that was entered.  Such
  a statement adds to the journal that it failed, and
  nothing else.
-/
theorem rejections_change_nothing :
    (∀ input, (Builder.printString input).Atomic) ∧
    (∀ v input, (Builder.setVariable v input).Atomic) ∧
    (∀ op x y, (Builder.binary op x y).Atomic) ∧
    (∀ op x, (Builder.unary op x).Atomic) ∧
    (∀ element items,
      (Builder.assembleList element items).Atomic) ∧
    (∀ key value pairs,
      (Builder.assembleDictionary key value pairs).Atomic) ∧
    (∀ loops, (Builder.breakLoop loops).Atomic) ∧
    Builder.continueLoop.Atomic ∧
    (∀ c s e s',
      (∀ onTrue onFalse,
        conditional c onTrue onFalse s = (.error e, s')) →
      e.isRegistry = false → s' = s) ∧
    (∀ (β : Type) control (sw : Switch β) s e s',
      (∀ body, dispatch control (sw.map body) s =
        (.error e, s')) →
      e.isRegistry = false → s' = s) ∧
    (∀ start stop s e s',
      (∀ body, countingLoop start stop body s =
        (.error e, s')) →
      e.isRegistry = false → s' = s) ∧
    (∀ list s e s',
      (∀ body, itemLoop list body s = (.error e, s')) →
      e.isRegistry = false → s' = s) ∧
    (∀ path st s e s', st.isChecked = true →
      runStmt path st s = (.error e, s') →
      e.isRegistry = false → ¬ s.Started s' →
      s' = s.record path (.failed e)) := by
  refine ⟨Builder.atomic_printString,
    Builder.atomic_setVariable, Builder.atomic_binary,
    Builder.atomic_unary, Builder.atomic_assembleList,
    Builder.atomic_assembleDictionary,
    Builder.atomic_breakLoop, Builder.atomic_continueLoop,
    ?_, ?_, ?_, ?_, ?_⟩
  · intro c s e s' h hNot
    have hPlain :=
      (quiet_pure ()).conditional (quiet_pure ())
        (fun _ hFalse _ => hFalse) c
    exact eq_of_unmarked
      (careful_conditional starts_mark starts_mark.extends c)
      hPlain (fun _ hOr => hOr.elim id id)
      (h mark mark) (h (pure ()) (pure ())) hNot
  · intro β control sw s e s' h hNot
    have hMarked :
        Careful (dispatch control (sw.map fun _ => mark)) := by
      apply careful_dispatch
      intro arm hArm body hBody
      rcases Switch.of_body_map hArm hBody with ⟨_, hEq⟩
      rw [hEq]
      exact starts_mark
    have hPlain :
        Writes (fun p => ∃ _ : Nat, False)
          (dispatch control (sw.map fun _ => pure ())) := by
      apply writes_dispatch
      · intro _ _ _ hFalse _
        exact hFalse.elim
      · intro j arm body hArm hBody
        rcases Switch.of_body_map
          (List.mem_of_getElem? hArm) hBody with ⟨_, hEq⟩
        rw [hEq]
        exact quiet_pure ()
    exact eq_of_unmarked hMarked hPlain
      (fun _ hFalse => hFalse.elim fun _ hFalse => hFalse)
      (h fun _ => mark) (h fun _ => pure ()) hNot
  · intro start stop s e s' h hNot
    exact eq_of_unmarked
      (careful_countingLoop (fun _ _ => starts_mark) start stop)
      (writes_countingLoop (fun _ _ => quiet_pure ()) start stop)
      (fun _ hFalse => hFalse)
      (h fun _ _ => mark) (h fun _ _ => pure ()) hNot
  · intro list s e s' h hNot
    exact eq_of_unmarked
      (careful_itemLoop (fun _ _ => starts_mark) list)
      (writes_itemLoop (fun _ _ => quiet_pure ()) list)
      (fun _ hFalse => hFalse)
      (h fun _ _ => mark) (h fun _ _ => pure ()) hNot
  · intro path st s e s' hChecked hRun hNot hUnstarted
    exact eq_record_of_refused hChecked hRun hNot hUnstarted

/- A session inside a loop that the graph does not have. -/
def adrift : Session :=
  { builder :=
      { graph := .empty "adrift"
        frame := ⟨[⟨7, 1⟩], [7], 3, none⟩
        config := .default }
    names := .empty
    journal := [] }

/- A switch whose two cases are aliases of each other. -/
def circular : Stmt :=
  .switch .none (.value (.int 1))
    [(.int 1, .alias (.label (.int 2))),
      (.int 2, .alias (.label (.int 1)))]
    .empty

/-
  A number is no text and the aliases run in a circle, so
  nothing changes.  What the graph itself refuses is another
  matter: the node stays, without a link to it.
-/
theorem adrift_refusals :
    (∃ b,
      Builder.printString (.literal (.int 5)) adrift.builder =
          (.error (Literal.refuse .str (.int 5) none), b) ∧
        b = adrift.builder) ∧
    (∃ e s', runStmt [.statement 0] circular adrift =
          (.error e, s') ∧
        e.cause =
          .aliasCycle [.label (.int 1), .label (.int 2),
            .label (.int 1)] ∧
        ¬ adrift.Started s' ∧
        s' = adrift.record [.statement 0] (.failed e)) ∧
    ∃ e b,
      Builder.printString (.literal (.str "land"))
          adrift.builder = (.error e, b) ∧
        e.isRegistry = true ∧ b ≠ adrift.builder := by
  rcases rejections_change_nothing with
    ⟨hPrints, -, -, -, -, -, -, -, -, -, -, -, hStatements⟩
  have hPrint := hPrints (.literal (.int 5)) adrift.builder
    (Literal.refuse .str (.int 5) none) _ rfl rfl
  have hUnstarted :
      ¬ adrift.Started
        (runStmt [.statement 0] circular adrift).2 := by
    intro h
    rcases h with ⟨news, hJournal, d, hd, hEntered⟩
    rw [show adrift.journal = [] from rfl,
      List.append_nil] at hJournal
    rw [← hJournal] at hd
    cases List.mem_singleton.mp hd
    cases hEntered
  have hSwitch :=
    hStatements [.statement 0] circular adrift _ _ rfl rfl
  refine ⟨⟨_, rfl, hPrint⟩, ⟨_, _, rfl, rfl, hUnstarted, ?_⟩,
    ⟨_, _, rfl, rfl, by decide⟩⟩
  exact hSwitch rfl hUnstarted

end FlowGraph.Script
