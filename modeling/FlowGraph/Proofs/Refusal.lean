import FlowGraph.Script.Run

/-
  Refusals of the graph and refusals of the operands.

  A graph refuses a link whose ends do not fit.  Everything
  that is computed before a node is placed, be it the value
  of an operand or the check of a switch, is refused for
  other reasons.

  Key definitions include:
    * `FlowGraph.Error.isRegistry`
    * `FlowGraph.Harmless`

  Key theorems include:
    * `FlowGraph.Harmless.bind`
    * `FlowGraph.harmless_read`
    * `FlowGraph.Script.harmless_checkSwitch`
    * `FlowGraph.Script.harmless_eval`
    * `FlowGraph.Graph.isRegistry_of_connect`
-/

------------------------------------------------------------
-- Refusals Of The Graph
------------------------------------------------------------

namespace FlowGraph

/- The reasons for which a graph refuses a node or a link. -/
def Cause.isRegistry : Cause → Bool
  | .unknownNode
  | .notAnExecNode
  | .execOutputOutOfRange _
  | .execOutputAlreadyConnected _ => true
  | _ => false

/- Whether the graph itself refused. -/
def Error.isRegistry
    (e : Error) :
    Bool :=
  e.cause.isRegistry

/- If refused, then not by the graph. -/
def Harmless
    {α : Type}
    (r : Except Error α) :
    Prop :=
  ∀ e, r = .error e → e.isRegistry = false

variable {α β : Type}

@[simp] theorem harmless_ok
    (a : α) :
    Harmless (.ok a : Except Error α) := by
  intro e h
  cases h

@[simp] theorem harmless_pure
    (a : α) :
    Harmless (pure a : Except Error α) :=
  harmless_ok a

@[simp] theorem harmless_error
    {e : Error} :
    Harmless (.error e : Except Error α) ↔
      e.isRegistry = false := by
  constructor
  · intro h
    exact h e rfl
  · intro h e' hEq
    cases hEq
    exact h

@[simp] theorem harmless_throw
    {e : Error} :
    Harmless (throw e : Except Error α) ↔
      e.isRegistry = false :=
  harmless_error

/- A sequence is harmless if both parts are. -/
theorem Harmless.bind
    {r : Except Error α}
    {f : α → Except Error β}
    (hr : Harmless r)
    (hf : ∀ a, Harmless (f a)) :
    Harmless (r >>= f) := by
  cases r with
  | error e => exact harmless_error.mpr (hr e rfl)
  | ok a => exact hf a

/- A computation for every item. -/
theorem Harmless.mapM
    {f : α → Except Error β}
    (hf : ∀ a, Harmless (f a))
    (items : List α) :
    Harmless (items.mapM f) := by
  induction items with
  | nil =>
      exact harmless_ok []
  | cons a rest ih =>
      rw [List.mapM_cons]
      exact (hf a).bind fun b => ih.bind fun bs =>
        harmless_ok (b :: bs)

/- A check of every item. -/
theorem Harmless.forM
    {f : α → Except Error Unit}
    (hf : ∀ a, Harmless (f a))
    (items : List α) :
    Harmless (items.forM f) := by
  induction items with
  | nil =>
      exact harmless_ok ()
  | cons a rest ih =>
      exact (hf a).bind fun _ => ih

/- A refusal for a mismatch of types. -/
@[simp] theorem isRegistry_mismatch
    (expected : Expected)
    (found : Found)
    (hint : Option Hint) :
    (Error.mismatch expected found hint).isRegistry =
      false :=
  rfl

@[simp] theorem isRegistry_of
    (cause : Cause) :
    (Error.of cause).isRegistry = cause.isRegistry :=
  rfl

@[simp] theorem isRegistry_onNode
    (cause : Cause)
    (id : Nat) :
    (Error.onNode cause id).isRegistry =
      cause.isRegistry :=
  rfl

end FlowGraph

------------------------------------------------------------
-- Computations That Succeed
------------------------------------------------------------

namespace FlowGraph

variable {α β : Type}

/- A sequence succeeds exactly when both parts do. -/
theorem bind_eq_ok
    {r : Except Error α}
    {f : α → Except Error β}
    {b : β} :
    (r >>= f) = .ok b ↔ ∃ a, r = .ok a ∧ f a = .ok b := by
  constructor
  · intro h
    cases r with
    | error e => cases h
    | ok a => exact ⟨a, rfl, h⟩
  · rintro ⟨a, rfl, h⟩
    exact h

/- What a lookup finds is listed. -/
theorem mem_of_lookup
    [BEq α]
    [LawfulBEq α]
    {items : List (α × β)}
    {key : α}
    {b : β}
    (h : items.lookup key = some b) :
    (key, b) ∈ items := by
  obtain ⟨before, after, hEq, _⟩ :=
    List.lookup_eq_some_iff.mp h
  rw [hEq]
  simp

/- Results stand where the items stood. -/
theorem getElem?_of_mapM
    {f : α → Except Error β}
    {items : List α}
    {results : List β}
    (h : items.mapM f = .ok results)
    {i : Nat}
    {a : α}
    (hi : items[i]? = some a) :
    ∃ b, f a = .ok b ∧ results[i]? = some b := by
  induction items generalizing results i with
  | nil => cases hi
  | cons c rest ih =>
      rw [List.mapM_cons] at h
      obtain ⟨b, hb, h⟩ := bind_eq_ok.mp h
      obtain ⟨bs, hbs, h⟩ := bind_eq_ok.mp h
      cases h
      cases i with
      | zero =>
          cases hi
          exact ⟨b, hb, rfl⟩
      | succ i =>
          exact ih hbs hi

/- Every result is the result of an item. -/
theorem exists_of_mem_mapM
    {f : α → Except Error β}
    {items : List α}
    {results : List β}
    (h : items.mapM f = .ok results)
    {b : β}
    (hb : b ∈ results) :
    ∃ a ∈ items, f a = .ok b := by
  induction items generalizing results with
  | nil =>
      cases h
      cases hb
  | cons c rest ih =>
      rw [List.mapM_cons] at h
      obtain ⟨d, hd, h⟩ := bind_eq_ok.mp h
      obtain ⟨ds, hds, h⟩ := bind_eq_ok.mp h
      cases h
      rcases List.mem_cons.mp hb with rfl | hb
      · exact ⟨c, List.mem_cons_self, hd⟩
      · obtain ⟨a, ha, hEq⟩ := ih hds hb
        exact ⟨a, List.mem_cons_of_mem _ ha, hEq⟩

end FlowGraph

------------------------------------------------------------
-- Values
------------------------------------------------------------

namespace FlowGraph

/- Reading a type name. -/
theorem harmless_parse
    (s : String) :
    Harmless (ValueType.parse s) := by
  unfold ValueType.parse
  split <;> simp

/- A component of a vector. -/
theorem harmless_component
    (l : Literal) :
    Harmless l.component := by
  unfold Literal.component
  split <;> simp [Literal.refuse]

/- A literal that may be written inline. -/
theorem harmless_conformInline
    (s : Scalar)
    (l : Literal) :
    Harmless (l.conformInline s) := by
  unfold Literal.conformInline
  split
  case h_9 a b c =>
    exact (harmless_component a).bind fun _ =>
      (harmless_component b).bind fun _ =>
        (harmless_component c).bind fun _ =>
          harmless_ok _
  case h_11 =>
    split
    · split <;> simp [Literal.refuse]
    · simp [Literal.refuse]
  all_goals simp [Literal.refuse]

/- A literal of a scalar type. -/
theorem harmless_conformScalar
    (s : Scalar)
    (l : Literal) :
    Harmless (l.conformScalar s) := by
  unfold Literal.conformScalar
  split
  · exact harmless_conformInline s l
  · simp [Cause.isRegistry]

/- A literal of any type. -/
theorem harmless_conform
    (t : ValueType)
    (l : Literal) :
    Harmless (l.conform t) := by
  unfold Literal.conform
  split
  · exact harmless_conformScalar _ _
  · rename_i s items
    exact (Harmless.mapM (harmless_conformScalar s) items).bind
      fun _ => harmless_ok _
  all_goals simp [Cause.isRegistry]

/- A literal value. -/
theorem harmless_literal
    (t : ValueType)
    (l : Literal) :
    Harmless (Value.literal t l) :=
  (harmless_conform t l).bind fun _ => harmless_ok _

/- A value of an expected type. -/
theorem harmless_expect
    (v : Value)
    (t : ValueType) :
    Harmless (v.expect t) := by
  unfold Value.expect
  split <;> simp

/- A value that is expected to be a number. -/
theorem harmless_expectNumber
    (v : Value) :
    Harmless v.expectNumber := by
  unfold Value.expectNumber
  split <;> simp

/- An argument of an expected type. -/
theorem harmless_read
    (input : Input)
    (t : ValueType) :
    Harmless (input.read t) := by
  cases input with
  | literal l => exact harmless_literal t l
  | value v => exact harmless_expect v t

end FlowGraph

------------------------------------------------------------
-- Operations
------------------------------------------------------------

namespace FlowGraph

/- A whole number that meets a float. -/
theorem harmless_widen
    (v other : Value) :
    Harmless (v.widen other) := by
  unfold Value.widen
  split
  · split
    · exact harmless_literal _ _
    · simp
  · simp

/- The operand of a binary operator. -/
theorem harmless_checkBinary
    (op : BinaryOp)
    (a : Value) :
    Harmless (op.checkOperand a) := by
  unfold BinaryOp.checkOperand
  split
  · exact (harmless_expectNumber a).bind fun _ => harmless_ok ()
  · split
    · exact (harmless_expect a _).bind fun _ => harmless_ok ()
    · exact harmless_ok ()

/- The operand of a unary operator. -/
theorem harmless_checkUnary
    (op : UnaryOp)
    (a : Value) :
    Harmless (op.checkOperand a) := by
  unfold UnaryOp.checkOperand
  split
  · exact (harmless_expectNumber a).bind fun _ => harmless_ok ()
  · exact (harmless_expectNumber a).bind fun _ => harmless_ok ()
  · exact (harmless_expect a _).bind fun _ => harmless_ok ()

/- Both operands of a binary operator. -/
theorem harmless_operands
    (op : BinaryOp)
    (a b : Value) :
    Harmless (op.operands a b) := by
  unfold BinaryOp.operands
  exact (harmless_widen a b).bind fun a' =>
    (harmless_widen b a').bind fun b' =>
      (harmless_expect b' a'.type).bind fun _ =>
        (harmless_checkBinary op a').bind fun _ =>
          harmless_ok (a', b')

/- The size of a collection. -/
theorem harmless_check
    (c : Collection)
    (found : Nat) :
    Harmless (c.check found) := by
  unfold Collection.check
  split
  · simp [Cause.isRegistry]
  · split <;> simp [Cause.isRegistry]

/- The items of a list. -/
theorem harmless_readItems
    (t : ValueType)
    (items : List Input) :
    Harmless (Builder.readItems t items) :=
  Harmless.mapM (fun item => harmless_read item t) items

/- The pairs of a dictionary. -/
theorem harmless_readPairs
    (key value : ValueType)
    (pairs : List (Input × Input)) :
    Harmless (Builder.readPairs key value pairs) := by
  have hPair :
      ∀ pair : Input × Input,
        Harmless (Builder.readPair key value pair) := by
    intro pair
    exact (harmless_read pair.1 key).bind fun k =>
      (harmless_read pair.2 value).bind fun v =>
        harmless_ok [k, v]
  exact (Harmless.mapM hPair pairs).bind fun args =>
    harmless_ok args.flatten

/- The loops that a break stops. -/
theorem harmless_breakTargets
    (f : Frame)
    (loops : List Nat) :
    Harmless (Builder.breakTargets f loops) := by
  unfold Builder.breakTargets
  split
  · split <;> simp [Cause.isRegistry]
  · split <;> simp [Cause.isRegistry]

end FlowGraph

------------------------------------------------------------
-- Switches And Loops
------------------------------------------------------------

namespace FlowGraph.Script

variable {β : Type}

/- Following aliases. -/
theorem harmless_follow
    (s : Switch β)
    (fuel : Nat)
    (chain : List CaseKey)
    (current : CaseKey) :
    Harmless (s.follow fuel chain current) := by
  induction fuel generalizing chain current with
  | zero =>
      simp [Switch.follow, Cause.isRegistry]
  | succ fuel ih =>
      unfold Switch.follow
      split
      · split
        · simp [Cause.isRegistry]
        · split
          · simp [Cause.isRegistry]
          · exact ih _ _
      · simp

/-
  The checks of a switch, one after the other: the control
  value, repeated labels, the types of labels, the aliases.
-/
theorem checkSwitch_eq
    (control : Value)
    (s : Switch β) :
    checkSwitch control s =
      if control.type ≠ .int ∧ control.type ≠ .str then
        .error (.mismatch .label (.value control) none)
      else
        match s.repeated? with
        | some l => .error (.of (.duplicateCase l))
        | none =>
            s.labels.forM (checkLabel control.type) >>=
              fun _ => s.keys.mapM s.resolve := by
  unfold checkSwitch
  dsimp only
  split
  · rfl
  · cases s.repeated? <;> rfl

/- The control value and the cases of a switch. -/
theorem harmless_checkSwitch
    (control : Value)
    (s : Switch β) :
    Harmless (checkSwitch control s) := by
  have hLabel :
      ∀ l, Harmless (checkLabel control.type l) := by
    intro l
    unfold checkLabel
    split <;> simp
  rw [checkSwitch_eq]
  split
  · exact harmless_error.mpr rfl
  · cases s.repeated? with
    | some l =>
        exact harmless_error.mpr rfl
    | none =>
        exact (Harmless.forM hLabel s.labels).bind fun _ =>
          Harmless.mapM (fun k => harmless_follow s _ [k] k)
            s.keys

/- The list of a loop. -/
theorem harmless_itemType
    (list : Value) :
    Harmless (itemType list) := by
  unfold itemType
  split <;> simp

end FlowGraph.Script

------------------------------------------------------------
-- Switches That Pass
------------------------------------------------------------

namespace FlowGraph

/- Labels none of which is repeated are distinct. -/
theorem Switch.nodup_of_firstRepeated
    {seen labels : List Label}
    (h : Switch.firstRepeated seen labels = none) :
    labels.Nodup ∧ ∀ l ∈ labels, l ∉ seen := by
  induction labels generalizing seen with
  | nil => exact ⟨List.nodup_nil, List.forall_mem_nil _⟩
  | cons l rest ih =>
      unfold Switch.firstRepeated at h
      split at h
      · cases h
      · rename_i hNew
        rcases ih h with ⟨hNodup, hUnseen⟩
        refine ⟨List.nodup_cons.mpr ⟨?_, hNodup⟩, ?_⟩
        · intro hMem
          exact hUnseen l hMem List.mem_cons_self
        · rw [List.forall_mem_cons]
          refine ⟨hNew, ?_⟩
          intro k hk hSeen
          exact hUnseen k hk (List.mem_cons_of_mem _ hSeen)

/- Checks that succeed one after another all succeed. -/
theorem of_forM_ok
    {α : Type}
    {f : α → Except Error Unit}
    {items : List α}
    (h : items.forM f = .ok ()) :
    ∀ a ∈ items, f a = .ok () := by
  induction items with
  | nil => exact List.forall_mem_nil _
  | cons a rest ih =>
      obtain ⟨_, hFirst, hRest⟩ := bind_eq_ok.mp h
      exact List.forall_mem_cons.mpr ⟨hFirst, ih hRest⟩

/- What a switch has passed before its node is placed. -/
theorem Script.passed_of_checkSwitch
    {β : Type}
    {control : Value}
    {sw : Switch β}
    {targets : List CaseKey}
    (h : checkSwitch control sw = .ok targets) :
    (control.type = .int ∨ control.type = .str) ∧
      sw.repeated? = none ∧
      ∀ l ∈ sw.labels, l.type = control.type := by
  rw [checkSwitch_eq] at h
  split at h
  · cases h
  · rename_i hControl
    split at h
    · cases h
    · rename_i hNone
      obtain ⟨_, hLabels, _⟩ := bind_eq_ok.mp h
      refine ⟨?_, hNone, ?_⟩
      · by_cases hInt : control.type = .int
        · exact Or.inl hInt
        · exact Or.inr (Decidable.not_not.mp fun hStr =>
            hControl ⟨hInt, hStr⟩)
      · intro l hl
        have hLabel := of_forM_ok hLabels l hl
        unfold checkLabel at hLabel
        split at hLabel
        · assumption
        · cases hLabel

end FlowGraph

------------------------------------------------------------
-- Operands
------------------------------------------------------------

namespace FlowGraph.Script

/- A named variable. -/
theorem harmless_findVariable
    (names : Names)
    (name : String) :
    Harmless (names.findVariable name) := by
  unfold Names.findVariable
  split <;> simp [Cause.isRegistry]

/- A named value. -/
theorem harmless_findValue
    (names : Names)
    (name : String) :
    Harmless (names.findValue name) := by
  unfold Names.findValue
  split
  · simp
  · split <;> simp [Cause.isRegistry]

/- A named node. -/
theorem harmless_findNode
    (names : Names)
    (name : String) :
    Harmless (names.findNode name) := by
  unfold Names.findNode
  split <;> simp [Cause.isRegistry]

/- A node by number or name. -/
theorem harmless_nodeRef
    (names : Names)
    (r : NodeRef) :
    Harmless (r.eval names) := by
  cases r with
  | id n => exact harmless_ok n
  | name s => exact harmless_findNode names s

/- An operand. -/
theorem harmless_eval
    (names : Names)
    (o : Operand) :
    Harmless (o.eval names) := by
  cases o with
  | value v =>
      exact harmless_ok v
  | literal typeName l =>
      exact (harmless_parse typeName).bind fun t =>
        harmless_literal t l
  | pin typeName node slot index =>
      exact (harmless_parse typeName).bind fun _ =>
        (harmless_nodeRef names node).bind fun _ =>
          harmless_pure _
  | ref name =>
      exact harmless_findValue names name
  | handle name =>
      exact (harmless_findVariable names name).bind fun _ =>
        harmless_pure _

/- An argument. -/
theorem harmless_argument
    (names : Names)
    (a : Argument) :
    Harmless (a.eval names) := by
  cases a with
  | literal l => exact harmless_ok _
  | operand o =>
      exact (harmless_eval names o).bind fun _ =>
        harmless_pure _

/- A data output. -/
theorem harmless_pinDraft
    (pin : PinDraft) :
    Harmless pin.eval :=
  (harmless_parse pin.typeName).bind fun _ =>
    harmless_pure _

/- A type that is given by its name. -/
theorem harmless_parseDynamic
    (dynamic : Option String) :
    Harmless (parseDynamic dynamic) := by
  cases dynamic with
  | none => exact harmless_ok none
  | some s =>
      exact (harmless_parse s).bind fun _ =>
        harmless_pure _

end FlowGraph.Script

------------------------------------------------------------
-- Links
------------------------------------------------------------

namespace FlowGraph.Graph

variable {g : Graph} {e : Error}

/- A node that is not found or not exec is refused as such. -/
theorem isRegistry_of_execNode
    {id : Nat}
    (h : g.execNode id = .error e) :
    e.isRegistry = true := by
  unfold execNode node at h
  cases hNode : g.nodes.get? id with
  | none =>
      rw [hNode] at h
      cases h
      rfl
  | some n =>
      rw [hNode] at h
      simp only [bind, Except.bind] at h
      split at h
      · cases h
      · cases h
        rfl

theorem isRegistry_of_checkLink
    {source : Endpoint}
    {target : Nat}
    (h : g.checkLink source target = .error e) :
    e.isRegistry = true := by
  unfold checkLink at h
  cases hSource : g.execNode source.node with
  | error e' =>
      rw [hSource] at h
      cases h
      exact isRegistry_of_execNode hSource
  | ok n =>
      rw [hSource] at h
      simp only [bind, Except.bind] at h
      split at h
      · cases hTarget : g.execNode target with
        | error e' =>
            rw [hTarget] at h
            cases h
            exact isRegistry_of_execNode hTarget
        | ok m =>
            rw [hTarget] at h
            cases h
      · cases h
        rfl

/- Only the graph itself refuses a link. -/
theorem isRegistry_of_connect
    {source : Endpoint}
    {target : Nat}
    (h : g.connect source target = .error e) :
    e.isRegistry = true := by
  unfold connect at h
  cases hCheck : g.checkLink source target with
  | error e' =>
      rw [hCheck] at h
      cases h
      exact isRegistry_of_checkLink hCheck
  | ok u =>
      rw [hCheck] at h
      simp only [bind, Except.bind] at h
      split at h
      · cases h
        rfl
      · cases h

end FlowGraph.Graph
