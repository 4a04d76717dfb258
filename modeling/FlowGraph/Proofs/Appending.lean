import FlowGraph.Proofs.Progress
import FlowGraph.Proofs.Scopes

/-
  Graphs under construction are only added to.

  Whatever a script does to a graph, it adds nodes and links
  exec outputs that have no link yet.  A relation between
  graphs that these two steps sustain is therefore sustained
  by every statement of any script, finished or refused.
  One such relation is that numbers are given out one after
  the other, that nodes stay as they are, and that links
  stay where they lead.

  Key definitions include:
    * `FlowGraph.Builder.Steady`
    * `FlowGraph.Graph.Stepwise`
    * `FlowGraph.Graph.Consecutive`
    * `FlowGraph.Graph.Appends`
    * `FlowGraph.Graph.Orderly`
    * `FlowGraph.Script.Session.Passes`

  Key theorems include:
    * `FlowGraph.Script.Session.passes_runStmt`
    * `FlowGraph.Graph.stepwise_appends`
    * `FlowGraph.Script.graph_only_appended`
-/

------------------------------------------------------------
-- Steps Of A Builder
------------------------------------------------------------

namespace FlowGraph.Builder

open Process

/-
  The relation holds between a builder and what is left of
  it when nodes are added or placed, a path is ended or a
  gate is set.
-/
structure Steady
    (B : Builder → Builder → Prop) :
    Prop where
  refl : ∀ b, B b b
  trans : ∀ {b b₁ b₂}, B b b₁ → B b₁ b₂ → B b b₂
  add : ∀ n, (Builder.add n).Leaves B
  place : ∀ n, (Builder.place n).Leaves B
  sealPath :
    ∀ b returning,
      B b { b with frame := b.frame.sealPath returning }
  setGate :
    ∀ b gate, B b { b with frame := b.frame.setGate gate }

namespace Steady

variable {B : Builder → Builder → Prop}
variable {α β : Type}

theorem bind
    (h : Steady B)
    {m : Build α}
    {f : α → Build β}
    (hm : m.Leaves B)
    (hf : ∀ a, (f a).Leaves B) :
    (m >>= f).Leaves B :=
  hm.bind h.trans hf

theorem checked
    (h : Steady B)
    {r : Except Error α}
    {f : α → Build β}
    (hf : ∀ a, (f a).Leaves B) :
    ((liftM r : Build α) >>= f).Leaves B :=
  .checked h.refl fun a _ => hf a

/- A node is added for the sake of one of its outputs. -/
theorem addForPin
    (h : Steady B)
    (n : Node)
    (slot : String)
    (index : Nat) :
    (Builder.add n >>= fun node =>
      pinValue node slot index).Leaves B :=
  h.bind (h.add n) fun _ => h.refl

theorem placeOfType
    (h : Steady B)
    (nodeType : String)
    (args : List Value) :
    (Builder.placeOfType nodeType args).Leaves B := by
  unfold Builder.placeOfType
  split
  · split <;> exact h.place _
  · exact h.place _

theorem declareVariable
    (h : Steady B)
    (initial : Value) :
    (Builder.declareVariable initial).Leaves B :=
  h.bind (h.add _) fun _ => h.bind h.refl fun _ =>
    h.bind h.refl fun _ => h.refl

theorem setVariable
    (h : Steady B)
    (v : Variable)
    (input : Input) :
    (Builder.setVariable v input).Leaves B :=
  h.checked fun _ => h.place _

theorem binary
    (h : Steady B)
    (op : BinaryOp)
    (x y : Value) :
    (Builder.binary op x y).Leaves B := by
  refine h.checked fun operands => ?_
  refine h.bind h.refl fun config => ?_
  split
  · exact h.refl
  · exact h.addForPin _ _ _

theorem unary
    (h : Steady B)
    (op : UnaryOp)
    (x : Value) :
    (Builder.unary op x).Leaves B := by
  refine h.checked fun _ => ?_
  refine h.bind h.refl fun config => ?_
  split
  · exact h.refl
  · exact h.addForPin _ _ _

theorem breakLoop
    (h : Steady B)
    (loops : List Nat) :
    (Builder.breakLoop loops).Leaves B :=
  h.bind h.refl fun _ => h.checked fun _ =>
    h.bind (h.place _) fun _ =>
      h.bind (fun b => h.sealPath b false) fun _ => h.refl

theorem returnGate
    (h : Steady B) :
    Builder.returnGate.Leaves B := by
  refine h.bind h.refl fun f => ?_
  split
  · exact h.refl
  · exact h.bind (h.declareVariable _) fun gate =>
      h.bind (fun b => h.setGate b gate) fun _ => h.refl

theorem returnNow
    (h : Steady B) :
    Builder.returnNow.Leaves B := by
  refine h.bind h.returnGate fun gate => ?_
  refine h.bind (h.setVariable gate _) fun _ => ?_
  refine h.bind h.refl fun f => ?_
  split
  · exact h.bind (h.breakLoop f.loops) fun _ =>
      fun b => h.sealPath b true
  · exact fun b => h.sealPath b true

theorem continueLoop
    (h : Steady B) :
    Builder.continueLoop.Leaves B := by
  refine h.bind h.refl fun f => ?_
  split
  · exact fun b => h.sealPath b false
  · exact h.refl

/- A result is put around a step. -/
theorem result
    (h : Steady B)
    {m : Build α}
    {result : α → Script.Result}
    (hm : m.Leaves B) :
    (m >>= fun a => pure (result a)).Leaves B :=
  h.bind hm fun _ => h.refl

end Steady

end FlowGraph.Builder

namespace FlowGraph

/- Whether an action sets the cursor by hand. -/
def Script.Action.setsCursor : Script.Action → Bool
  | .beginFunction _ => true
  | .setTail _ => true
  | .linkFrom _ _ => true
  | _ => false

/- All actions but those that set the cursor by hand. -/
theorem Builder.Steady.action
    {B : Builder → Builder → Prop}
    (h : Steady B)
    {names : Script.Names}
    {a : Script.Action}
    {step : Build Script.Result}
    (hMeans : a.Means names step)
    (hCursor : a.setsCursor = false) :
    step.Leaves B := by
  cases hMeans with
  | beginFunction event => cases hCursor
  | placeOfType nodeType _ =>
      exact h.result (h.placeOfType nodeType _)
  | addData _ _ _ => exact h.result (h.add _)
  | place _ => exact h.result (h.place _)
  | placeBuiltin _ _ _ => exact h.result (h.place _)
  | addBuiltin _ _ _ => exact h.result (h.add _)
  | pin slot index _ => exact h.result h.refl
  | keep _ => exact h.result h.refl
  | binary op _ _ => exact h.result (h.binary op _ _)
  | unary op _ => exact h.result (h.unary op _)
  | declare _ => exact h.result (h.declareVariable _)
  | set _ _ => exact h.result (h.setVariable _ _)
  | print _ =>
      exact h.result (h.checked fun _ => h.place _)
  | list _ _ =>
      exact h.result (h.checked fun _ => h.checked fun _ =>
        h.addForPin _ _ _)
  | dict _ _ _ =>
      exact h.result (h.checked fun _ => h.checked fun _ =>
        h.addForPin _ _ _)
  | breakLoop _ => exact h.result (h.breakLoop _)
  | returnNow => exact h.result h.returnNow
  | continueLoop => exact h.result h.continueLoop
  | sealPath returning =>
      exact h.result fun b => h.sealPath b returning
  | returnGate => exact h.result h.returnGate
  | gateVariable => exact h.result h.returnGate
  | setTail _ => cases hCursor
  | linkFrom index _ => cases hCursor

end FlowGraph

------------------------------------------------------------
-- Steps On Graphs
------------------------------------------------------------

namespace FlowGraph

/-
  The relation holds between a graph and what any number of
  additions and links make of it.
-/
structure Graph.Stepwise
    (R : Graph → Graph → Prop) :
    Prop where
  refl : ∀ g, R g g
  trans : ∀ {g g₁ g₂}, R g g₁ → R g₁ g₂ → R g g₂
  add : ∀ g n, R g (g.add n).2
  connect :
    ∀ {g g' e t}, g.connect e t = .ok g' → R g g'

/- The relation between the graphs of two builders. -/
def Builder.Between
    (R : Graph → Graph → Prop)
    (b b' : Builder) :
    Prop :=
  R b.graph b'.graph

namespace Graph.Stepwise

open Builder Process

variable {R : Graph → Graph → Prop}
variable {α β : Type}

theorem bind
    (h : Stepwise R)
    {m : Build α}
    {f : α → Build β}
    (hm : m.Leaves (Between R))
    (hf : ∀ a, (f a).Leaves (Between R)) :
    (m >>= f).Leaves (Between R) :=
  hm.bind h.trans hf

/- A step that leaves the graph alone. -/
theorem still
    (h : Stepwise R)
    {m : Build α}
    (hm : ∀ b, (m b).2.graph = b.graph) :
    m.Leaves (Between R) := by
  intro b
  unfold Between
  rw [hm b]
  exact h.refl b.graph

theorem addNode
    (h : Stepwise R)
    (n : Node) :
    (Builder.add n).Leaves (Between R) :=
  fun b => h.add b.graph n

theorem connectTo
    (h : Stepwise R)
    (e : Endpoint)
    (t : Nat) :
    (Builder.connect e t).Leaves (Between R) := by
  intro b
  unfold Builder.connect
  split
  · rename_i g hConnect
    exact h.connect hConnect
  · exact h.refl b.graph

theorem place
    (h : Stepwise R)
    (n : Node) :
    (Builder.place n).Leaves (Between R) := by
  refine h.bind (h.still fun _ => rfl) fun tail => ?_
  refine h.bind (h.addNode n) fun id => ?_
  refine h.bind (Leaves.each (R := Between R)
    (fun b => h.refl b.graph) h.trans
    (fun e => h.connectTo e id) tail) fun _ => ?_
  split
  · exact h.still fun _ => rfl
  · exact h.still fun _ => rfl

theorem steady
    (h : Stepwise R) :
    Steady (Between R) where
  refl b := h.refl b.graph
  trans := h.trans
  add := h.addNode
  place := h.place
  sealPath b _ := h.refl b.graph
  setGate b _ := h.refl b.graph

theorem returnGuard
    (h : Stepwise R) :
    Script.returnGuard.Leaves (Between R) :=
  h.bind h.steady.returnGate fun _ =>
    h.bind (h.place _) fun _ => h.still fun _ => rfl

/- Every action, the cursor being none of the graph. -/
theorem action
    (h : Stepwise R)
    {names : Script.Names}
    {a : Script.Action}
    {step : Build Script.Result}
    (hMeans : a.Means names step) :
    step.Leaves (Between R) := by
  by_cases hCursor : a.setsCursor = false
  · exact h.steady.action hMeans hCursor
  · cases hMeans with
    | beginFunction event =>
        exact h.bind (h.bind (h.addNode _) fun _ =>
          h.still fun _ => rfl) fun _ => h.still fun _ => rfl
    | setTail _ => exact h.still fun _ => rfl
    | linkFrom index _ => exact h.still fun _ => rfl
    | _ => exact absurd rfl hCursor

end Graph.Stepwise

end FlowGraph

------------------------------------------------------------
-- Statements
------------------------------------------------------------

namespace FlowGraph.Script

namespace Session

/-
  Between the two sessions the graph has passed through the
  graphs that the new entries show, each one related to all
  that follow.
-/
def Passes
    (R : Graph → Graph → Prop)
    (s s' : Session) :
    Prop :=
  ∃ news, s'.journal = news ++ s.journal ∧
    (s.graph :: news.reverse.map Entry.graph
      ++ [s'.graph]).Pairwise R

variable {R : Graph → Graph → Prop} {s s₁ s₂ : Session}

/- Nothing was written. -/
theorem passes_of_quiet
    (hJournal : s₁.journal = s.journal)
    (h : R s.graph s₁.graph) :
    s.Passes R s₁ :=
  ⟨[], hJournal, by simpa using h⟩

theorem Passes.trans
    (hTrans : ∀ {g g₁ g₂}, R g g₁ → R g₁ g₂ → R g g₂)
    (h₁ : s.Passes R s₁)
    (h₂ : s₁.Passes R s₂) :
    s.Passes R s₂ := by
  rcases h₁ with ⟨news, hNews, hFirst⟩
  rcases h₂ with ⟨more, hMore, hSecond⟩
  refine ⟨more ++ news, by simp [hNews, hMore], ?_⟩
  have hBoth := pairwise_join (R := R) hTrans hFirst hSecond
  simpa using hBoth

/- The graph at the end is related to that at the start. -/
theorem Passes.ends
    (h : s.Passes R s₁) :
    R s.graph s₁.graph := by
  rcases h with ⟨news, -, hGraphs⟩
  exact (List.pairwise_cons.mp hGraphs).1 _ (by simp)

theorem passes_record
    (hRefl : ∀ g, R g g)
    (s : Session)
    (place : Path)
    (event : Event) :
    s.Passes R (s.record place event) := by
  refine ⟨[⟨place, s.builder, event⟩], rfl, ?_⟩
  simpa [Session.record, Entry.graph] using hRefl s.graph

end Session

open Session

variable {R : Graph → Graph → Prop}

/- The scopes change the frame and nothing else. -/
theorem passes_inLoop
    {α : Type}
    {body : Run α}
    (h : Graph.Stepwise R)
    (node : Nat)
    (hBody : body.Leaves (Session.Passes R)) :
    (inLoop node body).Leaves (Session.Passes R) := by
  rw [Process.leaves_iff]
  intro s
  rw [meets_inLoop]
  apply Process.meets_state.mpr
  have hRun := hBody (s.onFrame fun f => f.pushLoop node)
  have hEnter :
      s.Passes R (s.onFrame fun f => f.pushLoop node) :=
    passes_of_quiet rfl (h.refl s.graph)
  exact .trans h.trans (.trans h.trans hEnter hRun)
    (passes_of_quiet rfl (h.refl _))

theorem passes_inFunction
    {body : Run Unit}
    (h : Graph.Stepwise R)
    (event : String)
    (hBody : body.Leaves (Session.Passes R)) :
    (inFunction event body).Leaves (Session.Passes R) := by
  rw [Process.leaves_iff]
  intro s
  rw [meets_inFunction]
  apply Process.meets_state.mpr
  have hRun := hBody (s.opened event)
  have hEnter : s.Passes R (s.opened event) :=
    passes_of_quiet rfl (h.add s.graph (entryNode event))
  exact .trans h.trans (.trans h.trans hEnter hRun)
    (passes_of_quiet rfl (h.refl _))

/- What every statement sustains. -/
theorem sustained_passes
    (h : Graph.Stepwise R) :
    Sustained (Builder.Between R)
      (fun _ => Session.Passes R) where
  refl _ s := passes_of_quiet rfl (h.refl s.graph)
  trans h₁ h₂ := h₁.trans h.trans h₂
  inner _ hPasses := hPasses
  record _ s place event :=
    passes_record h.refl s place event
  bindNode _ s _ _ := passes_of_quiet rfl (h.refl s.graph)
  bindValue _ s _ _ := passes_of_quiet rfl (h.refl s.graph)
  still b := h.refl b.graph
  build hBetween := passes_of_quiet rfl hBetween
  setTail b _ := h.refl b.graph
  connect := h.connectTo
  placeBranch _ := h.place _
  placeSwitch _ := h.place _
  placeRange _ _ := h.place _
  placeItems _ := h.place _
  returnGuard := h.returnGuard
  inLoop node hBody := passes_inLoop h node hBody
  inFunction event _ hBody := passes_inFunction h event hBody

theorem passes_action
    (h : Graph.Stepwise R)
    (path : Path)
    (bind : Binding)
    (a : Action) :
    (journaled path bind a.run).Leaves (Session.Passes R) := by
  refine (sustained_passes h).action path ?_
  intro s step hMeans
  refine (Process.leaves_iff.mp (h.action hMeans)
    s.builder).mono ?_ ?_
  · intro r b hBetween
    exact passes_of_quiet rfl hBetween
  · intro e b hBetween
    exact passes_of_quiet rfl hBetween

/- All statements pass the test that all pass. -/
theorem everyIn_true :
    (∀ st : Stmt, st.every (fun _ => true) = true) ∧
      ∀ block : List Stmt,
        everyIn (fun _ => true) block = true := by
  apply Stmt.induction
  · intro st hBodies
    exact (Stmt.every_iff st).mpr ⟨rfl, hBodies⟩
  · rfl
  · intro st rest hStmt hRest
    exact everyIn_cons.mpr ⟨hStmt, hRest⟩

/- A statement of any kind, finished or refused. -/
theorem Session.passes_runStmt
    (h : Graph.Stepwise R)
    (path : Path)
    (st : Stmt) :
    (runStmt path st).Leaves (Session.Passes R) :=
  ((sustained_passes h).runStmt (p := fun _ => true)
    fun path bind a _ => passes_action h path bind a).1 st
      path (everyIn_true.1 st)

/- A body of any kind. -/
theorem Session.passes_runBlock
    (h : Graph.Stepwise R)
    (path : Path)
    (i : Nat)
    (block : List Stmt) :
    (runBlock path i block).Leaves (Session.Passes R) :=
  ((sustained_passes h).runStmt (p := fun _ => true)
    fun path bind a _ => passes_action h path bind a).2 block
      path i (everyIn_true.2 block)

/- A script of any kind. -/
theorem Session.passes_runFrom
    (h : Graph.Stepwise R)
    (i : Nat)
    (script : List Stmt)
    (s : Session) :
    s.Passes R (runFrom i script s) :=
  (sustained_passes h).runFrom (p := fun _ => true)
    (fun path bind a _ => passes_action h path bind a)
    (everyIn_true.2 script) i s

end FlowGraph.Script

------------------------------------------------------------
-- Numbers One After The Other
------------------------------------------------------------

namespace FlowGraph

/- An entry whose key comes after all others is put last. -/
theorem Entries.insert_last
    {κ α : Type}
    [Key κ]
    {k : κ}
    {v : α}
    {entries : List (κ × α)}
    (h : ∀ e ∈ entries, Key.before e.1 k = true) :
    Entries.insert k v entries = entries ++ [(k, v)] := by
  induction entries with
  | nil => rfl
  | cons e rest ih =>
      have hFirst := h e List.mem_cons_self
      have hNot : Key.before k e.1 = false := by
        rw [← Bool.not_eq_true]
        intro hBefore
        have hSelf := Key.trans hBefore hFirst
        rw [Key.irrefl] at hSelf
        cases hSelf
      unfold Entries.insert
      rw [if_neg (by rw [hNot]; simp), if_pos hFirst,
        ih fun d hd => h d (List.mem_cons_of_mem _ hd)]
      rfl

namespace Graph

/- The nodes have the numbers from one on, without a gap. -/
structure Consecutive
    (g : Graph) :
    Prop where
  keys : g.nodes.keys = List.range' 1 g.nodes.size
  nextId : g.nextId = g.nodes.size + 1

/-
  The second graph has been added to: the nodes of the first
  one come first and are the same, and its links lead where
  they led.
-/
structure Appends
    (g g' : Graph) :
    Prop where
  nodes : g.nodes.entries <+: g'.nodes.entries
  links :
    ∀ {e t}, g.execTarget e = some t →
      g'.execTarget e = some t

variable {g g₁ g₂ : Graph}

theorem consecutive_empty
    (name : String) :
    (Graph.empty name).Consecutive :=
  ⟨rfl, rfl⟩

/- Only numbers below the next one are in use. -/
theorem Consecutive.lt_nextId
    (h : g.Consecutive)
    {e : Nat × Node}
    (he : e ∈ g.nodes.entries) :
    e.1 < g.nextId := by
  have hKey : e.1 ∈ g.nodes.keys := List.mem_map_of_mem he
  rw [h.keys, List.mem_range'_1] at hKey
  rw [h.nextId]
  omega

/- A new node is put after all others. -/
theorem Consecutive.entries_add
    (h : g.Consecutive)
    (n : Node) :
    (g.add n).2.nodes.entries =
      g.nodes.entries ++ [((g.add n).1, n)] := by
  apply Entries.insert_last
  intro e he
  exact decide_eq_true (h.lt_nextId he)

theorem Consecutive.add
    (h : g.Consecutive)
    (n : Node) :
    (g.add n).2.Consecutive := by
  have hEntries := h.entries_add n
  have hSize :
      (g.add n).2.nodes.size = g.nodes.size + 1 := by
    simp [Table.size, hEntries]
  have hNext : (g.add n).1 = g.nodes.size + 1 := h.nextId
  constructor
  · have hKeys :
        (g.add n).2.nodes.keys =
          g.nodes.keys ++ [(g.add n).1] := by
      simp [Table.keys, hEntries]
    rw [hKeys, hSize, h.keys, hNext, List.range'_concat,
      Nat.one_mul, Nat.add_comm]
  · rw [hSize]
    exact congrArg (· + 1) h.nextId

theorem Appends.refl
    (g : Graph) :
    g.Appends g :=
  ⟨List.prefix_refl _, fun hLink => hLink⟩

theorem Appends.trans
    (h₁ : g.Appends g₁)
    (h₂ : g₁.Appends g₂) :
    g.Appends g₂ :=
  ⟨h₁.nodes.trans h₂.nodes,
    fun hLink => h₂.links (h₁.links hLink)⟩

theorem Consecutive.appends_add
    (h : g.Consecutive)
    (n : Node) :
    g.Appends (g.add n).2 :=
  ⟨⟨_, (h.entries_add n).symm⟩, fun hLink => hLink⟩

/- A number that is checked is that of an exec node. -/
theorem isExec_of_execNode
    {id : Nat}
    {n : Node}
    (h : g.execNode id = .ok n) :
    g.nodes.get? id = some n ∧ n.nodeClass = .exec := by
  rcases bind_eq_ok.mp h with ⟨m, hNode, hClass⟩
  unfold node at hNode
  split at hNode
  · rename_i found hFound
    cases hNode
    split at hClass
    · rename_i hExec
      cases hClass
      exact ⟨hFound, hExec⟩
    · cases hClass
  · cases hNode

/- Only an open exec output is linked, to an exec node. -/
theorem of_connect
    {e : Endpoint}
    {t : Nat}
    (h : g.connect e t = .ok g₁) :
    g.IsOpen e ∧ g.IsExec t ∧ g₁ = g.link e t := by
  rcases bind_eq_ok.mp h with ⟨_, hCheck, hLink⟩
  rcases bind_eq_ok.mp hCheck with ⟨n, hSource, hCheck⟩
  have hSource := isExec_of_execNode hSource
  split at hCheck
  · rename_i hIndex
    rcases bind_eq_ok.mp hCheck with ⟨m, hTarget, _⟩
    have hTarget := isExec_of_execNode hTarget
    split at hLink
    · cases hLink
    · rename_i hFree
      cases hLink
      have hNone : g.execTarget e = none := by
        simpa [Table.contains, execTarget] using hFree
      exact ⟨⟨⟨n, hSource.1, hSource.2, hIndex⟩, hNone⟩,
        ⟨m, hTarget.1, hTarget.2⟩, rfl⟩
  · cases hCheck

/- A link is made where there was none. -/
theorem appends_connect
    {e : Endpoint}
    {t : Nat}
    (h : g.connect e t = .ok g₁) :
    g₁.nodes = g.nodes ∧ g₁.nextId = g.nextId ∧
      g.Appends g₁ := by
  rcases of_connect h with ⟨hOpen, -, rfl⟩
  refine ⟨rfl, rfl, List.prefix_refl _, ?_⟩
  intro d u hOld
  by_cases hEq : d = e
  · rw [hEq, hOpen.2] at hOld
    cases hOld
  · exact (execTarget_link_of_ne hEq).trans hOld

/- From consecutive numbers on, graphs are only added to. -/
theorem stepwise_appends :
    Stepwise fun g g' =>
      g.Consecutive → g'.Consecutive ∧ g.Appends g' where
  refl g h := ⟨h, .refl g⟩
  trans h₁ h₂ h :=
    have hFirst := h₁ h
    have hSecond := h₂ hFirst.1
    ⟨hSecond.1, hFirst.2.trans hSecond.2⟩
  add g n h := ⟨h.add n, h.appends_add n⟩
  connect := by
    intro g g' e t hConnect h
    rcases appends_connect hConnect with
      ⟨hNodes, hNext, hAppends⟩
    refine ⟨⟨?_, ?_⟩, hAppends⟩
    · rw [hNodes]
      exact h.keys
    · rw [hNodes, hNext]
      exact h.nextId

theorem stepwise_name :
    Stepwise fun g g' => g'.name = g.name where
  refl _ := rfl
  trans h₁ h₂ := h₂.trans h₁
  add _ _ := rfl
  connect h := by
    rcases of_connect h with ⟨-, -, rfl⟩
    rfl

/- What was there is still found under its number. -/
theorem Appends.get?
    (h : g.Appends g₁)
    {id : Nat}
    {n : Node}
    (hNode : g.nodes.get? id = some n) :
    g₁.nodes.get? id = some n := by
  rw [Table.get?_eq_some_iff] at hNode ⊢
  exact h.nodes.subset hNode

/- A number with a node is one in use. -/
theorem Consecutive.node_lt
    (h : g.Consecutive)
    {id : Nat}
    {n : Node}
    (hNode : g.nodes.get? id = some n) :
    id < g.nextId :=
  h.lt_nextId (Table.get?_eq_some_iff.mp hNode)

/- The numbers from one on are those with nodes. -/
theorem Consecutive.exists_node_iff
    (h : g.Consecutive) :
    (∃ m, g.nodes.get? i = some m) ↔
      1 ≤ i ∧ i < g.nextId := by
  have hKeys :
      (∃ m, g.nodes.get? i = some m) ↔ i ∈ g.nodes.keys := by
    simp [Table.get?_eq_some_iff, Table.keys]
  rw [hKeys, h.keys, List.mem_range'_1, h.nextId]
  omega

theorem Consecutive.node_eq_none
    (h : g.Consecutive)
    (hi : g.nextId ≤ i) :
    g.nodes.get? i = none := by
  rw [Option.eq_none_iff_forall_ne_some]
  intro m hNode
  exact Nat.not_lt.mpr hi (h.node_lt hNode)

/- The ends of links have numbers in use, too. -/
structure Orderly
    (g : Graph) :
    Prop where
  consecutive : g.Consecutive
  link_lt :
    ∀ {e t}, g.execTarget e = some t →
      e.node < g.nextId ∧ t < g.nextId

theorem Orderly.execTarget_eq_none
    (h : g.Orderly)
    (he : g.nextId ≤ e.node) :
    g.execTarget e = none := by
  rw [Option.eq_none_iff_forall_ne_some]
  intro t hLink
  exact Nat.not_lt.mpr he (h.link_lt hLink).1

theorem orderly_empty
    (name : String) :
    (Graph.empty name).Orderly := by
  refine ⟨consecutive_empty name, ?_⟩
  intro e t hLink
  cases hLink

theorem stepwise_orderly :
    Stepwise fun g g' =>
      g.Orderly → g'.Orderly ∧ g.Appends g' where
  refl g h := ⟨h, .refl g⟩
  trans h₁ h₂ h :=
    have hFirst := h₁ h
    have hSecond := h₂ hFirst.1
    ⟨hSecond.1, hFirst.2.trans hSecond.2⟩
  add g n h := by
    refine ⟨⟨h.consecutive.add n, ?_⟩,
      h.consecutive.appends_add n⟩
    intro e t hLink
    have hLt := h.link_lt hLink
    exact ⟨Nat.lt_succ_of_lt hLt.1, Nat.lt_succ_of_lt hLt.2⟩
  connect := by
    intro g g' e t hConnect h
    have hAppends :=
      stepwise_appends.connect hConnect h.consecutive
    refine ⟨⟨hAppends.1, ?_⟩, hAppends.2⟩
    rcases of_connect hConnect with
      ⟨⟨⟨n, hSource, _⟩, _⟩, ⟨m, hTarget, _⟩, rfl⟩
    intro d u hLink
    by_cases hEq : d = e
    · rw [hEq, execTarget_link_self] at hLink
      cases hLink
      rw [hEq]
      exact ⟨h.consecutive.node_lt hSource,
        h.consecutive.node_lt hTarget⟩
    · rw [execTarget_link_of_ne hEq] at hLink
      exact h.link_lt hLink

end Graph

end FlowGraph

------------------------------------------------------------
-- Graphs Of A Script
------------------------------------------------------------

namespace FlowGraph.Script

/-
  Related to a graph with consecutive numbers, all of the
  graphs have such numbers and are only added to.
-/
theorem appends_of_passes
    {g : Graph}
    {graphs : List Graph}
    (hStart : g.Consecutive)
    (h :
      (g :: graphs).Pairwise fun g g' =>
        g.Consecutive → g'.Consecutive ∧ g.Appends g') :
    (∀ g' ∈ graphs, g'.Consecutive) ∧
      (g :: graphs).Pairwise Graph.Appends := by
  have hAll : ∀ g' ∈ graphs, g'.Consecutive :=
    fun g' hg' =>
      ((List.pairwise_cons.mp h).1 g' hg' hStart).1
  refine ⟨hAll, h.imp_of_mem ?_⟩
  intro g₁ g₂ hMem _ hStep
  rcases List.mem_cons.mp hMem with rfl | hMem
  · exact (hStep hStart).2
  · exact (hStep (hAll g₁ hMem)).2

/- Whatever a script does, its links are between nodes. -/
theorem orderly_run
    (name : String)
    (config : Config)
    (script : List Stmt) :
    (run name config script).graph.Orderly :=
  ((Session.passes_runFrom Graph.stepwise_orderly 0 script
    (.new name config)).ends (Graph.orderly_empty name)).1

/-
  Graphs under construction are only added to.  At every
  moment of a script of any kind, refused statements among
  it, the nodes have the numbers from one on, and in all that
  follows these nodes come first and stay as they are, and
  the links lead where they led.  The same is true of a
  single statement at any place and from any session.  A node
  is put after all others, under the number that its addition
  yields.
-/
theorem graph_only_appended
    (name : String)
    (config : Config)
    (script : List Stmt) :
    (∀ e ∈ (run name config script).entries,
      e.graph.Consecutive) ∧
    (run name config script).graph.Consecutive ∧
    ((run name config script).entries.map Entry.graph
      ++ [(run name config script).graph]).Pairwise
        Graph.Appends ∧
    (∀ (s : Session) path st, s.graph.Consecutive →
      (runStmt path st s).2.graph.Consecutive ∧
        s.graph.Appends (runStmt path st s).2.graph) ∧
    ∀ (g : Graph) n, g.Consecutive →
      (g.add n).2.nodes.entries =
        g.nodes.entries ++ [((g.add n).1, n)] := by
  have hStart : (Session.new name config).graph.Consecutive :=
    Graph.consecutive_empty name
  rcases Session.passes_runFrom Graph.stepwise_appends 0
      script (.new name config) with
    ⟨news, hJournal, hGraphs⟩
  have hEntries :
      (run name config script).entries = news.reverse := by
    rw [run, Session.entries, hJournal]
    simp [Session.new]
  rcases appends_of_passes hStart hGraphs with
    ⟨hAll, hAppends⟩
  have hLater := (List.pairwise_cons.mp hAppends).2
  refine ⟨?_, ?_, ?_, ?_, fun g n h => h.entries_add n⟩
  · intro e he
    rw [hEntries] at he
    exact hAll _
      (List.mem_append_left _ (List.mem_map_of_mem he))
  · exact hAll _ (by simp [run])
  · rw [hEntries]
    exact hLater
  · intro s path st hConsecutive
    exact (Session.passes_runStmt Graph.stepwise_appends path
      st s).ends hConsecutive

/-
  The entry is listed twice in the cursor, so that the first
  text is linked once and then refused.
-/
def listedTwice : List Stmt :=
  [.action .none (.beginFunction "start"),
    .action .none (.setTail [⟨.id 1, 0⟩, ⟨.id 1, 0⟩]),
    .action .none (.print (.literal (.str "half"))),
    .action .none (.print (.literal (.str "apart")))]

/-
  The refused text stays where it is, and its one link is
  still there when the script ends.
-/
theorem refused_node_stays :
    ∃ s : Session,
      s = run "demo" .default (listedTwice.take 2) ∧
      s.graph.Consecutive ∧
      (runStmt [.statement 2]
        (.action .none (.print (.literal (.str "half"))))
        s).1.isOk = false ∧
      s.graph.Appends
        (runStmt [.statement 2]
          (.action .none (.print (.literal (.str "half"))))
          s).2.graph ∧
      (run "demo" .default listedTwice).graph.nodes.keys =
        [1, 2, 3] ∧
      (run "demo" .default listedTwice).graph.execTarget
        ⟨1, 0⟩ = some 2 := by
  have hBefore :=
    graph_only_appended "demo" .default (listedTwice.take 2)
  refine ⟨_, rfl, hBefore.2.1, by decide +kernel, ?_,
    by decide +kernel, by decide +kernel⟩
  exact (hBefore.2.2.2.1 _ _ _ hBefore.2.1).2

end FlowGraph.Script
