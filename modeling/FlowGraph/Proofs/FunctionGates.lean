import FlowGraph.Proofs.Gates

/-
  One gate for every function.

  A statement has made the nodes that are new in the entry
  about it.  A statement that steers the flow may make a
  declaration that the script does not ask for.  All these
  declarations of a function are the same one, and all the
  returns and guards of the function use it.

  Key definitions include:
    * `FlowGraph.Script.Session.nodesAt`
    * `FlowGraph.Script.Session.declarationsAt`
    * `FlowGraph.Script.Session.Hides`

  Key theorems include:
    * `FlowGraph.Script.Unfolds.gate_of_declared`
    * `FlowGraph.Script.one_gate_per_function`
-/

------------------------------------------------------------
-- Declarations
------------------------------------------------------------

namespace FlowGraph

/- Whether a node declares a variable. -/
def Node.isDeclaration
    (n : Node) :
    Bool :=
  n.nodeType = "get_local_variable"

/- Whether a node sets a variable. -/
def Node.isAssignment
    (n : Node) :
    Bool :=
  n.nodeType = "set_local_variable"

/- The declarations of a graph from a number on. -/
def Graph.declarationsFrom
    (g : Graph)
    (first : Nat) :
    List Nat :=
  (List.range' first (g.nextId - first)).filter fun id =>
    (g.nodes.get? id).any Node.isDeclaration

variable {g : Graph} {n : Node} {tail : List Endpoint}

@[simp] theorem Graph.declarationsFrom_self :
    g.declarationsFrom g.nextId = [] := by
  simp [declarationsFrom]

theorem Graph.declarationsFrom_attach
    {first : Nat}
    (h : first ≤ g.nextId) :
    (g.attach n tail).declarationsFrom first =
      g.declarationsFrom first ++
        if n.isDeclaration then [g.nextId] else [] := by
  have hOld :
      (List.range' first (g.nextId - first)).filter (fun id =>
          ((g.attach n tail).nodes.get? id).any
            Node.isDeclaration) =
        g.declarationsFrom first := by
    apply List.filter_congr
    intro id hid
    rw [List.mem_range'_1] at hid
    rw [get?_attach_of_ne (by omega)]
  unfold declarationsFrom at hOld ⊢
  rw [attach_nextId, Nat.succ_sub h, List.range'_1_concat,
    List.filter_append, hOld, Nat.add_sub_cancel' h]
  simp [List.filter_cons, get?_attach_self]

namespace Builder

variable {b : Builder}

/- The gate is declared if there was none. -/
theorem declarationsFrom_gated :
    b.gated.graph.declarationsFrom b.graph.nextId =
      if b.frame.gate = none then [b.graph.nextId]
      else [] := by
  unfold gated
  cases hGate : b.frame.gate with
  | some v => exact Graph.declarationsFrom_self
  | none =>
      show (b.graph.attach (variableNode (.bool false))
        []).declarationsFrom b.graph.nextId = _
      rw [Graph.declarationsFrom_attach (Nat.le_refl _),
        Graph.declarationsFrom_self]
      rfl

/- A return declares nothing else. -/
theorem declarationsFrom_returned :
    b.returned.graph.declarationsFrom b.graph.nextId =
      b.gated.graph.declarationsFrom b.graph.nextId := by
  have hLe := (nodesFrom_gated (b := b)).1
  have hRaised :
      b.raised.graph.declarationsFrom b.graph.nextId =
        b.gated.graph.declarationsFrom b.graph.nextId := by
    refine (Graph.declarationsFrom_attach hLe).trans ?_
    exact List.append_nil _
  show b.raised.stopped.graph.declarationsFrom
    b.graph.nextId = _
  unfold stopped
  split
  · refine (Graph.declarationsFrom_attach
      (Nat.le_succ_of_le hLe)).trans ?_
    rw [hRaised]
    exact List.append_nil _
  · exact hRaised

end Builder

end FlowGraph

------------------------------------------------------------
-- Nodes That Come With A Statement
------------------------------------------------------------

namespace FlowGraph.Script

/-
  The entry about a place, and the number of the first node
  that is new in it.
-/
def Session.entryAt
    (s : Session)
    (path : Path) :
    Option (Entry × Nat) :=
  match s.journal.dropWhile fun e => e.path ≠ path with
  | [] => none
  | e :: older => some (e, nextNumber older.head?)

/- The nodes that a statement made, its bodies aside. -/
def Session.nodesAt
    (s : Session)
    (path : Path) :
    List Node :=
  (s.entryAt path).elim [] fun (e, first) =>
    e.graph.nodesFrom first

/- The numbers of the declarations among them. -/
def Session.declarationsAt
    (s : Session)
    (path : Path) :
    List Nat :=
  (s.entryAt path).elim [] fun (e, first) =>
    e.graph.declarationsFrom first

/-
  Whether a statement steers the flow.  The other ones begin
  a function or ask for one node of their own.
-/
def Stmt.steers : Stmt → Bool
  | .action _ (.beginFunction _) => false
  | .action _ act => !(act.isData || act.isCall)
  | _ => true

variable {script : List Stmt} {path : Path} {st : Stmt}
variable {s s' z : Session} {I : Path → Session → Prop}

/- There is one entry about a place. -/
theorem Session.entryAt_eq
    {e : Entry}
    {newer older : List Entry}
    (hJournal : z.journal = newer ++ e :: older)
    (hNodup : (z.journal.map Entry.path).Nodup) :
    z.entryAt e.path = some (e, nextNumber older.head?) := by
  have hNewer :
      ∀ d ∈ newer, decide (d.path ≠ e.path) = true := by
    intro d hd
    rw [hJournal, List.map_append, List.nodup_append] at hNodup
    exact decide_eq_true (hNodup.2.2 _
      (List.mem_map_of_mem hd) _ List.mem_cons_self)
  unfold Session.entryAt
  rw [hJournal, List.dropWhile_append_of_pos hNewer]
  simp

/- What the entry about a statement shows. -/
theorem Located.entryAt_eq
    (h : Located script z I path st s s')
    (hNodup : (z.journal.map Entry.path).Nodup) :
    ∃ a b r s₁,
      Unfolds script path s a b st r s₁ ∧
        (∀ v, s₁.frame.gate = some v →
          z.Shows script (openingOf script path) v) ∧
        (∀ id n, s₁.graph.nodes.get? id = some n →
          z.graph.nodes.get? id = some n) ∧
        z.entryAt path =
          some (⟨path, s₁.builder, .finished r⟩,
            nextNumber s₁.journal.head?) := by
  rcases h.ran.unfolds with ⟨a, b, r, s₁, hUnfolds, hEnd⟩
  rcases h.lasts.journal with ⟨news, hNews⟩
  rw [hEnd] at hNews
  refine ⟨a, b, r, s₁, hUnfolds, ?_, ?_, ?_⟩
  · intro v hv
    exact ⟨⟨path, s₁.builder, .finished r⟩, hNews ▸
      List.mem_append_right _ List.mem_cons_self,
      congrArg (Prod.mk _) hv⟩
  · intro id n hNode
    apply h.lasts.keeps.nodes
    rw [hEnd]
    exact hNode
  · exact Session.entryAt_eq hNews.symm hNodup

end FlowGraph.Script

------------------------------------------------------------
-- Hidden Declarations
------------------------------------------------------------

namespace FlowGraph.Script

/- Nothing was declared since the last entry. -/
structure Session.NoneDeclared
    (s : Session) :
    Prop where
  recent : nextNumber s.journal.head? ≤ s.graph.nextId
  none :
    s.graph.declarationsFrom (nextNumber s.journal.head?) = []

namespace Session.NoneDeclared

variable {s s' : Session} {n : Node}

theorem of_latest
    (h : nextNumber s.journal.head? = s.graph.nextId) :
    s.NoneDeclared :=
  ⟨Nat.le_of_eq h, by rw [h, Graph.declarationsFrom_self]⟩

theorem of_noted
    (h : s.Noted) :
    s.NoneDeclared := by
  rcases h with ⟨last, earlier, hJournal, hLast⟩
  apply of_latest
  rw [hJournal]
  show last.builder.graph.nextId = _
  rw [hLast]

theorem placed
    (h : s.NoneDeclared)
    (hNode : n.isDeclaration = false) :
    (s.placed n).NoneDeclared := by
  refine ⟨Nat.le_succ_of_le h.recent, ?_⟩
  refine (Graph.declarationsFrom_attach h.recent).trans ?_
  rw [h.none, hNode]
  rfl

theorem same
    (h : s.NoneDeclared)
    (hNodes : s'.graph.nodes = s.graph.nodes)
    (hNextId : s'.graph.nextId = s.graph.nextId)
    (hJournal : s'.journal = s.journal) :
    s'.NoneDeclared := by
  rcases h with ⟨hRecent, hNone⟩
  unfold Graph.declarationsFrom at hNone
  refine ⟨?_, ?_⟩
  · rw [hJournal, hNextId]
    exact hRecent
  · unfold Graph.declarationsFrom
    rw [hJournal, hNextId, hNodes]
    exact hNone

end Session.NoneDeclared

variable {script body : List Stmt} {path : Path} {st : Stmt}
variable {s s₁ : Session} {a b : Segment → Session}
variable {r : Result}

/-
  After its body a loop makes a guard that asks the gate, if
  the body returns, and no node otherwise.
-/
theorem Unfolds.loop_made
    (h : Unfolds script path s a b st r s₁)
    (hReady : s.Ready)
    (hBody : st.body? .loopBody = some body) :
    nextNumber s₁.journal.head? =
        (b .loopBody).graph.nextId ∧
      (Returns body →
        ∃ v tail,
          s₁.frame.gate = some v ∧
            s₁.graph =
              (b .loopBody).graph.attach (branchNode v.value)
                tail) ∧
      (¬Returns body → s₁.graph = (b .loopBody).graph) := by
  have hRan := h.body hBody
  rcases h.afterLoop hBody with
    ⟨_, _, _, hRepeats, hStart, -, hAfterLoop⟩
  have hLeads := hRan.leads
  rw [hStart] at hLeads
  have hOver := (leads_rounds hReady hRepeats hLeads).ready
  have hReturns :
      (a .loopBody).frame.returns = s.frame.returns := by
    rw [hStart]
    rfl
  have hCounts := (counts_returns script).2 _ _ _ _ _ hRan
  refine ⟨?_, ?_, ?_⟩
  · rcases BlockRan.noted hRan ⟨_, _, rfl, rfl⟩ with
      ⟨last, earlier, hNoted, hLast⟩
    rw [hAfterLoop, journal_afterLoop, hNoted]
    show last.builder.graph.nextId = _
    rw [hLast]
  · intro hIn
    rcases hCounts.gate hIn with ⟨v, hGate⟩
    have hMore :
        s.frame.returns < (b .loopBody).frame.returns := by
      rw [← hReturns]
      exact hCounts.grown.mpr hIn
    rcases guard_afterLoop hOver hMore hGate with
      ⟨hKept, hGuard, -, -⟩
    rw [hAfterLoop]
    exact ⟨v, _, hKept, hGuard⟩
  · intro hNot
    have hSame :
        ¬s.frame.returns < (b .loopBody).frame.returns := by
      rw [← hReturns]
      exact fun hLt => hNot (hCounts.grown.mp hLt)
    rw [hAfterLoop]
    unfold Session.afterLoop
    rw [if_neg hSame]
    rfl

/- Of a switch, the arms are noted and the rest is no node. -/
theorem Unfolds.noneDeclared_switch
    {bind : Binding}
    {control : Operand}
    {cases : List (Label × Arm (List Stmt))}
    {default : Arm (List Stmt)}
    (h :
      Unfolds script path s a b
        (.switch bind control cases default) r s₁)
    (hs : s.NoneDeclared) :
    s₁.NoneDeclared := by
  cases h with
  | conditional hDecides => cases hDecides
  | loop hRepeats => cases hRepeats
  | @switch _ _ v _ _ branches s₂ s₃ join hEval hAssembled
      hArms hRuns =>
      rcases hAssembled.same with ⟨after, hSame, hEnd⟩
      have hPlaced :
          (s.placed (switchNode v (preparedSwitch path cases
            default))).NoneDeclared :=
        hs.placed rfl
      have hLast :=
        (hArms.induct Session.NoneDeclared
          (fun _ _ hd => hd.same rfl rfl rfl) ?_ hPlaced).2
      · rw [hEnd]
        exact hLast.same hSame.nodes hSame.nextId rfl
      · intro j run hArm hStart
        rcases body_preparedSwitch _ _ hArm rfl with
          ⟨body, hBody, _⟩
        exact .of_noted (BlockRan.noted
          (hRuns (armSegment j) body hBody) ⟨_, _, rfl, rfl⟩)

/-
  What a statement that steers the flow declares is the gate
  of its function.
-/
theorem Unfolds.gate_of_declared
    (h : Unfolds script path s a b st r s₁)
    (hReady : s.Ready)
    (hLatest :
      nextNumber s.journal.head? = s.graph.nextId)
    (hSteers : st.steers = true)
    {id : Nat}
    (hId :
      id ∈ s₁.graph.declarationsFrom
        (nextNumber s₁.journal.head?)) :
    ∃ v, s₁.frame.gate = some v ∧ v.node = id := by
  have hNothing :
      s₁.NoneDeclared →
        ∃ v, s₁.frame.gate = some v ∧ v.node = id := by
    intro hNone
    rw [hNone.none] at hId
    cases hId
  have hBodies :
      ∀ segment body, st.body? segment = some body →
        (b segment).NoneDeclared :=
    fun segment body hBody =>
      .of_noted (BlockRan.noted (h.body hBody)
        ⟨_, _, rfl, rfl⟩)
  have hs : s.NoneDeclared := .of_latest hLatest
  -- The gate is declared with the next number, if at all.
  have hGated :
      id ∈ s.builder.gated.graph.declarationsFrom
          s.builder.graph.nextId →
        s.builder.gateOf.node = id := by
    intro hNew
    rw [Builder.declarationsFrom_gated] at hNew
    split at hNew
    · rename_i hNone
      rw [List.mem_singleton.mp hNew]
      exact (Builder.isGate_gated hNone).1
    · cases hNew
  cases h with
  | @action bind act _ after hActs =>
      have hFirst :
          nextNumber (s.withBuilder after).journal.head? =
            s.builder.graph.nextId := hLatest
      rw [hFirst] at hId
      cases hActs with
      | returns =>
          refine ⟨_, Builder.returned_gate, hGated ?_⟩
          rw [← Builder.declarationsFrom_returned]
          exact hId
      | declares =>
          exact ⟨_, Builder.gated_gate, hGated hId⟩
      | breaks => exact hNothing (hs.placed rfl)
      | continues => exact hNothing (hs.same rfl rfl rfl)
      | rests hData | adds hData =>
          cases act <;> simp_all [Stmt.steers]
      | places hCall =>
          cases act <;> simp_all [Stmt.steers]
  | function hStart hBody =>
      exact hNothing ((hBodies .function _ rfl).same rfl rfl
        rfl)
  | @conditional st v thenBody elseBody hDecides hFirst hThen
      hSecond hElseReady hElse =>
      have hEnd : (b .elseBody).NoneDeclared := by
        cases elseBody with
        | some body => exact hBodies _ _ hDecides.bodies.2
        | none =>
            rw [show b .elseBody = a .elseBody from hElse,
              hSecond]
            exact (hBodies _ _ hDecides.bodies.1).same rfl rfl
              rfl
      exact hNothing (hEnd.same rfl rfl rfl)
  | switch hEval hAssembled hArms hRuns =>
      exact hNothing ((Unfolds.switch hEval hAssembled hArms
        hRuns).noneDeclared_switch hs)
  | @loop st bind body n value hRepeats hStart hBody =>
      rcases Unfolds.loop_made (.loop hRepeats hStart hBody) hReady
            hRepeats.body.1 with
        ⟨hFirst, hGuard, hPlain⟩
      rw [hFirst] at hId
      by_cases hIn : Returns body
      · rcases hGuard hIn with ⟨v, tail, -, hGraph⟩
        rw [hGraph, Graph.declarationsFrom_attach
          (Nat.le_refl _), Graph.declarationsFrom_self] at hId
        cases hId
      · rw [hPlain hIn, Graph.declarationsFrom_self] at hId
        cases hId

end FlowGraph.Script

------------------------------------------------------------
-- Statements That Use The Gate
------------------------------------------------------------

namespace FlowGraph.Script

variable {name : String} {config : Config}
variable {script : List Stmt} {path : Path} {st : Stmt}

/-
  What the entry about a statement shows, where all numbers
  before the statement are known from the entries.
-/
theorem entryAt_run
    (hScript : structured script = true)
    (hOk :
      ∀ e ∈ (run name config script).entries,
        e.event.isFailure = false)
    (hFind : find? script path = some st)
    (hRuns : st.begins = false) :
    ∃ s a b r s₁,
      s.Ready ∧
        nextNumber s.journal.head? = s.graph.nextId ∧
        Unfolds script path s a b st r s₁ ∧
        (∀ v, s₁.frame.gate = some v →
          (run name config script).Shows script
            (openingOf script path) v) ∧
        (∀ id n, s₁.graph.nodes.get? id = some n →
          (run name config script).graph.nodes.get? id =
            some n) ∧
        (run name config script).entryAt path =
          some (⟨path, s₁.builder, .finished r⟩,
            nextNumber s₁.journal.head?) := by
  have hNodup := nodup_journal name config script
  rcases located hScript
        (fun e he => hOk e (List.mem_reverse.mpr he))
        (inherited_loops hNodup)
        ⟨rfl, List.Pairwise.nil, nofun, rfl⟩ hFind hRuns with
    ⟨s, s', hLocated⟩
  rcases hLocated.entryAt_eq hNodup with
    ⟨a, b, r, s₁, hUnfolds, hRest⟩
  exact ⟨s, a, b, r, s₁, hLocated.ran.ready,
    hLocated.inherits.latest, hUnfolds, hRest⟩

/- A statement that asks for the gate gets it. -/
theorem asking_at
    (hScript : structured script = true)
    (hOk :
      ∀ e ∈ (run name config script).entries,
        e.event.isFailure = false)
    {bind : Binding}
    {act : Action}
    (hFind : find? script path = some (.action bind act))
    (hAsks : act.asksGate = true) :
    ∃ v,
      (run name config script).Shows script
          (openingOf script path) v ∧
        (act = .returnNow →
          ((run name config script).nodesAt path).filter
              Node.isAssignment =
            [Builder.raiseNode v]) := by
  have hAct := Action.asksGate_iff.mp hAsks
  have hRuns : (Stmt.action bind act).begins = false := by
    rcases hAct with rfl | rfl <;> rfl
  rcases entryAt_run hScript hOk hFind hRuns with
    ⟨s, a, b, r, s₁, -, hLatest, hUnfolds, hShows, -, hEntry⟩
  refine ⟨s.builder.gateOf, ?_⟩
  unfold Session.nodesAt
  rw [hEntry]
  cases hUnfolds with
  | @action _ _ _ after hActs =>
      have hFirst :
          nextNumber (s.withBuilder after).journal.head? =
            s.builder.graph.nextId := hLatest
      rw [hFirst]
      rcases hAct with rfl | rfl
      · cases hActs with
        | returns =>
            refine ⟨hShows _ Builder.returned_gate,
              fun _ => ?_⟩
            show (s.builder.returned.graph.nodesFrom
              s.builder.graph.nextId).filter
                Node.isAssignment = _
            rw [Builder.nodesFrom_returned,
              Builder.nodesFrom_gated.2, List.filter_append]
            cases s.builder.frame.gate <;>
              cases s.builder.frame.loops <;> rfl
        | rests hData | adds hData => cases hData
        | places hCall => cases hCall
      · cases hActs with
        | declares => exact ⟨hShows _ Builder.gated_gate, nofun⟩
        | rests hData | adds hData => cases hData
        | places hCall => cases hCall
  | conditional hDecides => cases hDecides
  | loop hRepeats => cases hRepeats

/-
  A loop whose body returns makes a guard that asks the gate
  of the function.  Any other loop makes nothing more.
-/
theorem loop_at
    (hScript : structured script = true)
    (hOk :
      ∀ e ∈ (run name config script).entries,
        e.event.isFailure = false)
    {body : List Stmt}
    (hFind : find? script path = some st)
    (hBody : st.body? .loopBody = some body) :
    (Returns body →
        ∃ v,
          (run name config script).Shows script
              (openingOf script path) v ∧
            (run name config script).nodesAt path =
              [branchNode v.value]) ∧
      (¬Returns body →
        (run name config script).nodesAt path = []) := by
  have hRuns : st.begins = false := by
    cases st with
    | action bind act => cases hBody
    | _ => rfl
  rcases entryAt_run hScript hOk hFind hRuns with
    ⟨s, a, b, r, s₁, hReady, -, hUnfolds, hShows, -, hEntry⟩
  rcases hUnfolds.loop_made hReady hBody with
    ⟨hFirst, hGuard, hPlain⟩
  have hNodes :
      (run name config script).nodesAt path =
        s₁.graph.nodesFrom (b .loopBody).graph.nextId := by
    unfold Session.nodesAt
    rw [hEntry, hFirst]
    rfl
  rw [hNodes]
  refine ⟨?_, ?_⟩
  · intro hIn
    rcases hGuard hIn with ⟨v, tail, hGate, hGraph⟩
    refine ⟨v, hShows v hGate, ?_⟩
    rw [hGraph, Graph.nodesFrom_attach (Nat.le_refl _),
      Graph.nodesFrom_self]
    rfl
  · intro hNot
    rw [hPlain hNot]
    exact Graph.nodesFrom_self

/- A hidden declaration is that of the gate. -/
theorem shows_of_hidden
    (hScript : structured script = true)
    (hOk :
      ∀ e ∈ (run name config script).entries,
        e.event.isFailure = false)
    {id : Nat}
    (hFind : find? script path = some st)
    (hSteers : st.steers = true)
    (hId :
      id ∈ (run name config script).declarationsAt path) :
    ∃ v,
      (run name config script).Shows script
          (openingOf script path) v ∧
        v.node = id := by
  have hRuns : st.begins = false := by
    unfold Stmt.begins
    split
    · cases hSteers
    · rfl
  rcases entryAt_run hScript hOk hFind hRuns with
    ⟨s, a, b, r, s₁, hReady, hLatest, hUnfolds, hShows, -, hEntry⟩
  unfold Session.declarationsAt at hId
  rw [hEntry] at hId
  rcases hUnfolds.gate_of_declared hReady hLatest hSteers hId with
    ⟨v, hGate, hNode⟩
  exact ⟨v, hShows v hGate, hNode⟩

/- The nodes that a statement made are there to the end. -/
theorem kept_of_nodesAt
    (hScript : structured script = true)
    (hOk :
      ∀ e ∈ (run name config script).entries,
        e.event.isFailure = false)
    {n : Node}
    (hFind : find? script path = some st)
    (hRuns : st.begins = false)
    (hNode : n ∈ (run name config script).nodesAt path) :
    ∃ id,
      (run name config script).graph.nodes.get? id =
        some n := by
  rcases entryAt_run hScript hOk hFind hRuns with
    ⟨s, a, b, r, s₁, -, -, -, -, hKept, hEntry⟩
  unfold Session.nodesAt at hNode
  rw [hEntry] at hNode
  rcases List.mem_filterMap.mp hNode with ⟨found, hMem, hSome⟩
  rcases List.mem_map.mp hMem with ⟨id, -, hGet⟩
  exact ⟨id, hKept id n (hGet.trans hSome)⟩

/- The gate is declared by a statement that asks for it. -/
theorem Session.HasGates.declared_at
    {z : Session}
    {here opening : Option Path}
    {v : Variable}
    (h : z.HasGates script here)
    (hNodup : (z.journal.map Entry.path).Nodup)
    (hShows : z.Shows script opening v) :
    ∃ path bind act,
      find? script path = some (.action bind act) ∧
        act.asksGate = true ∧
        openingOf script path = opening ∧
        v.node ∈ z.declarationsAt path := by
  rcases hShows with ⟨e, he, hMoment⟩
  rcases h.declared e he v (congrArg Prod.snd hMoment) with
    ⟨newer, d, older, hSplit, hd, hDeclares⟩
  rcases hDeclares.asks with ⟨bind, act, hFind, hAsks⟩
  have hOpening :
      openingOf script d.path = opening :=
    (congrArg Prod.fst hd).trans (congrArg Prod.fst hMoment)
  refine ⟨d.path, bind, act, hFind, hAsks, hOpening, ?_⟩
  unfold Session.declarationsAt
  rw [Session.entryAt_eq hSplit hNodup]
  refine List.mem_filter.mpr ⟨List.mem_range'_1.mpr ?_, ?_⟩
  · have hNew := hDeclares.isNew
    have hBelow := hDeclares.below
    omega
  · show (d.graph.nodes.get? v.node).any _ = true
    rw [hDeclares.gate.node]
    rfl

end FlowGraph.Script

------------------------------------------------------------
-- One Gate Per Function
------------------------------------------------------------

namespace FlowGraph.Script

/-
  A function hides a declaration: it was made by one of its
  statements that steer the flow.
-/
def Session.Hides
    (script : List Stmt)
    (opening : Option Path)
    (s : Session)
    (id : Nat) :
    Prop :=
  ∃ path st,
    find? script path = some st ∧
      st.steers = true ∧
      openingOf script path = opening ∧
      id ∈ s.declarationsAt path

/-
  The functions of a script that is not refused.  A function
  has a gate if some statement of it asks for one.  The gate
  is declared as false, it is all that the function hides,
  and no other function has it.  A return raises the gate of
  its function, and does no other assignment.  A loop with a
  return in its body is followed by a guard that asks the
  gate of its function.
-/
theorem one_gate_per_function
    (name : String)
    (config : Config)
    (script : List Stmt)
    (hScript : structured script = true)
    (hOk :
      ∀ e ∈ (run name config script).entries,
        e.event.isFailure = false) :
    (∀ opening,
        (∃ v,
          (run name config script).gateIn script opening =
            some v) ↔
          AsksGate script opening) ∧
      (∀ opening v,
        (run name config script).gateIn script opening =
            some v →
          v.IsGate (run name config script).graph) ∧
      (∀ opening id,
        (run name config script).Hides script opening id ↔
          ∃ v,
            (run name config script).gateIn script opening =
                some v ∧
              v.node = id) ∧
      (∀ opening other v w,
        (run name config script).gateIn script opening =
            some v →
          (run name config script).gateIn script other =
              some w →
            v.node = w.node → opening = other) ∧
      (∀ path bind,
        find? script path = some (.action bind .returnNow) →
          ∃ v,
            (run name config script).gateIn script
                (openingOf script path) = some v ∧
              ((run name config script).nodesAt path).filter
                  Node.isAssignment =
                [Builder.raiseNode v]) ∧
      (∀ path st body,
        find? script path = some st →
          st.body? .loopBody = some body →
            (Returns body →
                ∃ v,
                  (run name config script).gateIn script
                      (openingOf script path) = some v ∧
                    (run name config script).nodesAt path =
                      [branchNode v.value]) ∧
              (¬Returns body →
                (run name config script).nodesAt path =
                  [])) ∧
      ∀ path st n,
        find? script path = some st →
          st.begins = false →
            n ∈ (run name config script).nodesAt path →
              ∃ id,
                (run name config script).graph.nodes.get? id =
                  some n := by
  rcases showsGates_run hScript hOk with ⟨here, hGates⟩
  have hNodup := nodup_journal name config script
  refine ⟨?_, ?_, ?_, ?_, ?_, ?_, ?_⟩
  · intro opening
    constructor
    · rintro ⟨v, hv⟩
      rcases hGates.declared_at hNodup
            (hGates.gateIn_eq_some_iff.mp hv) with
        ⟨path, bind, act, hFind, hAsks, hOpening, -⟩
      exact ⟨path, bind, act, hFind, hAsks, hOpening⟩
    · rintro ⟨path, bind, act, hFind, hAsks, hOpening⟩
      rcases asking_at hScript hOk hFind hAsks with ⟨v, hShows, -⟩
      exact ⟨v, hGates.gateIn_eq_some_iff.mpr
        (hOpening ▸ hShows)⟩
  · intro opening v hv
    rcases hGates.gateIn_eq_some_iff.mp hv with ⟨e, he, hMoment⟩
    exact (hGates.gates _ (List.mem_cons_of_mem _
      (List.mem_map_of_mem he)) v
        (congrArg Prod.snd hMoment)).1
  · intro opening id
    constructor
    · rintro ⟨path, st, hFind, hSteers, hOpening, hId⟩
      rcases shows_of_hidden hScript hOk hFind hSteers hId with
        ⟨v, hShows, hNode⟩
      exact ⟨v, hGates.gateIn_eq_some_iff.mpr
        (hOpening ▸ hShows), hNode⟩
    · rintro ⟨v, hv, hNode⟩
      rcases hGates.declared_at hNodup
            (hGates.gateIn_eq_some_iff.mp hv) with
        ⟨path, bind, act, hFind, hAsks, hOpening, hIn⟩
      refine ⟨path, _, hFind, ?_, hOpening, hNode ▸ hIn⟩
      rcases Action.asksGate_iff.mp hAsks with rfl | rfl <;>
        rfl
  · intro opening other v w hv hw hNode
    exact hGates.opening_of_node
      (hGates.gateIn_eq_some_iff.mp hv)
      (hGates.gateIn_eq_some_iff.mp hw) hNode
  · intro path bind hFind
    rcases asking_at hScript hOk hFind rfl with
      ⟨v, hShows, hRaises⟩
    exact ⟨v, hGates.gateIn_eq_some_iff.mpr hShows,
      hRaises rfl⟩
  · intro path st body hFind hBody
    rcases loop_at hScript hOk hFind hBody with ⟨hGuard, hPlain⟩
    refine ⟨?_, hPlain⟩
    intro hIn
    rcases hGuard hIn with ⟨v, hShows, hNodes⟩
    exact ⟨v, hGates.gateIn_eq_some_iff.mpr hShows, hNodes⟩
  · intro path st n hFind hRuns hNode
    exact kept_of_nodesAt hScript hOk hFind hRuns hNode

/-
  A loop that returns.  Its body has a function of its own,
  which returns too, and another function comes after it.
-/
def threeFunctions : List Stmt :=
  [.action .none (.beginFunction "outer"),
    .forRange .none (.literal (.int 0)) (.literal (.int 3))
      [.function .none "inner"
        [.ifThen .none (.value (.bool true))
          [.action .none .returnNow]],
        .action .none .returnNow],
    .action .none (.beginFunction "other"),
    .action .none (.print (.literal (.str "done")))]

/-
  The outer and the inner function have a gate each, the
  guard of the loop asks that of the outer one, and the other
  function hides nothing.
-/
theorem nested_functions_have_own_gates :
    structured threeFunctions = true ∧
      (∀ e ∈ (run "demo" .default threeFunctions).entries,
        e.event.isFailure = false) ∧
      ∃ v w,
        (run "demo" .default threeFunctions).gateIn
            threeFunctions (some [.statement 0]) = some v ∧
          (run "demo" .default threeFunctions).gateIn
              threeFunctions
              (some [.statement 1, .loopBody, .statement 0,
                .function]) = some w ∧
          v.node ≠ w.node ∧
          (run "demo" .default threeFunctions).nodesAt
              [.statement 1] =
            [branchNode v.value] ∧
          ∀ id,
            ¬(run "demo" .default threeFunctions).Hides
                threeFunctions (some [.statement 2]) id := by
  have hScript : structured threeFunctions = true := by
    decide
  have hOk :
      ∀ e ∈ (run "demo" .default threeFunctions).entries,
        e.event.isFailure = false := by
    decide +kernel
  have hNone :
      (run "demo" .default threeFunctions).gateIn
        threeFunctions (some [.statement 2]) = none := by
    decide +kernel
  rcases one_gate_per_function "demo" .default threeFunctions
        hScript hOk with
    ⟨hAsks, -, hHides, hOthers, -, hLoops, -⟩
  rcases (hLoops [.statement 1] _ _ rfl rfl).1
        ⟨[.statement 1], .none, rfl, by decide⟩ with
    ⟨v, hv, hGuard⟩
  rcases (hAsks (some [.statement 1, .loopBody, .statement 0,
        .function])).mpr
        ⟨[.statement 1, .loopBody, .statement 0, .function,
          .statement 0, .thenBody, .statement 0], .none,
          .returnNow, rfl, rfl, rfl⟩ with
    ⟨w, hw⟩
  refine ⟨hScript, hOk, v, w, hv, hw, ?_, hGuard, ?_⟩
  · intro hSame
    have hEq := hOthers _ _ v w hv hw hSame
    revert hEq
    decide
  · intro id hHidden
    rcases (hHides _ id).mp hHidden with ⟨u, hu, -⟩
    rw [hNone] at hu
    cases hu

end FlowGraph.Script
