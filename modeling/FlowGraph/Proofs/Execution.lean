import FlowGraph.Proofs.Closed
import FlowGraph.Proofs.Innermost
import FlowGraph.Proofs.Settled

/-
  The machine runs what a body has made.

  From the cursor before a body the machine does what the
  body means.  If the body comes to its end, the machine is
  at the cursor after it; otherwise the chain has ended, and
  the loops around have as many rounds left as they should.

  Key definitions include:
    * `FlowGraph.Script.Session.Poised`
    * `FlowGraph.Script.Lands`
    * `FlowGraph.Script.Executes`

  Key theorems include:
    * `FlowGraph.Script.Executes.andThen`
    * `FlowGraph.Script.executes_action`
-/

------------------------------------------------------------
-- Where A Run Arrives
------------------------------------------------------------

namespace FlowGraph.Script

open Machine

/-
  The machine is about to do what a session goes on with: it
  follows an exec output of the cursor, it is in the same
  loops, and the gate is down.
-/
structure Session.Poised
    (M : Machine)
    (s : Session)
    (m : State) :
    Prop where
  next : ∃ e ∈ s.frame.tail, m.next = M.graph.execTarget e
  loops : m.stack.map Prod.fst = s.frame.loops
  down : m.raised = false

/- The innermost loop has no round left. -/
def lastRound : List (Nat × Nat) → List (Nat × Nat)
  | [] => []
  | (id, _) :: rest => (id, 0) :: rest

/- No loop has a round left. -/
def lastRounds
    (stack : List (Nat × Nat)) :
    List (Nat × Nat) :=
  stack.map fun p => (p.1, 0)

/-
  Where the machine is when it has run a body from `m` on,
  by the ending of the body.  Only a body that ends early
  ends the chain, and it does so inside of loops or by a
  return, which is counted.
-/
def Lands
    (M : Machine)
    (s s' : Session)
    (m m' : State) :
    Ending → Prop
  | .done =>
      (∃ e ∈ s'.frame.tail, m'.next = M.graph.execTarget e) ∧
        m'.stack = m.stack ∧ m'.raised = false
  | .continued =>
      m'.next = none ∧ m'.stack = m.stack ∧
        m'.raised = false ∧ m.stack ≠ []
  | .broken =>
      m'.next = none ∧ m'.stack = lastRound m.stack ∧
        m'.raised = false ∧ m.stack ≠ []
  | .returned =>
      m'.next = none ∧ m'.stack = lastRounds m.stack ∧
        m'.raised = true ∧
          s.frame.returns < s'.frame.returns

/- The machine has had a given effect. -/
structure Arrives
    (M : Machine)
    (N : Path → Option Nat)
    (s s' : Session)
    (m m' : State)
    (r : Effect) :
    Prop where
  asked : m'.asked = r.asked
  trace :
    m'.trace.map some = m.trace.map some ++ r.trace.map N
  lands : Lands M s s' m m' r.ending

/- The machine does what is meant from one session on. -/
def Executes
    (M : Machine)
    (N : Path → Option Nat)
    (f : Meaning)
    (s s' : Session) :
    Prop :=
  Session.Settled M N s s' →
    ∀ m, s.Poised M m →
      ∃ m', M.Reaches m m' ∧ Arrives M N s s' m m' (f m.asked)

end FlowGraph.Script

------------------------------------------------------------
-- One After The Other
------------------------------------------------------------

namespace FlowGraph.Script

open Machine

variable {P P' : Entry → Prop} {lo lo' : Nat}
variable {M : Machine} {N : Path → Option Nat}
variable {f g : Meaning}
variable {s s' s₁ s₂ a b : Session}
variable {m m₀ m' : State}

/- A part of a run lands where the whole does. -/
theorem Lands.widen
    {e : Ending}
    (h : Lands M a b m₀ m' e)
    (hBefore : s.frame.returns ≤ a.frame.returns)
    (hAfter : b.frame.returns ≤ s'.frame.returns)
    (hStack : m₀.stack = m.stack)
    (hJoin :
      e = .done →
        ∀ x ∈ b.frame.tail, x ∈ s'.frame.tail) :
    Lands M s s' m m' e := by
  cases e with
  | done =>
      rcases h with ⟨⟨x, hx, hNext⟩, hSame, hDown⟩
      exact ⟨⟨x, hJoin rfl x hx, hNext⟩,
        hSame.trans hStack, hDown⟩
  | continued =>
      rw [Lands, hStack] at h
      exact h
  | broken =>
      rw [Lands, hStack] at h
      exact h
  | returned =>
      rw [Lands, hStack] at h
      rcases h with ⟨hNext, hZero, hRaised, hReturns⟩
      exact ⟨hNext, hZero, hRaised, by omega⟩

/- Nothing is left to do. -/
theorem executes_ends
    (hTail : s'.frame.tail = s.frame.tail) :
    Executes M N (.ends .done) s s' := by
  intro _ m hPoised
  refine ⟨m, .refl, rfl, by simp [Meaning.ends], ?_⟩
  rcases hPoised.next with ⟨e, he, hNext⟩
  rw [← hTail] at he
  exact ⟨⟨e, he, hNext⟩, rfl, hPoised.down⟩

/- One body after another. -/
theorem Executes.andThen
    (h₁ : Session.Leads P lo s s₁)
    (h₂ : Session.Leads P' lo' s₁ s₂)
    (hf : Executes M N f s s₁)
    (hg : Executes M N g s₁ s₂) :
    Executes M N (f.andThen g) s s₂ := by
  intro hSettled m hPoised
  have hBefore := h₁.later.returns
  have hAfter := h₂.later.returns
  rcases hf (hSettled.first h₁ h₂) m hPoised with
    ⟨m₁, hReach₁, hFirst⟩
  by_cases hDone : (f m.asked).ending = .done
  · have hLands := hFirst.lands
    rw [hDone] at hLands
    rcases hLands with ⟨hNext, hStack, hDown⟩
    have hPoised₁ : s₁.Poised M m₁ := by
      refine ⟨hNext, ?_, hDown⟩
      rw [hStack, hPoised.loops]
      exact h₁.builder.loops.symm
    rcases hg (hSettled.second h₁) m₁ hPoised₁ with
      ⟨m₂, hReach₂, hSecond⟩
    have hMeaning :
        f.andThen g m.asked = g.after (f m.asked) := by
      simp only [Meaning.andThen, hDone]
    refine ⟨m₂, hReach₁.trans hReach₂, ?_⟩
    rw [hMeaning]
    rw [hFirst.asked] at hSecond
    refine ⟨hSecond.asked, ?_, ?_⟩
    · rw [hSecond.trace, hFirst.trace, List.append_assoc,
        ← List.map_append]
      rfl
    · exact hSecond.lands.widen hBefore (Nat.le_refl _)
        hStack fun _ _ hx => hx
  · have hMeaning : f.andThen g m.asked = f m.asked := by
      unfold Meaning.andThen
      split
      · rename_i hEq
        exact absurd hEq hDone
      · rfl
    refine ⟨m₁, hReach₁, ?_⟩
    rw [hMeaning]
    exact ⟨hFirst.asked, hFirst.trace,
      hFirst.lands.widen (Nat.le_refl _) hAfter rfl
        fun hEq => absurd hEq hDone⟩

/- Neither names nor the journal matter to the machine. -/
theorem Executes.of_builder
    (hf : Executes M N f a s')
    (hBuilder : a.builder = s.builder) :
    Executes M N f s s' := by
  intro hSettled m hPoised
  have hLinks := hSettled.links
  have hNext := hPoised.next
  have hLoops := hPoised.loops
  rw [Session.Frozen, Session.graph, Session.frame,
    ← hBuilder] at hLinks
  rw [Session.frame, ← hBuilder] at hNext hLoops
  rcases hf ⟨hSettled.final, hLinks, hSettled.together⟩ m
      ⟨hNext, hLoops, hPoised.down⟩ with
    ⟨m', hReach, hArrives⟩
  refine ⟨m', hReach, hArrives.asked, hArrives.trace,
    hArrives.lands.widen ?_ (Nat.le_refl _) rfl
      fun _ _ hx => hx⟩
  exact Nat.le_of_eq
    (congrArg (fun b => b.frame.returns) hBuilder.symm)

/- The result of a statement is kept and journaled. -/
theorem Executes.finish
    {path : Path}
    {bind : Binding}
    {r : Result}
    (h :
      (∀ id, r = .node id → N path = some id) →
        Executes M N f s s') :
    Executes M N f s (s'.finish path bind r) := by
  intro hSettled m hPoised
  have hLater : s'.Later (s'.finish path bind r) :=
    Session.later_of_eq rfl rfl rfl (List.suffix_cons _ _)
  have hNode : ∀ id, r = .node id → N path = some id := by
    intro id hEq
    refine hSettled.final.yields ⟨path, s'.builder, .finished r⟩
      List.mem_cons_self id ?_
    rw [hEq]
    rfl
  have hInner : Session.Settled M N s s' :=
    ⟨hSettled.final.earlier hLater, hSettled.links,
      hSettled.together⟩
  rcases h hNode hInner m hPoised with
    ⟨m', hReach, hArrives⟩
  exact ⟨m', hReach, hArrives.asked, hArrives.trace,
    hArrives.lands.widen (Nat.le_refl _) (Nat.le_refl _) rfl
      fun _ _ hx => hx⟩

end FlowGraph.Script

------------------------------------------------------------
-- Calls
------------------------------------------------------------

namespace FlowGraph.Script

open Machine

variable {M : Machine} {N : Path → Option Nat}
variable {s s' : Session} {n : Node} {path : Path}
variable {m : State}

/- The machine enters the node. -/
theorem Session.Entered.reaches
    (h : s.Entered n s')
    (hReady : s.Ready)
    (hSettled : Session.Settled M N s s')
    (hNext :
      ∃ e ∈ s.frame.tail, m.next = M.graph.execTarget e) :
    M.Reaches m (M.enter m s.graph.nextId n) := by
  rcases hNext with ⟨e, he, hNext⟩
  have hLt := h.lt
  have hOld : e.node < s.graph.nextId :=
    hReady.builder.tail_lt he
  have hNot : e ∉ s'.frame.tail := by
    intro hMem
    have hGe := h.isNew e hMem
    omega
  have hTarget :
      M.graph.execTarget e = some s.graph.nextId := by
    rw [hSettled.links e (Or.inr he) (by omega) hNot]
    exact h.target e he
  exact reaches_enter (hNext.trans hTarget)
    (hSettled.final.nodes h.node)

/- A call of an exec node that goes on at its output. -/
theorem executes_placed
    (hReady : s.Ready)
    (hExec : n.nodeClass = .exec)
    (hOutputs : 0 < n.execOutputs)
    (hEnter :
      s.Final M N → ∀ m,
        M.enter m s.graph.nextId n =
          (m.visit s.graph.nextId).goto
            (M.follow s.graph.nextId 0))
    (hNode : N path = some s.graph.nextId) :
    Executes M N ((Meaning.ends .done).visits path) s
      (s.placed n) := by
  intro hSettled m hPoised
  have hReach :=
    (s.entered_placed n).reaches hReady hSettled
      hPoised.next
  rw [hEnter (hSettled.final.earlier
    (Session.later_placed hReady hExec))] at hReach
  have hMem :
      (⟨s.graph.nextId, 0⟩ : Endpoint) ∈
        (s.placed n).frame.tail := by
    have hTail :
        (s.placed n).frame.tail =
          if 0 < n.execOutputs then [⟨s.graph.nextId, 0⟩]
          else [] := rfl
    rw [hTail, if_pos hOutputs]
    exact List.mem_singleton_self _
  refine ⟨_, hReach, rfl, ?_, ⟨_, hMem, rfl⟩, rfl,
    hPoised.down⟩
  simp [State.goto, State.visit, Meaning.visits,
    Meaning.ends, hNode]

/- A variable that is found is a local one. -/
theorem mem_of_findVariable
    {names : Names}
    {name : String}
    {v : Variable}
    (h : names.findVariable name = .ok v) :
    (name, v) ∈ names.locals := by
  unfold Names.findVariable at h
  split at h
  · rename_i w hw
    cases h
    exact mem_of_lookup hw
  · cases h

/- A local variable of a script is not the gate. -/
theorem isRaise_of_local
    (hReady : s.Ready)
    (hFinal : s.Final M N)
    {name : String}
    {w : Variable}
    (hFind : s.names.findVariable name = .ok w)
    (value : Value) :
    M.isRaise (Builder.assignNode w value) = false := by
  have hMem := mem_of_findVariable hFind
  unfold isRaise
  cases hGate : M.gate with
  | none => rfl
  | some v =>
      apply decide_eq_false
      intro hEq
      have hLocal := hReady.locals _ hMem
      have hHandle : w.handle = v.handle :=
        (List.cons.inj hEq).1
      have hSource := (hFinal.gate v hGate).handle_source
      rw [← hHandle, hLocal.handle] at hSource
      have hSame : w.node = v.node := by
        injection hSource with hPin
        exact congrArg PinRef.node hPin
      rcases hFinal.gateNew v hGate with hOwn | hNew
      · exact hReady.gate _ hMem v hOwn hSame.symm
      · have hLt : w.node < s.graph.nextId :=
          hLocal.node_lt
        omega

/- The machine runs a call. -/
theorem executes_call
    {a : Action}
    (hReady : s.Ready)
    (hPlain : a.plain = true)
    (hCall : a.isCall = true)
    (hShows : a.Shows s.names n)
    (hNode : N path = some s.graph.nextId) :
    Executes M N (a.meaning path) s (s.placed n) := by
  cases a with
  | print input =>
      rcases hShows with ⟨text, hEq⟩
      rw [hEq]
      refine executes_placed hReady rfl Nat.one_pos ?_ hNode
      intro _ m
      rfl
  | set name input =>
      rcases hShows with ⟨v, value, hFind, hEq⟩
      rw [hEq]
      refine executes_placed hReady rfl Nat.one_pos ?_ hNode
      intro hFinal m
      simp only [enter,
        isRaise_of_local hReady hFinal hFind value]
      rfl
  | placeOfType nodeType args =>
      have hType : Builtin.ofName? nodeType = none :=
        Builtin.ofName?_eq_none_iff.mpr
          (of_decide_eq_true hPlain)
      rcases hShows hType with ⟨values, hEq⟩
      rw [hEq]
      refine executes_placed hReady rfl Nat.one_pos ?_ hNode
      intro _ m
      simp only [enter, Node.exec, hType]
  | place draft => cases hPlain
  | placeBuiltin args kind dynamic => cases hPlain
  | _ => cases hCall

end FlowGraph.Script

------------------------------------------------------------
-- Leaving A Body
------------------------------------------------------------

namespace FlowGraph.Machine

theorem stop_nil
    (stack : List (Nat × Nat)) :
    stop [] stack = stack := by
  induction stack with
  | nil => rfl
  | cons p rest ih =>
      simp only [stop, List.not_mem_nil, if_false, ih]

/- The innermost loop is stopped. -/
theorem stop_innermost
    (id left : Nat)
    (rest : List (Nat × Nat)) :
    stop [loopValue id] ((id, left) :: rest) =
      (id, 0) :: rest := by
  simp [stop, stop_nil]

/- All loops around are stopped. -/
theorem stop_all
    (stack : List (Nat × Nat)) :
    stop ((stack.map Prod.fst).map loopValue) stack =
      stack.map fun p => (p.1, 0) := by
  induction stack with
  | nil => rfl
  | cons p rest ih =>
      simp only [List.map_cons, stop, List.mem_cons_self,
        if_true, List.erase_cons_head, ih]

end FlowGraph.Machine

namespace FlowGraph.Script

open Machine

variable {M : Machine} {N : Path → Option Nat}
variable {s s' : Session} {path : Path}

/- Where a path is sealed, the chain ends. -/
theorem Session.Settled.ended
    (h : Session.Settled M N s s')
    (hReady : s.Ready)
    (hGraph : s'.graph = s.graph)
    (hTail : s'.frame.tail = [])
    {e : Endpoint}
    (he : e ∈ s.frame.tail) :
    M.graph.execTarget e = none := by
  have hLt : e.node < s.graph.nextId :=
    hReady.builder.tail_lt he
  rw [h.links e (Or.inr he), hGraph]
  · exact (hReady.builder.cursor.isOpen e he).2
  · rw [hGraph]
    exact hLt
  · simp [hTail]

/- A continue ends the chain. -/
theorem executes_continue
    (hReady : s.Ready)
    (hInLoop : s.frame.inLoop = true) :
    Executes M N (Meaning.ends .continued) s
      (s.withBuilder
        { s.builder with
          frame := s.frame.sealPath false }) := by
  intro hSettled m hPoised
  rcases hPoised.next with ⟨e, he, hNext⟩
  have hNone := hSettled.ended hReady rfl rfl he
  refine ⟨m, .refl, rfl, by simp [Meaning.ends],
    hNext.trans hNone, rfl, hPoised.down, ?_⟩
  intro hEmpty
  have hLoops := hPoised.loops
  rw [hEmpty] at hLoops
  simp [Frame.inLoop, ← hLoops] at hInLoop

/- The node of a break lists the innermost loop of a frame. -/
def ListsInnermost
    (f : Frame)
    (n : Node) :
    Prop :=
  ∃ inner outer,
    f.loops = inner :: outer ∧ n = Builder.breakNode [inner]

/- A break that names no loop stops the innermost one. -/
theorem listsInnermost_of_unnamed
    {targets : List Nat}
    (hTargets :
      Builder.breakTargets s.frame [] = .ok targets) :
    ListsInnermost s.frame (Builder.breakNode targets) := by
  rcases (Builder.mem_of_breakTargets hTargets).2 rfl with
    ⟨inner, outer, hLoops, hTarget⟩
  exact ⟨inner, outer, hLoops, by rw [hTarget]⟩

/-
  A break that stops the innermost loop in the graph of the
  machine lists the innermost loop of the frame.
-/
theorem listsInnermost_of_stops
    {n : Node}
    (hStops : StopsInnermost M.graph N path)
    (hLoops :
      (loopsAround path).map N = s.frame.loops.map some)
    (hNode : N path = some s.graph.nextId)
    (hMade : M.graph.nodes.get? s.graph.nextId = some n) :
    ListsInnermost s.frame n := by
  rcases hStops with
    ⟨id, inner, outer, loop, hPlace, hAround, hInner, hBreak⟩
  rw [hAround, List.map_cons, hInner] at hLoops
  cases hFrame : s.frame.loops with
  | nil =>
      rw [hFrame] at hLoops
      cases hLoops
  | cons first others =>
      rw [hFrame] at hLoops
      injection hLoops with hFirst
      cases hFirst
      cases hPlace.symm.trans hNode
      exact ⟨loop, others, hFrame,
        Option.some.inj (hMade.symm.trans hBreak)⟩

/- A break leaves the innermost loop no more rounds. -/
theorem executes_break
    {n : Node}
    (hReady : s.Ready)
    (hInner :
      M.graph.nodes.get? s.graph.nextId = some n →
        ListsInnermost s.frame n)
    (hNode : N path = some s.graph.nextId) :
    Executes M N ((Meaning.ends .broken).visits path) s
      (s.placed n) := by
  intro hSettled m hPoised
  have hEntered := s.entered_placed n
  have hReach := hEntered.reaches hReady hSettled hPoised.next
  rcases hInner (hSettled.final.nodes hEntered.node) with
    ⟨inner, outer, hLoops, hBreak⟩
  have hOpen := hPoised.loops
  rw [hLoops] at hOpen
  -- The innermost loop of the frame is that of the machine.
  cases hStack : m.stack with
  | nil =>
      rw [hStack] at hOpen
      cases hOpen
  | cons p rest =>
      rcases p with ⟨id, left⟩
      rw [hStack] at hOpen
      rcases List.cons.inj hOpen with ⟨rfl, -⟩
      have hEnter :
          M.enter m s.graph.nextId n =
            ((m.visit s.graph.nextId).withStack
              ((id, 0) :: rest)).goto none := by
        rw [hBreak]
        simp only [enter, Builder.breakNode, hPoised.down,
          hStack]
        rw [← stop_innermost id left rest]
        rfl
      rw [hEnter] at hReach
      refine ⟨_, hReach, rfl, ?_, rfl, ?_, hPoised.down, ?_⟩
      · simp [State.goto, State.withStack, State.visit,
          Meaning.visits, Meaning.ends, hNode]
      · rw [hStack]
        rfl
      · simp [hStack]

/- The machine raises the gate of the function. -/
theorem enter_raiseNode
    {v : Variable}
    (hGate : M.gate = some v)
    (m : State)
    (id : Nat) :
    M.enter m id (Builder.raiseNode v) =
      m.raise.goto (M.follow id 0) := by
  have hRaise :
      M.isRaise (Builder.raiseNode v) = true := by
    simp [isRaise, hGate, Builder.raiseNode, Value.bool]
  exact if_pos hRaise

/- The machine stops all loops once the gate is raised. -/
theorem enter_breakNode
    {m : State}
    (hRaised : m.raised = true)
    (id : Nat) :
    M.enter m id
        (Builder.breakNode (m.stack.map Prod.fst)) =
      (m.withStack (lastRounds m.stack)).goto none := by
  simp only [enter, Builder.breakNode, hRaised, if_true]
  rw [lastRounds, ← stop_all]
  rfl

/-
  Once the gate is raised, all loops around are stopped and
  the chain ends.
-/
theorem reaches_stopped
    {m : State}
    (hReady : s.Ready)
    (hSettled :
      Session.Settled M N s
        (s.withBuilder
          { s.builder.stopped with
            frame :=
              s.builder.stopped.frame.sealPath true }))
    (hNext :
      ∃ e ∈ s.frame.tail, m.next = M.graph.execTarget e)
    (hLoops : m.stack.map Prod.fst = s.frame.loops)
    (hRaised : m.raised = true) :
    M.Reaches m
      ((m.withStack (lastRounds m.stack)).goto none) := by
  cases hIn : s.frame.inLoop with
  | true =>
      have hStopped :
          s.builder.stopped =
            s.builder.placed
              (Builder.breakNode s.frame.loops) :=
        if_pos hIn
      rw [hStopped] at hSettled
      have hPlaced :=
        s.entered_placed (Builder.breakNode s.frame.loops)
      have hEntered :
          s.Entered (Builder.breakNode s.frame.loops)
            (s.withBuilder
              { s.placed (Builder.breakNode s.frame.loops)
                  |>.builder with
                frame :=
                  (s.placed (Builder.breakNode
                    s.frame.loops)).frame.sealPath true }) :=
        ⟨hPlaced.target, hPlaced.node, hPlaced.lt,
          List.forall_mem_nil _⟩
      have hReach := hEntered.reaches hReady hSettled hNext
      rw [← hLoops, enter_breakNode hRaised] at hReach
      exact hReach
  | false =>
      have hStopped : s.builder.stopped = s.builder :=
        if_neg (by simp [hIn])
      rw [hStopped] at hSettled
      rcases hNext with ⟨e, he, hNext⟩
      rw [hSettled.ended hReady rfl rfl he] at hNext
      have hNone : s.frame.loops = [] := by
        simpa [Frame.inLoop] using hIn
      have hStack : m.stack = [] := by
        rw [hNone] at hLoops
        exact List.map_eq_nil_iff.mp hLoops
      have hSame :
          (m.withStack (lastRounds m.stack)).goto none =
            m := by
        rcases m with ⟨next, stack, raised, asked, trace⟩
        cases hNext
        cases hStack
        rfl
      rw [hSame]
      exact .refl

/- A return raises the gate and stops all loops around. -/
theorem executes_return
    (hReady : s.Ready) :
    Executes M N (Meaning.ends .returned) s
      (s.withBuilder s.builder.returned) := by
  intro hSettled m hPoised
  have hGated :
      Session.Leads (fun _ => True) 0 s
        (s.withBuilder s.builder.gated) :=
    Session.leads_withBuilder hReady
      (Builder.advances_gated hReady.builder)
  have hRaised :
      Session.Leads (fun _ => True) 0
        (s.withBuilder s.builder.gated)
        (s.withBuilder s.builder.raised) :=
    Session.leads_withBuilder hGated.ready
      (Builder.advances_placed hGated.ready.builder rfl)
  have hStopped :=
    Builder.advances_stopped hRaised.ready.builder
  have hSealed :
      Session.Leads (fun _ => True) 0
        (s.withBuilder s.builder.raised)
        (s.withBuilder s.builder.returned) :=
    Session.leads_withBuilder hRaised.ready
      (.trans hRaised.ready.builder hStopped
        (Builder.advances_seal hStopped.ready true))
  have hRest := hSettled.second hGated
  have hGate : M.gate = some s.builder.gateOf :=
    hSettled.final.gateKept _ Builder.returned_gate
  have hNext :
      ∃ e ∈ s.builder.gated.frame.tail,
        m.next = M.graph.execTarget e := by
    rw [Builder.gated_tail]
    exact hPoised.next
  have hReach :=
    ((s.withBuilder s.builder.gated).entered_placed
      (Builder.raiseNode s.builder.gateOf)).reaches
        hGated.ready (hRest.first hRaised hSealed) hNext
  rw [enter_raiseNode hGate] at hReach
  have hOpen :
      (⟨s.builder.gated.graph.nextId, 0⟩ : Endpoint) ∈
        s.builder.raised.frame.tail :=
    List.mem_singleton_self _
  have hLoops :
      m.stack.map Prod.fst = s.builder.raised.frame.loops :=
    hPoised.loops.trans Builder.gated_loops.symm
  have hStop :=
    reaches_stopped
      (m := m.raise.goto
        (M.follow s.builder.gated.graph.nextId 0))
      hRaised.ready (hRest.second hRaised)
      ⟨_, hOpen, rfl⟩ hLoops rfl
  refine ⟨_, hReach.trans hStop, rfl, ?_, rfl, rfl, rfl, ?_⟩
  · simp [State.goto, State.withStack, State.raise,
      Meaning.ends]
  · have hReturns :
        s.builder.returned.frame.returns =
          s.frame.returns + 1 :=
      Builder.returned_returns
    exact hReturns ▸ Nat.lt_succ_self _

/- A value is no part of the flow. -/
theorem Action.meaning_of_isData
    {a : Action}
    (h : a.isData = true) :
    a.meaning path = .ends .done := by
  cases a with
  | print input => cases h
  | set name input => cases h
  | placeOfType nodeType args => cases h
  | breakLoop refs => cases h
  | continueLoop => cases h
  | returnNow => cases h
  | _ => rfl

/- The machine runs an action. -/
theorem executes_action
    {bind : Binding}
    {a : Action}
    {r : Result}
    {after : Builder}
    (hReady : s.Ready)
    (hPlain : PlainStmt M.graph N path (.action bind a))
    (hLoops :
      (loopsAround path).map N = s.frame.loops.map some)
    (hActs : a.Acts s.names s.builder r after)
    (hNode : ∀ id, r = .node id → N path = some id) :
    Executes M N (a.meaning path) s (s.withBuilder after) := by
  cases hActs with
  | rests hData =>
      rw [Action.meaning_of_isData hData]
      exact executes_ends rfl
  | adds hData =>
      rw [Action.meaning_of_isData hData]
      exact executes_ends rfl
  | places hCall hExec hShows =>
      exact executes_call hReady hPlain.self hCall hShows
        (hNode _ rfl)
  | breaks hRefs hTargets =>
      refine executes_break hReady (fun hMade => ?_)
        (hNode _ rfl)
      rcases hPlain.breaks _ _ rfl with hNone | hStops
      · rw [hNone] at hRefs
        cases hRefs
        exact listsInnermost_of_unnamed hTargets
      · exact listsInnermost_of_stops hStops hLoops (hNode _ rfl)
          hMade
  | continues hInLoop =>
      exact executes_continue hReady hInLoop
  | returns => exact executes_return hReady
  | declares => cases hPlain.self

end FlowGraph.Script
