import FlowGraph.Proofs.Execution

/-
  The machine runs conditionals and loops.

  A conditional is entered, an answer decides between its
  bodies, and both go on from the join.  A loop is gone back
  to after every round; what a round leaves open is open no
  more, and where a round may return the loop is followed by
  a guard.

  Key definitions include:
    * `FlowGraph.Script.Rounded`

  Key theorems include:
    * `FlowGraph.Script.Executes.enclosed`
    * `FlowGraph.Script.executes_conditional`
    * `FlowGraph.Script.reaches_rounds`
    * `FlowGraph.Script.executes_loop`
-/

------------------------------------------------------------
-- Conditionals
------------------------------------------------------------

namespace FlowGraph.Script

open Machine

variable {H : Nat → Prop} {P : Entry → Prop}
variable {lo lo' : Nat}
variable {M : Machine} {N : Path → Option Nat}
variable {s s' s₁ s₂ a b : Session} {path : Path}
variable {f g : Meaning} {c : Value}

/-
  The machine has entered a construct and goes on with one
  of its bodies, so it does what the body means.
-/
theorem Executes.enclosed
    {id : Nat}
    {m m₀ : State}
    (hf : Executes M N f a b)
    (hSettled : Session.Settled M N s s')
    (hWithin : Session.Within s s' a b)
    (hShares : a.Shares b s'.graph)
    (hBody : Session.Leads P lo a b)
    (hJoin : ∀ e ∈ b.frame.tail, e ∈ s'.frame.tail)
    (hNode : N path = some id)
    (hReach : M.Reaches m m₀)
    (hPoised : a.Poised M m₀)
    (hStack : m₀.stack = m.stack)
    (hTrace : m₀.trace = m.trace ++ [id]) :
    ∃ m', M.Reaches m m' ∧
      Arrives M N s s' m m'
        { f m₀.asked with
          trace := path :: (f m₀.asked).trace } := by
  rcases hf (hSettled.within hWithin hShares hBody) m₀
      hPoised with
    ⟨m', hReach', hArrives⟩
  refine ⟨m', hReach.trans hReach', hArrives.asked, ?_,
    hArrives.lands.widen hWithin.before.returns
      hWithin.after.returns hStack fun _ => hJoin⟩
  rw [hArrives.trace, hTrace]
  simp [hNode]

/- A condition of a script is not the gate. -/
theorem isGuard_of_usable
    (hSane : s.Sane H)
    (hFinal : s.Final M N)
    (hc : c.Usable s.builder.graph (s.builder.Hidden H)) :
    M.isGuard (branchNode c) = false := by
  unfold isGuard
  cases hGate : M.gate with
  | none => rfl
  | some v =>
      apply decide_eq_false
      intro hEq
      have hValue : c = v.value := (List.cons.inj hEq).1
      have hPin : c.pin? = some ⟨v.node, "value", 1⟩ := by
        rw [hValue, Value.pin?, (hFinal.gate v hGate).value_source]
      rcases hc.pin _ hPin with ⟨hShown, n, _, hNode, _⟩
      have hLt := hSane.builder.ordered.below hNode
      rcases hFinal.gateNew v hGate with hOwn | hNew
      · exact hShown (Or.inr ⟨v, hOwn, rfl⟩)
      · exact Nat.not_lt.mpr hNew hLt

/- The machine asks before it takes one of two bodies. -/
theorem enter_branchNode
    (hShown : M.isGuard (branchNode c) = false)
    (m : State)
    (id : Nat) :
    M.enter m id (branchNode c) =
      ((m.visit id).ask).goto
        (M.follow id
          (if M.answer m.asked = 0 then 1 else 0)) := by
  exact if_neg (by simpa using hShown)

/- The machine takes the body that an answer stands for. -/
theorem executes_conditional
    (hReady : s.Ready)
    (hSane : s.Sane H)
    (hc : c.Usable s.builder.graph (s.builder.Hidden H))
    (h₁ :
      Session.Leads P lo
        ((s.placed (branchNode c)).withTail
          [⟨s.graph.nextId, 0⟩]) s₁)
    (h₂ :
      Session.Leads P lo'
        (s₁.withTail [⟨s.graph.nextId, 1⟩]) s₂)
    (hFresh : (s₁.withTail [⟨s.graph.nextId, 1⟩]).Fresh s₂)
    (hf :
      Executes M N f
        ((s.placed (branchNode c)).withTail
          [⟨s.graph.nextId, 0⟩]) s₁)
    (hg :
      Executes M N g (s₁.withTail [⟨s.graph.nextId, 1⟩]) s₂)
    (hNode : N path = some s.graph.nextId) :
    Executes M N
      ((Meaning.asks M.answer fun k =>
        if k = 0 then g else f).visits path) s
      (s₂.withTail
        (joinTails [s₁.frame.tail, s₂.frame.tail])) := by
  intro hSettled m hPoised
  have hWithin₁ :=
    within_first (n := branchNode c) hReady rfl h₂
      mem_join_two
  have hWithin₂ :
      Session.Within s
        (s₂.withTail
          (joinTails [s₁.frame.tail, s₂.frame.tail]))
        (s₁.withTail [⟨s.graph.nextId, 1⟩]) s₂ :=
    within_second hReady rfl h₁ mem_join_two
  have hShown : M.isGuard (branchNode c) = false :=
    isGuard_of_usable hSane
      (hSettled.final.earlier (hWithin₂.before.trans
        (h₂.later.trans hWithin₂.after))) hc
  have hReach :=
    (entered_conditional hReady rfl h₁ h₂
      mem_join_two).reaches hReady hSettled hPoised.next
  rw [enter_branchNode hShown] at hReach
  have hLoops₁ : s₁.frame.loops = s.frame.loops :=
    h₁.builder.loops
  by_cases hAnswer : M.answer m.asked = 0
  · have hPoised₂ :
        (s₁.withTail [⟨s.graph.nextId, 1⟩]).Poised M
          (((m.visit s.graph.nextId).ask).goto
            (M.follow s.graph.nextId 1)) :=
      ⟨⟨_, List.mem_singleton_self _, rfl⟩,
        hPoised.loops.trans hLoops₁.symm, hPoised.down⟩
    rw [if_pos hAnswer] at hReach
    simp only [Meaning.visits, Meaning.asks, if_pos hAnswer]
    exact hg.enclosed hSettled hWithin₂
      (fun _ _ hLink _ => Or.inl hLink) h₂
      (fun e he => (mem_join_two e).mpr (Or.inr he)) hNode
      hReach hPoised₂ rfl rfl
  · have hPoised₁ :
        ((s.placed (branchNode c)).withTail
            [⟨s.graph.nextId, 0⟩]).Poised M
          (((m.visit s.graph.nextId).ask).goto
            (M.follow s.graph.nextId 0)) :=
      ⟨⟨_, List.mem_singleton_self _, rfl⟩, hPoised.loops,
        hPoised.down⟩
    rw [if_neg hAnswer] at hReach
    simp only [Meaning.visits, Meaning.asks, if_neg hAnswer]
    exact hf.enclosed hSettled hWithin₁
      (fun _ _ hLink hLt =>
        Or.inl ((h₂.onward hFresh).old_link hLink hLt)) h₁
      (fun e he => (mem_join_two e).mpr (Or.inl he)) hNode
      hReach hPoised₁ rfl rfl

end FlowGraph.Script

------------------------------------------------------------
-- Rounds
------------------------------------------------------------

namespace FlowGraph.Script

open Machine

/-
  A loop has run its rounds, with a given effect, and goes
  on from its second exec output.  A return has stopped the
  loops around as well.
-/
structure Rounded
    (M : Machine)
    (N : Path → Option Nat)
    (a b : Session)
    (id : Nat)
    (rest : List (Nat × Nat))
    (m m' : State)
    (r : Effect) :
    Prop where
  next : m'.next = M.follow id 1
  asked : m'.asked = r.asked
  trace :
    m'.trace.map some = m.trace.map some ++ r.trace.map N
  ending :
    (r.ending = .done ∧ m'.stack = rest ∧
      m'.raised = false) ∨
    (r.ending = .returned ∧ m'.stack = lastRounds rest ∧
      m'.raised = true ∧
        a.frame.returns < b.frame.returns)

variable {M : Machine} {N : Path → Option Nat}
variable {a b : Session} {id : Nat} {f : Meaning}

/-
  A round that was not ended by a break or a return is
  followed by the other rounds.
-/
theorem Meaning.rounds_succ
    {k asked : Nat}
    (h :
      (f asked).ending = .done ∨
        (f asked).ending = .continued) :
    f.rounds (k + 1) asked = (f.rounds k).after (f asked) := by
  rcases h with h | h <;> simp only [Meaning.rounds, h]

/- The machine runs the rounds of a loop. -/
theorem reaches_rounds
    (hf : Executes M N f a b)
    (hSettled : Session.Settled M N a b)
    (hStart : a.frame.tail = [⟨id, 0⟩])
    (hEnd :
      ∀ e ∈ b.frame.tail, M.graph.execTarget e = none)
    {rest : List (Nat × Nat)}
    (hLoops : a.frame.loops = id :: rest.map Prod.fst)
    (k : Nat)
    {m : State}
    (hNext : m.next = none)
    (hStack : m.stack = (id, k) :: rest)
    (hDown : m.raised = false) :
    ∃ m', M.Reaches m m' ∧
      Rounded M N a b id rest m m'
        (f.rounds k m.asked) := by
  induction k generalizing m with
  | zero =>
      have hReach := reaches_resume (M := M) hNext hStack
      exact ⟨_, hReach, rfl, rfl,
        by simp [resume, State.withStack, State.goto,
          Meaning.rounds, Meaning.ends],
        Or.inl ⟨rfl, rfl, hDown⟩⟩
  | succ k ih =>
      have hReach := reaches_resume (M := M) hNext hStack
      have hPoised :
          a.Poised M
            ((m.withStack ((id, k) :: rest)).goto
              (M.follow id 0)) := by
        refine ⟨⟨⟨id, 0⟩, ?_, rfl⟩, hLoops.symm, hDown⟩
        rw [hStart]
        exact List.mem_singleton_self _
      rcases hf hSettled _ hPoised with
        ⟨m₁, hReach₁, hArrives⟩
      have hLands :
          Lands M a b _ m₁ (f m.asked).ending :=
        hArrives.lands
      have hGo := hReach.trans hReach₁
      -- The round is over and the loop has `k` rounds left.
      have hMore :
          ((f m.asked).ending = .done ∨
            (f m.asked).ending = .continued) →
          m₁.next = none → m₁.stack = (id, k) :: rest →
            m₁.raised = false →
              ∃ m', M.Reaches m m' ∧
                Rounded M N a b id rest m m'
                  (f.rounds (k + 1) m.asked) := by
        intro hEnding hNext₁ hStack₁ hDown₁
        rcases ih hNext₁ hStack₁ hDown₁ with
          ⟨m', hReach', hRounded⟩
        rw [Meaning.rounds_succ hEnding]
        rw [hArrives.asked] at hRounded
        refine ⟨m', hGo.trans hReach', hRounded.next,
          hRounded.asked, ?_, hRounded.ending⟩
        rw [hRounded.trace, hArrives.trace,
          List.append_assoc, ← List.map_append]
        rfl
      cases hEnding : (f m.asked).ending with
      | done =>
          rw [hEnding] at hLands
          rcases hLands with ⟨⟨e, he, hNext₁⟩, hRest⟩
          rw [hEnd e he] at hNext₁
          exact hMore (Or.inl hEnding) hNext₁ hRest.1 hRest.2
      | continued =>
          rw [hEnding] at hLands
          rcases hLands with ⟨hNext₁, hStack₁, hDown₁, _⟩
          exact hMore (Or.inr hEnding) hNext₁ hStack₁ hDown₁
      | broken =>
          rw [hEnding] at hLands
          rcases hLands with ⟨hNext₁, hStack₁, hDown₁, _⟩
          have hLeave :=
            reaches_resume (M := M) hNext₁ hStack₁
          have hMeaning :
              f.rounds (k + 1) m.asked =
                { f m.asked with ending := .done } := by
            simp only [Meaning.rounds, hEnding]
          rw [hMeaning]
          exact ⟨_, hGo.trans hLeave, rfl, hArrives.asked,
            hArrives.trace, Or.inl ⟨rfl, rfl, hDown₁⟩⟩
      | returned =>
          rw [hEnding] at hLands
          rcases hLands with
            ⟨hNext₁, hStack₁, hRaised₁, hReturns⟩
          have hLeave :=
            reaches_resume (M := M) hNext₁ hStack₁
          have hMeaning :
              f.rounds (k + 1) m.asked = f m.asked := by
            simp only [Meaning.rounds, hEnding]
          rw [hMeaning]
          exact ⟨_, hGo.trans hLeave, rfl, hArrives.asked,
            hArrives.trace,
            Or.inr ⟨hEnding, rfl, hRaised₁, hReturns⟩⟩

end FlowGraph.Script

------------------------------------------------------------
-- Loops
------------------------------------------------------------

namespace FlowGraph.Script

open Machine

variable {P P' : Entry → Prop} {lo lo' : Nat}
variable {M : Machine} {N : Path → Option Nat}
variable {s b : Session} {n : Node} {path : Path}
variable {f : Meaning} {names : Names} {m m₁ : State}

/-
  A guard takes the flow on as long as the gate is down, and
  otherwise ends it.
-/
theorem reaches_guard
    (hReady : s.Ready)
    (hSettled :
      Session.Settled M N s
        (s.withBuilder s.builder.guarded))
    (hNext :
      ∃ e ∈ s.frame.tail, m.next = M.graph.execTarget e) :
    M.Reaches m
      (m.goto
        (if m.raised then none
          else M.follow s.builder.gated.graph.nextId 1)) := by
  have hGated :
      Session.Leads (fun _ => True) 0 s
        (s.withBuilder s.builder.gated) :=
    Session.leads_withBuilder hReady
      (Builder.advances_gated hReady.builder)
  have hRest := hSettled.second hGated
  have hPlaced :=
    (s.withBuilder s.builder.gated).entered_placed
      (branchNode s.builder.gateOf.value)
  have hEntered :
      (s.withBuilder s.builder.gated).Entered
        (branchNode s.builder.gateOf.value)
        (s.withBuilder s.builder.guarded) :=
    ⟨hPlaced.target, hPlaced.node, hPlaced.lt,
      List.forall_mem_singleton.mpr (Nat.le_refl _)⟩
  have hNext' :
      ∃ e ∈ s.builder.gated.frame.tail,
        m.next = M.graph.execTarget e := by
    rw [Builder.gated_tail]
    exact hNext
  have hReach := hEntered.reaches hGated.ready hRest hNext'
  -- The guard depends on the gate of the function.
  have hGate : M.gate = some s.builder.gateOf :=
    hSettled.final.gateKept _ Builder.gated_gate
  have hGuard :
      M.isGuard (branchNode s.builder.gateOf.value) =
        true := by
    simp [isGuard, hGate, branchNode]
  have hEnter :
      M.enter m s.builder.gated.graph.nextId
          (branchNode s.builder.gateOf.value) =
        m.goto
          (M.follow s.builder.gated.graph.nextId
            (if m.raised then 0 else 1)) :=
    if_pos hGuard
  -- Its first exec output was never linked.
  have hUnlinked :
      M.follow s.builder.gated.graph.nextId 0 = none := by
    have hOld :
        (⟨s.builder.gated.graph.nextId, 0⟩ : Endpoint) ∉
          s.builder.gated.frame.tail := by
      intro hMem
      exact Nat.lt_irrefl _
        (hGated.ready.builder.tail_lt hMem)
    have hNot :
        (⟨s.builder.gated.graph.nextId, 0⟩ : Endpoint) ∉
          (s.withBuilder s.builder.guarded).frame.tail := by
      intro hMem
      cases List.mem_singleton.mp hMem
    rw [follow, hRest.links _ (Or.inl (Nat.le_refl _))
      (Nat.lt_succ_self _) hNot]
    exact (Graph.execTarget_attach_of_not_mem hOld).trans
      (hGated.ready.builder.wf.execTarget_fresh
        (Nat.le_refl _))
  rw [show (s.withBuilder s.builder.gated).graph.nextId =
    s.builder.gated.graph.nextId from rfl, hEnter] at hReach
  cases hRaised : m.raised with
  | true =>
      rw [hRaised, if_pos rfl, hUnlinked] at hReach
      exact hReach
  | false =>
      rw [hRaised, if_neg Bool.false_ne_true] at hReach
      exact hReach

/- The machine enters a loop and runs its rounds. -/
theorem reaches_loop
    (hReady : s.Ready)
    (hExec : n.nodeClass = .exec)
    (hBody :
      Session.Leads P lo
        (((s.placed n).inRound s.graph.nextId).withNames names)
        b)
    (hAfter :
      Session.Leads P' lo' s (b.afterRounds s.graph.nextId))
    (hf :
      Executes M N f
        (((s.placed n).inRound s.graph.nextId).withNames names)
        b)
    (hSettled : Session.Settled M N s (s.afterLoop b))
    (hEnter :
      ∀ m, M.enter m s.graph.nextId n =
        (((m.visit s.graph.nextId).ask).withStack
          ((s.graph.nextId, M.answer m.asked) ::
            m.stack)).goto none)
    (hPoised : s.Poised M m) :
    ∃ m', M.Reaches m m' ∧
      Rounded M N
        (((s.placed n).inRound s.graph.nextId).withNames names)
        b s.graph.nextId m.stack (m.visit s.graph.nextId) m'
        (f.rounds (M.answer m.asked) (m.asked + 1)) := by
  rcases within_loop hReady hExec hBody hAfter.ready with
    ⟨hWithin, hDropped⟩
  have hShares :
      Session.Shares
        (((s.placed n).inRound s.graph.nextId).withNames names)
        b (s.afterLoop b).graph :=
    fun _ _ hLink hLt => Or.inl
      ((onward_afterLoop hAfter.ready).old_link hLink hLt)
  have hReach :=
    (entered_loop hReady hExec hBody hAfter.ready).reaches
      hReady hSettled hPoised.next
  rw [hEnter] at hReach
  have hLoops :
      (s.placed n |>.inRound s.graph.nextId).frame.loops =
        s.graph.nextId :: m.stack.map Prod.fst := by
    rw [hPoised.loops]
    rfl
  have hRounds :=
    reaches_rounds
      (m := (((m.visit s.graph.nextId).ask).withStack
        ((s.graph.nextId, M.answer m.asked) ::
          m.stack)).goto none)
      hf (hSettled.within hWithin hShares hBody) rfl
      (fun e he =>
        hSettled.dropped (hWithin.encloses hShares) hBody he
          (hDropped e he))
      hLoops (M.answer m.asked) rfl rfl hPoised.down
  rcases hRounds with ⟨m', hReach', hRounded⟩
  exact ⟨m', hReach.trans hReach', hRounded.next,
    hRounded.asked, hRounded.trace, hRounded.ending⟩

/-
  After the rounds the machine goes on where the script does.
  Where a round may return, a guard comes in between.
-/
theorem reaches_afterLoop
    {a : Session}
    {m₀ : State}
    {r : Effect}
    (hAfter :
      Session.Leads P lo s (b.afterRounds s.graph.nextId))
    (hSettled : Session.Settled M N s (s.afterLoop b))
    (hRounded :
      Rounded M N a b s.graph.nextId m.stack m₀ m₁ r)
    (hReturns : a.frame.returns = s.frame.returns) :
    ∃ m', M.Reaches m₁ m' ∧ m'.asked = m₁.asked ∧
      m'.trace = m₁.trace ∧
        Lands M s (s.afterLoop b) m m' r.ending := by
  have hOpen :
      (⟨s.graph.nextId, 1⟩ : Endpoint) ∈
        (b.afterRounds s.graph.nextId).frame.tail :=
    List.mem_singleton_self _
  by_cases hMore : s.frame.returns < b.frame.returns
  · have hEnd : s.afterLoop b = _ := if_pos hMore
    rw [hEnd] at hSettled ⊢
    have hReach :=
      reaches_guard hAfter.ready (hSettled.second hAfter)
        ⟨_, hOpen, hRounded.next⟩
    refine ⟨_, hReach, rfl, rfl, ?_⟩
    rcases hRounded.ending with hDone | hReturned
    · rw [hDone.1, hDone.2.2, if_neg Bool.false_ne_true]
      exact ⟨⟨_, List.mem_singleton_self _, rfl⟩, hDone.2.1,
        hDone.2.2⟩
    · rcases hReturned with ⟨hEnding, hStack, hRaised, _⟩
      rw [hEnding, hRaised, if_pos rfl]
      exact ⟨rfl, hStack, hRaised, Nat.lt_of_lt_of_le hMore
        (advances_guarded hAfter.ready.builder).returns⟩
  · have hEnd : s.afterLoop b = _ := if_neg hMore
    rw [hEnd]
    refine ⟨m₁, .refl, rfl, rfl, ?_⟩
    rcases hRounded.ending with hDone | hReturned
    · rw [hDone.1]
      exact ⟨⟨_, hOpen, hRounded.next⟩, hDone.2⟩
    · exact absurd (hReturns ▸ hReturned.2.2.2) hMore

/- The machine runs a loop. -/
theorem executes_loop
    (hReady : s.Ready)
    (hExec : n.nodeClass = .exec)
    (hBody :
      Session.Leads P lo
        (((s.placed n).inRound s.graph.nextId).withNames names)
        b)
    (hAfter :
      Session.Leads P' lo' s (b.afterRounds s.graph.nextId))
    (hf :
      Executes M N f
        (((s.placed n).inRound s.graph.nextId).withNames names)
        b)
    (hEnter :
      ∀ m, M.enter m s.graph.nextId n =
        (((m.visit s.graph.nextId).ask).withStack
          ((s.graph.nextId, M.answer m.asked) ::
            m.stack)).goto none)
    (hNode : N path = some s.graph.nextId) :
    Executes M N
      ((Meaning.asks M.answer f.rounds).visits path) s
      (s.afterLoop b) := by
  intro hSettled m hPoised
  rcases reaches_loop hReady hExec hBody hAfter hf hSettled
      hEnter hPoised with
    ⟨m₁, hReach₁, hRounded⟩
  rcases reaches_afterLoop hAfter hSettled hRounded rfl with
    ⟨m', hReach₂, hAsked, hTrace, hLands⟩
  refine ⟨m', hReach₁.trans hReach₂,
    hAsked.trans hRounded.asked, ?_, hLands⟩
  rw [hTrace, hRounded.trace]
  simp [State.visit, Meaning.visits, Meaning.asks, hNode]

/- The node of a loop asks for the number of its rounds. -/
theorem enter_loopNode
    {st : Stmt}
    {bind : Binding}
    {body : List Stmt}
    {value : Nat → Value}
    (h : st.Repeats names bind body n value)
    (m : State)
    (id : Nat) :
    M.enter m id n =
      (((m.visit id).ask).withStack
        ((id, M.answer m.asked) :: m.stack)).goto none := by
  cases h with
  | range _ _ _ _ => rfl
  | items _ _ => rfl

end FlowGraph.Script
