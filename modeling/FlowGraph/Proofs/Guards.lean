import FlowGraph.Proofs.Persistence

/-
  Guards after loops.

  A return inside of a loop raises the gate of its function
  and stops the loops around it, so each of these loops is
  followed by a guard that asks the gate.  Whether a body
  returns is read off the counter of the frame, which grows
  exactly when there is a return in the text of the body.

  Key definitions include:
    * `FlowGraph.Script.Returns`
    * `FlowGraph.Script.Session.Counts`

  Key theorems include:
    * `FlowGraph.Script.counts_returns`
    * `FlowGraph.Script.loop_guarded`
-/

------------------------------------------------------------
-- Returns In The Text
------------------------------------------------------------

namespace FlowGraph.Script

/-
  There is a return in a block, at any depth, but not in a
  function inside of the block.
-/
def Returns
    (block : List Stmt) :
    Prop :=
  ∃ below bind,
    find? block below = some (.action bind .returnNow) ∧
      Segment.function ∉ below

variable {block rest : List Stmt} {st : Stmt}

theorem not_returns_nil :
    ¬Returns [] := by
  rintro ⟨below, bind, hFind, _⟩
  rcases statement_of_find? hFind with ⟨j, tail, hEq⟩
  rw [hEq] at hFind
  cases tail <;> simp [find?] at hFind

theorem returns_cons :
    Returns (st :: rest) ↔ Returns [st] ∨ Returns rest := by
  constructor
  · rintro ⟨below, bind, hFind, hOwn⟩
    rcases statement_of_find? hFind with ⟨j, tail, hEq⟩
    rw [hEq] at hFind hOwn
    cases j with
    | zero =>
        rw [find?_cons_zero] at hFind
        exact Or.inl ⟨_, bind, hFind, hOwn⟩
    | succ j =>
        rw [find?_cons_succ] at hFind
        exact Or.inr ⟨_, bind, hFind, by simpa using hOwn⟩
  · rintro (⟨below, bind, hFind, hOwn⟩ |
      ⟨below, bind, hFind, hOwn⟩)
    · rcases statement_of_find? hFind with ⟨j, tail, hEq⟩
      rw [hEq] at hFind hOwn
      cases j with
      | zero =>
          exact ⟨_, bind, (find?_cons_zero tail).trans hFind,
            hOwn⟩
      | succ j =>
          rw [find?_cons_succ] at hFind
          exact absurd ⟨_, bind, hFind, by simpa using hOwn⟩
            not_returns_nil
    · rcases statement_of_find? hFind with ⟨j, tail, hEq⟩
      rw [hEq] at hFind hOwn
      exact ⟨_, bind, (find?_cons_succ j tail).trans hFind,
        by simpa using hOwn⟩

/- A statement returns itself, or in one of its bodies. -/
theorem returns_singleton :
    Returns [st] ↔
      (∃ bind, st = .action bind .returnNow) ∨
        ∃ segment body, segment ≠ .function ∧
          st.body? segment = some body ∧ Returns body := by
  constructor
  · rintro ⟨below, bind, hFind, hOwn⟩
    unfold find? at hFind
    split at hFind
    · rename_i j
      cases j with
      | zero => exact Or.inl ⟨bind, Option.some.inj hFind⟩
      | succ j => cases hFind
    · rename_i j segment tail
      split at hFind
      · rename_i body hBody
        rcases Option.bind_eq_some_iff.mp hBody with
          ⟨st', hSt, hBody⟩
        cases j with
        | zero =>
            cases hSt
            simp only [List.mem_cons, not_or] at hOwn
            exact Or.inr ⟨segment, body,
              fun hEq => hOwn.2.1 hEq.symm, hBody, tail, bind,
              hFind, hOwn.2.2⟩
        | succ j => cases hSt
      · cases hFind
    · cases hFind
  · rintro (⟨bind, hEq⟩ |
      ⟨segment, body, hSame, hBody, below, bind, hFind, hOwn⟩)
    · exact ⟨[.statement 0], bind, by rw [hEq]; rfl, by simp⟩
    · refine ⟨.statement 0 :: segment :: below, bind, ?_, ?_⟩
      · rw [find?]
        simp only [List.getElem?_cons_zero, Option.bind_some,
          hBody]
        exact hFind
      · simp only [List.mem_cons, not_or]
        exact ⟨by simp, fun hEq => hSame hEq.symm, hOwn⟩

end FlowGraph.Script

------------------------------------------------------------
-- The Counter Of Returns
------------------------------------------------------------

namespace FlowGraph.Script

/-
  The counter of returns has grown exactly if there was a
  return.  A return leaves a gate behind.
-/
structure Session.Counts
    (returns : Prop)
    (s s' : Session) :
    Prop where
  grown : s.frame.returns < s'.frame.returns ↔ returns
  gate : returns → ∃ v, s'.frame.gate = some v

variable {script block : List Stmt} {path : Path}
variable {st : Stmt} {s s₁ : Session}
variable {a b : Segment → Session} {r : Result}

/- A return that an action makes. -/
theorem Action.Acts.counts
    {act : Action}
    {before after : Builder}
    {names : Names}
    (h : act.Acts names before r after) :
    (before.frame.returns < after.frame.returns ↔
        act = .returnNow) ∧
      (act = .returnNow → ∃ v, after.frame.gate = some v) := by
  have hRests :
      ∀ {n m : Nat} {act : Action} {gate : Option Variable},
        m = n → act ≠ .returnNow →
          (n < m ↔ act = .returnNow) ∧
            (act = .returnNow → ∃ v, gate = some v) := by
    intro n m act gate hEq hOther
    refine ⟨⟨fun hLt => ?_, fun hIs => absurd hIs hOther⟩,
      fun hIs => absurd hIs hOther⟩
    omega
  cases h with
  | rests hData =>
      exact hRests rfl (by rintro rfl; cases hData)
  | adds hData =>
      exact hRests rfl (by rintro rfl; cases hData)
  | places hCall hExec hShows =>
      exact hRests rfl (by rintro rfl; cases hCall)
  | breaks hLoops hTargets => exact hRests rfl nofun
  | continues hInLoop => exact hRests rfl nofun
  | declares => exact hRests Builder.gated_returns nofun
  | returns =>
      rw [Builder.returned_returns]
      refine ⟨⟨fun _ => rfl, fun _ => Nat.lt_succ_self _⟩,
        fun _ => ⟨before.gateOf, ?_⟩⟩
      unfold Builder.returned Builder.stopped
      split
      · exact Builder.gated_gate
      · exact Builder.gated_gate

/- What runs on when a loop is over was counted before. -/
theorem returns_afterLoop
    (s b : Session) :
    (s.afterLoop b).frame.returns = b.frame.returns := by
  unfold Session.afterLoop
  split
  · exact Builder.gated_returns
  · rfl

/- The counter stays if it stays in all bodies. -/
theorem Unfolds.returns_eq
    (h : Unfolds script path s a b st r s₁)
    (hOther : ∀ bind, st ≠ .action bind .returnNow)
    (hBodies :
      ∀ segment body, segment ≠ .function →
        st.body? segment = some body →
          (b segment).frame.returns =
            (a segment).frame.returns) :
    s₁.frame.returns = s.frame.returns := by
  cases h with
  | @action bind act _ after hActs =>
      have hCounts := hActs.counts.1
      have hLe : s.frame.returns ≤ after.frame.returns := by
        cases hActs with
        | returns => exact absurd rfl (hOther bind)
        | declares =>
            exact Nat.le_of_eq Builder.gated_returns.symm
        | _ => exact Nat.le_refl _
      have hNot : ¬s.frame.returns < after.frame.returns := by
        intro hLt
        rw [hCounts.mp hLt] at hOther
        exact hOther bind rfl
      exact Nat.le_antisymm (Nat.not_lt.mp hNot) hLe
  | function hStart hBody => rfl
  | conditional hDecides hFirst hThen hSecond hReady hElse =>
      have hThenEq :=
        hBodies .thenBody _ nofun hDecides.bodies.1
      have hElseEq :
          (b .elseBody).frame.returns =
            (a .elseBody).frame.returns := by
        cases hDecides with
        | ifThen hEval =>
            exact congrArg (fun d : Session => d.frame.returns)
              hElse
        | ifElse hEval =>
            exact hBodies .elseBody _ nofun rfl
      calc (b .elseBody).frame.returns
          = (a .elseBody).frame.returns := hElseEq
        _ = (b .thenBody).frame.returns := by
            rw [hSecond]
            rfl
        _ = (a .thenBody).frame.returns := hThenEq
        _ = s.frame.returns := by
            rw [hFirst]
            rfl
  | switch hEval hAssembled hArms hBodiesRan =>
      rcases hAssembled.same with ⟨after, hSame, hEnd⟩
      have hArmsEq :=
        (hArms.induct
          (fun d => d.frame.returns = s.frame.returns)
          (fun _ _ hEq => hEq) ?_ rfl).2
      · rw [hEnd]
        exact (congrArg Frame.returns hSame.frame).trans hArmsEq
      · intro j run hArm hEq
        rcases body_preparedSwitch _ _ hArm rfl with
          ⟨body, hBody, _⟩
        refine (hBodies (armSegment j) body ?_ hBody).trans hEq
        cases j <;> nofun
  | loop hRepeats hStart hBody =>
      rw [returns_afterLoop,
        hBodies .loopBody _ nofun hRepeats.body.1, hStart]
      rfl

/- Statements and blocks count the returns in their text. -/
theorem counts_returns
    (script : List Stmt) :
    (∀ st path s s', StmtRan script path st s s' →
      Session.Counts (Returns [st]) s s') ∧
      ∀ block path i s s',
        BlockRan script path i block s s' →
          Session.Counts (Returns block) s s' := by
  apply ran_induction script
  · intro path st s a b r s₁ hRan hUnfolds hBodies
    have hReady := hRan.ready
    have hReturns :
        Returns [st] → s.frame.returns < s₁.frame.returns ∧
          ∃ v, s₁.frame.gate = some v := by
      intro hReturns
      rcases returns_singleton.mp hReturns with
        ⟨bind, hEq⟩ | ⟨segment, body, hSame, hBody, hInner⟩
      · cases hUnfolds with
        | action hActs =>
            cases hEq
            exact ⟨hActs.counts.1.mpr rfl, hActs.counts.2 rfl⟩
        | conditional hDecides =>
            cases hEq
            cases hDecides
        | loop hRepeats =>
            cases hEq
            cases hRepeats
        | _ => cases hEq
      · have hWithin :=
          (hUnfolds.within hReady hBody hSame).1
        have hBefore : s.frame.returns ≤
            (a segment).frame.returns := hWithin.before.returns
        have hAfter := hWithin.after.returns
        have hCounts := hBodies segment body hBody
        have hGrown :
            (a segment).frame.returns <
              (b segment).frame.returns :=
          hCounts.grown.mpr hInner
        rcases hCounts.gate hInner with ⟨v, hv⟩
        exact ⟨by omega, v, hWithin.after.gateKept v hv⟩
    refine ⟨⟨?_, fun h => (hReturns h).1⟩,
      fun h => (hReturns h).2⟩
    intro hGrown
    refine Classical.byContradiction fun hNone => ?_
    rw [returns_singleton, not_or, not_exists] at hNone
    have hSame :
        s₁.frame.returns = s.frame.returns := by
      refine hUnfolds.returns_eq hNone.1 ?_
      intro segment body hSegment hBody
      have hCounts := hBodies segment body hBody
      have hNot :
          ¬(a segment).frame.returns <
            (b segment).frame.returns := by
        intro hLt
        exact hNone.2 ⟨segment, body, hSegment, hBody,
          hCounts.grown.mp hLt⟩
      have hLe :
          (a segment).frame.returns ≤
            (b segment).frame.returns :=
        (hUnfolds.body hBody).leads.later.returns
      omega
    exact Nat.lt_irrefl _ (hSame ▸ hGrown)
  · intro path i s hReady
    exact ⟨⟨fun hLt => absurd hLt (Nat.lt_irrefl _),
      fun hNone => absurd hNone not_returns_nil⟩,
      fun hNone => absurd hNone not_returns_nil⟩
  · intro path i st rest s s₁ s₂ hFirst hRest hStmt hBlock
    have hLe₁ : s.frame.returns ≤ s₁.frame.returns :=
      hFirst.leads.later.returns
    have hLater := hRest.leads.later
    have hLe₂ : s₁.frame.returns ≤ s₂.frame.returns :=
      hLater.returns
    refine ⟨?_, ?_⟩
    · rw [returns_cons, ← hStmt.grown, ← hBlock.grown]
      omega
    · intro hReturns
      rcases returns_cons.mp hReturns with hHere | hThere
      · rcases hStmt.gate hHere with ⟨v, hv⟩
        exact ⟨v, hLater.gateKept v hv⟩
      · exact hBlock.gate hThere

end FlowGraph.Script

------------------------------------------------------------
-- What Follows A Loop
------------------------------------------------------------

namespace FlowGraph.Script

variable {s : Session}

/- The guard asks the gate that was declared. -/
theorem guarded_of_gate
    {b : Builder}
    {v : Variable}
    (h : b.frame.gate = some v) :
    b.guarded =
      { b.placed (branchNode v.value) with
        frame := b.frame.linkFrom b.graph.nextId 1 } := by
  have hGated : b.gated = b := by
    unfold Builder.gated
    rw [h]
  have hGate : b.gateOf = v := by
    unfold Builder.gateOf
    rw [h]
    rfl
  unfold Builder.guarded
  rw [hGated, hGate]

/- What is there after a loop whose body returns. -/
theorem guard_afterLoop
    {b : Session}
    {v : Variable}
    (hReady : (b.afterRounds s.graph.nextId).Ready)
    (hMore : s.frame.returns < b.frame.returns)
    (hGate : b.frame.gate = some v) :
    (s.afterLoop b).frame.gate = some v ∧
      (s.afterLoop b).graph =
        b.graph.attach (branchNode v.value)
          [⟨s.graph.nextId, 1⟩] ∧
      (s.afterLoop b).frame.tail = [⟨b.graph.nextId, 1⟩] ∧
      (s.afterLoop b).graph.execTarget
        ⟨b.graph.nextId, 0⟩ = none := by
  have hBuilder :
      (s.afterLoop b).builder =
        { (b.afterRounds s.graph.nextId).builder.placed
            (branchNode v.value) with
          frame :=
            (b.afterRounds s.graph.nextId).frame.linkFrom
              b.graph.nextId 1 } := by
    unfold Session.afterLoop
    rw [if_pos hMore]
    exact guarded_of_gate hGate
  unfold Session.graph Session.frame
  rw [hBuilder]
  refine ⟨hGate, rfl, rfl, ?_⟩
  have hUnused :
      b.graph.execTarget ⟨b.graph.nextId, 0⟩ = none :=
    hReady.builder.wf.execTarget_fresh (Nat.le_refl _)
  refine (Graph.execTarget_attach_of_not_mem ?_).trans hUnused
  intro hMem
  injection List.mem_singleton.mp hMem with _ hIndex
  cases hIndex

/-
  The links of the guard are final.  The loop leads to it, and
  the side on which the gate is raised leads nowhere.
-/
theorem links_afterLoop
    {b : Session}
    {v : Variable}
    {path : Path}
    {bind : Binding}
    {r : Result}
    {g : Graph}
    (hReady : (b.afterRounds s.graph.nextId).Ready)
    (hMore : s.frame.returns < b.frame.returns)
    (hGate : b.frame.gate = some v)
    (hFrozen :
      s.Frozen ((s.afterLoop b).finish path bind r) g) :
    g.execTarget ⟨s.graph.nextId, 1⟩ =
        some b.graph.nextId ∧
      g.execTarget ⟨b.graph.nextId, 0⟩ = none := by
  rcases guard_afterLoop hReady hMore hGate with
    ⟨_, hGuard, hTail, hRaised⟩
  have hLt : s.graph.nextId < b.graph.nextId :=
    hReady.builder.tail_lt List.mem_cons_self
  have hMade :
      (s.afterLoop b).graph.nextId = b.graph.nextId + 1 :=
    congrArg Graph.nextId hGuard
  -- Only the lowered side of the guard is left open.
  have hSame :
      ∀ x : Endpoint, s.graph.nextId ≤ x.node →
        x.node ≤ b.graph.nextId →
          x ≠ ⟨b.graph.nextId, 1⟩ →
            g.execTarget x =
              (s.afterLoop b).graph.execTarget x := by
    intro x hNew hOld hNe
    refine hFrozen x (Or.inl hNew) ?_ ?_
    · exact hMade ▸ Nat.lt_succ_of_le hOld
    · intro hMem
      rw [show ((s.afterLoop b).finish path bind r).frame.tail =
        _ from hTail] at hMem
      exact hNe (List.mem_singleton.mp hMem)
  have hOther :
      (⟨s.graph.nextId, 1⟩ : Endpoint) ≠
        ⟨b.graph.nextId, 1⟩ :=
    fun hEq => Nat.ne_of_lt hLt (congrArg Endpoint.node hEq)
  rw [hSame ⟨s.graph.nextId, 1⟩ (Nat.le_refl _)
      (Nat.le_of_lt hLt) hOther,
    hSame ⟨b.graph.nextId, 0⟩ (Nat.le_of_lt hLt)
      (Nat.le_refl _) (by simp)]
  exact ⟨hGuard ▸
    Graph.execTarget_attach_of_mem List.mem_cons_self,
    hRaised⟩

end FlowGraph.Script

------------------------------------------------------------
-- Guarded Loops
------------------------------------------------------------

namespace FlowGraph.Script

/-
  A loop is followed by a guard exactly if there is a return
  in its body.  The guard is the only node that comes between
  the body and the entry about the loop.  The way on from the
  loop leads to it, and nothing is ever linked to the side on
  which the gate is raised.
-/
theorem loop_guarded
    (name : String)
    (config : Config)
    (script : List Stmt)
    (hScript : structured script = true)
    (hOk :
      ∀ e ∈ (run name config script).entries,
        e.event.isFailure = false)
    (path : Path)
    (st : Stmt)
    (body : List Stmt)
    (hFind : find? script path = some st)
    (hBody : st.body? .loopBody = some body) :
    ∃ before last e after loop,
      (run name config script).entries =
          before ++ last :: e :: after ∧
        path ++ [.loopBody] <+: last.path ∧
        e.path = path ∧
        e.event = .finished (.node loop) ∧
        (Returns body →
          ∃ gate,
            e.frame.gate = some gate ∧
              gate.value =
                ⟨.bool, .pin ⟨gate.node, "value", 1⟩⟩ ∧
              e.graph.nextId = last.graph.nextId + 1 ∧
              e.graph.nodes.get? last.graph.nextId =
                some ⟨.exec, "double_branch", [gate.value], 2,
                  []⟩ ∧
              e.frame.tail = [⟨last.graph.nextId, 1⟩] ∧
              ∀ g ∈ (run name config script).graphsFrom
                  (e :: after),
                g.execTarget ⟨loop, 1⟩ =
                    some last.graph.nextId ∧
                  g.execTarget ⟨last.graph.nextId, 0⟩ =
                    none) ∧
        (¬Returns body →
          e.graph = last.graph ∧
            e.frame.tail = [⟨loop, 1⟩]) := by
  have hRuns : st.begins = false := by
    cases st with
    | action bind act => cases hBody
    | _ => rfl
  rcases located_of_ok hScript hOk hFind hRuns with
    ⟨s, s', hLocated⟩
  rcases hLocated.entry (nodup_journal name config script) with
    ⟨a, b, r, s₁, e, after, hUnfolds, hEnd, hEntry, hEntries,
      hFrozen⟩
  have hReady := hLocated.ran.ready
  have hRan := hUnfolds.body hBody
  rcases hUnfolds.afterLoop hBody with
    ⟨_, _, _, hRepeats, hStart, hResult, hAfterLoop⟩
  have hLeads := hRan.leads
  rw [hStart] at hLeads
  have hOver := (leads_rounds hReady hRepeats hLeads).ready
  have hReturns :
      (a .loopBody).frame.returns = s.frame.returns := by
    rw [hStart]
    rfl
  have hCounts :=
    (counts_returns script).2 _ _ _ _ _ hRan
  rcases hRan.entries with
    ⟨during, last, hDuring, hInside, _, hFinal, hLast⟩
  rcases List.getLast?_eq_some_iff.mp hFinal with
    ⟨earlier, hEarlier⟩
  have hLastGraph : last.graph = (b .loopBody).graph :=
    congrArg Builder.graph hLast
  have hGraph :
      e.graph = (s.afterLoop (b .loopBody)).graph := by
    rw [hEntry, hAfterLoop]
  have hFrame :
      e.frame = (s.afterLoop (b .loopBody)).frame := by
    rw [hEntry, hAfterLoop]
    rfl
  refine ⟨(a .loopBody).entries ++ earlier, last, e, after,
    s.graph.nextId, ?_,
    hInside last (List.mem_of_getLast? hFinal),
    by rw [hEntry], by rw [hEntry, hResult], ?_, ?_⟩
  · rw [hEntries, Session.entries, hAfterLoop,
      journal_afterLoop, ← Session.entries, hDuring, hEarlier]
    simp
  · intro hIn
    rcases hCounts.gate hIn with ⟨v, hGate⟩
    have hMore :
        s.frame.returns < (b .loopBody).frame.returns := by
      rw [← hReturns]
      exact hCounts.grown.mpr hIn
    rcases guard_afterLoop hOver hMore hGate with
      ⟨hKept, hGuard, hTail, _⟩
    rw [hFrame, hGraph, hLastGraph, hTail]
    refine ⟨v, hKept, hOver.builder.gate_value hGate,
      congrArg Graph.nextId hGuard,
      hGuard ▸ Graph.get?_attach_self, rfl, ?_⟩
    intro g hg
    rw [hEnd, hAfterLoop] at hFrozen
    exact links_afterLoop hOver hMore hGate (hFrozen g hg)
  · intro hNone
    have hSame :
        ¬s.frame.returns < (b .loopBody).frame.returns := by
      rw [← hReturns]
      exact fun hLt => hNone (hCounts.grown.mp hLt)
    rw [hGraph, hFrame, hLastGraph]
    unfold Session.afterLoop
    rw [if_neg hSame]
    exact ⟨rfl, rfl⟩

/- The loop around a switch that returns has a guard. -/
theorem guard_follows_shared_return :
    structured sharedReturn = true ∧
      (∀ e ∈ (run "demo" .default sharedReturn).entries,
        e.event.isFailure = false) ∧
      ∃ before last e after loop gate,
        (run "demo" .default sharedReturn).entries =
            before ++ last :: e :: after ∧
          e.path = [.statement 1] ∧
          e.event = .finished (.node loop) ∧
          e.frame.gate = some gate ∧
          gate.value =
            ⟨.bool, .pin ⟨gate.node, "value", 1⟩⟩ ∧
          e.graph.nodes.get? last.graph.nextId =
            some ⟨.exec, "double_branch", [gate.value], 2,
              []⟩ ∧
          e.frame.tail = [⟨last.graph.nextId, 1⟩] ∧
          ∀ g ∈ (run "demo" .default sharedReturn).graphsFrom
              (e :: after),
            g.execTarget ⟨loop, 1⟩ = some last.graph.nextId ∧
              g.execTarget ⟨last.graph.nextId, 0⟩ =
                none := by
  have hScript : structured sharedReturn = true := by
    decide
  have hOk :
      ∀ e ∈ (run "demo" .default sharedReturn).entries,
        e.event.isFailure = false := by
    decide +kernel
  have hGuarded :=
    loop_guarded "demo" .default sharedReturn hScript hOk
      [.statement 1] _ _ rfl rfl
  rcases hGuarded with
    ⟨before, last, e, after, loop, hEntries, _, hPath, hEvent,
      hReturns, _⟩
  rcases hReturns
      ⟨[.statement 0, .case 0, .statement 1], .none, rfl,
        by decide⟩ with
    ⟨gate, hGate, hValue, _, hNode, hTail, hLinks⟩
  exact ⟨hScript, hOk, before, last, e, after, loop, gate,
    hEntries, hPath, hEvent, hGate, hValue, hNode, hTail,
    hLinks⟩

end FlowGraph.Script
