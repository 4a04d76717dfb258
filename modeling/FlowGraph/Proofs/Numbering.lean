import FlowGraph.Proofs.Persistence

/-
  Every statement yields a node of its own.

  A statement that yields a node yields the next one, before
  its bodies are run.  The nodes that its bodies yield come
  later, so a node tells which statement has yielded it.

  Key definitions include:
    * `FlowGraph.Script.Session.Numbered`

  Key theorems include:
    * `FlowGraph.Script.Unfolds.yields`
    * `FlowGraph.Script.numbered_ran`
    * `FlowGraph.Script.place_of_node`
-/

------------------------------------------------------------
-- Numbered Entries
------------------------------------------------------------

namespace FlowGraph.Script

/-
  No two entries tell of the same node, and all of them tell
  of nodes of the graph.
-/
structure Session.Numbered
    (s : Session) :
    Prop where
  below :
    ∀ e ∈ s.journal, ∀ id, e.node? = some id →
      id < s.graph.nextId
  distinct :
    ∀ d ∈ s.journal, ∀ e ∈ s.journal, ∀ id,
      d.node? = some id → e.node? = some id → d = e

namespace Session

variable {P : Entry → Prop} {lo : Nat}
variable {s s' : Session} {path : Path}

theorem numbered_new
    (name : String)
    (config : Config) :
    (Session.new name config).Numbered := by
  constructor
  · intro e he
    cases he
  · intro d hd
    cases hd

/- The graph has grown and nothing was written. -/
theorem Numbered.of_journal
    (h : s.Numbered)
    (hJournal : s'.journal = s.journal)
    (hLe : s.graph.nextId ≤ s'.graph.nextId) :
    s'.Numbered := by
  constructor
  · intro e he id hNode
    rw [hJournal] at he
    exact Nat.lt_of_lt_of_le (h.below e he id hNode) hLe
  · rw [hJournal]
    exact h.distinct

/- An entry is written about a node of its own, if any. -/
theorem Numbered.record
    (h : s.Numbered)
    {event : Event}
    (hNew :
      ∀ id, event = .finished (.node id) →
        id < s.graph.nextId ∧
          ∀ e ∈ s.journal, e.node? ≠ some id) :
    (s.record path event).Numbered := by
  have hOwn :
      ∀ id, Entry.node? ⟨path, s.builder, event⟩ = some id →
        event = .finished (.node id) := by
    intro id hNode
    unfold Entry.node? at hNode
    split at hNode
    · rename_i hEvent
      cases hNode
      exact hEvent
    · cases hNode
  constructor
  · intro e he id hNode
    rcases List.mem_cons.mp he with hEq | he
    · rw [hEq] at hNode
      exact (hNew id (hOwn id hNode)).1
    · exact h.below e he id hNode
  · intro d hd e he id hNode hNode'
    rcases List.mem_cons.mp hd with hEq | hd
    · rcases List.mem_cons.mp he with hEq' | he
      · rw [hEq, hEq']
      · rw [hEq] at hNode
        exact absurd hNode'
          ((hNew id (hOwn id hNode)).2 e he)
    · rcases List.mem_cons.mp he with hEq' | he
      · rw [hEq'] at hNode'
        exact absurd hNode
          ((hNew id (hOwn id hNode')).2 d hd)
      · exact h.distinct d hd e he id hNode hNode'

/- What was written on the way tells of nodes from `lo` on. -/
theorem Leads.told_node
    (h : Leads P lo s s')
    {e : Entry}
    (he : e ∈ s'.journal) :
    e ∈ s.journal ∨ ∀ id, e.node? = some id → lo ≤ id := by
  rcases h.journal with ⟨news, hJournal, hNews⟩
  rw [hJournal] at he
  rcases List.mem_append.mp he with hNew | hOld
  · refine Or.inr fun id hNode => ?_
    unfold Entry.node? at hNode
    split at hNode
    · rename_i hEvent
      cases hNode
      exact hNews.finished e hNew id hEvent
    · cases hNode
  · exact Or.inl hOld

end Session

end FlowGraph.Script

------------------------------------------------------------
-- Statements
------------------------------------------------------------

namespace FlowGraph.Script

variable {script : List Stmt} {path : Path} {st : Stmt}
variable {s s' s₁ : Session} {a b : Segment → Session}
variable {r : Result} {i : Nat}

/- An action that yields a node yields the next one. -/
theorem Action.Acts.yields
    {names : Names}
    {c c' : Builder}
    {act : Action}
    (h : act.Acts names c r c')
    {id : Nat}
    (hNode : r = .node id) :
    id = c.graph.nextId ∧
      c.graph.nextId < c'.graph.nextId := by
  cases h with
  | rests hData hResult => exact absurd hNode (hResult id)
  | adds hData hResult =>
      exact ⟨hResult id hNode, Nat.lt_succ_self _⟩
  | places hCall hExec hShows =>
      exact ⟨(Result.node.inj hNode).symm,
        Nat.lt_succ_self _⟩
  | breaks hLoops hTargets =>
      exact ⟨(Result.node.inj hNode).symm,
        Nat.lt_succ_self _⟩
  | continues hInLoop => cases hNode
  | returns => cases hNode
  | declares => cases hNode

/- A statement yields the next node, its bodies later ones. -/
theorem Unfolds.yields
    (h : Unfolds script path s a b st r s₁)
    (hReady : s.Ready)
    {id : Nat}
    (hNode : r = .node id) :
    id = s.graph.nextId ∧
      s.graph.nextId < s₁.graph.nextId ∧
        ∀ e ∈ s₁.journal, e ∈ s.journal ∨
          ∀ id, e.node? = some id → s.graph.nextId < id := by
  cases h with
  | action hActs =>
      rcases hActs.yields hNode with ⟨hId, hLt⟩
      exact ⟨hId, hLt, fun _ he => Or.inl he⟩
  | function hStart hBody =>
      have hLeads := hBody.leads
      have hLe := hLeads.nextId_le
      rw [hStart] at hLeads hLe
      exact ⟨(Result.node.inj hNode).symm, hLe,
        fun e he => hLeads.told_node he⟩
  | conditional hDecides hFirst hThen hSecond hElseReady
      hElse =>
      have h₁ := hThen.leads
      have h₂ := hElse.leads hElseReady
      have hLe := h₁.nextId_le
      rw [hFirst] at h₁ hLe
      rw [hSecond] at h₂
      refine ⟨(Result.node.inj hNode).symm,
        Nat.lt_of_lt_of_le hLe h₂.nextId_le, ?_⟩
      intro e he
      rcases h₂.told_node he with hEarlier | hLater
      · exact h₁.told_node hEarlier
      · exact Or.inr fun id hId =>
          Nat.lt_of_lt_of_le hLe (hLater id hId)
  | switch hEval hAssembled hArms hBodies =>
      exact ⟨(Result.node.inj hNode).symm,
        (hAssembled.entered hReady).lt,
        fun e he => hAssembled.spread.leads.told_node he⟩
  | loop hRepeats hStart hBody =>
      have hLeads := hBody.leads
      rw [hStart] at hLeads
      refine ⟨(Result.node.inj hNode).symm,
        (entered_loop hReady hRepeats.body.2.1 hLeads
          (leads_rounds hReady hRepeats hLeads).ready).lt, ?_⟩
      intro e he
      rw [journal_afterLoop] at he
      exact hLeads.told_node he

/- Entries stay numbered if they do so in the bodies. -/
theorem Unfolds.numbered
    (h : Unfolds script path s a b st r s₁)
    (hReady : s.Ready)
    (hLe : s.graph.nextId ≤ s₁.graph.nextId)
    (hBodies :
      ∀ segment body, st.body? segment = some body →
        (a segment).Numbered → (b segment).Numbered)
    (hs : s.Numbered) :
    s₁.Numbered := by
  cases h with
  | action hActs => exact hs.of_journal rfl hLe
  | function hStart hBody =>
      have hEnd := hBodies .function _ rfl
      rw [hStart] at hEnd
      exact (hEnd (hs.of_journal rfl (Nat.le_succ _))).of_journal
        rfl (Nat.le_refl _)
  | @conditional st v thenBody elseBody hDecides hFirst hThen
      hSecond hElseReady hElse =>
      have hThenEnd :=
        hBodies .thenBody thenBody hDecides.bodies.1
      rw [hFirst] at hThenEnd
      have hElseStart : (a .elseBody).Numbered := by
        rw [hSecond]
        exact (hThenEnd (hs.of_journal rfl
          (Nat.le_succ _))).of_journal rfl (Nat.le_refl _)
      have hElseEnd : (b .elseBody).Numbered := by
        cases elseBody with
        | none =>
            rw [show b .elseBody = a .elseBody from hElse]
            exact hElseStart
        | some body =>
            exact hBodies .elseBody body hDecides.bodies.2
              hElseStart
      exact hElseEnd.of_journal rfl (Nat.le_refl _)
  | @switch bind control v cases default branches s₂ s₃ join
      hEval hAssembled hArms hRan =>
      have hEnd :=
        (hArms.induct (fun s => s.Numbered)
          (fun s tail hs => hs.of_journal rfl (Nat.le_refl _))
          ?_ (hs.of_journal rfl (Nat.le_succ _))).2
      · exact hEnd.of_journal hAssembled.journal
          hAssembled.later.nextId_le
      · intro j run hRun hStart
        rcases body_preparedSwitch bind control hRun rfl with
          ⟨body, hBody, _⟩
        exact hBodies _ body hBody hStart
  | loop hRepeats hStart hBody =>
      have hEnd := hBodies .loopBody _ hRepeats.body.1
      have hLeads := hBody.leads
      rw [hStart] at hEnd hLeads
      have hOver :=
        (leads_rounds hReady hRepeats hLeads).ready
      exact (hEnd (hs.of_journal rfl
        (Nat.le_succ _))).of_journal journal_afterLoop
          (later_afterLoop hOver).nextId_le

/- Entries stay numbered while a statement or block is run. -/
theorem numbered_ran
    (script : List Stmt) :
    (∀ st path s s', StmtRan script path st s s' →
      s.Numbered → s'.Numbered) ∧
      ∀ block path i s s', BlockRan script path i block s s' →
        s.Numbered → s'.Numbered := by
  apply ran_induction script
  · intro path st s a b r s₁ hRan hUnfolds hBodies hs
    have hInner :=
      hUnfolds.numbered hRan.ready hRan.leads.nextId_le
        (fun segment body hBody hStart =>
          hBodies segment body hBody
            (hStart.record (by simp))) hs
    have hKept :
        (s₁.withNames
          (s₁.names.keep st.binding r)).Numbered :=
      hInner.of_journal rfl (Nat.le_refl _)
    apply hKept.record
    intro id hEvent
    have hResult : r = .node id := by
      injection hEvent
    rcases hUnfolds.yields hRan.ready hResult with
      ⟨hId, hLt, hLater⟩
    rw [hId]
    refine ⟨hLt, ?_⟩
    intro e he hNode
    rcases hLater e he with hOld | hNew
    · exact Nat.lt_irrefl _ (hs.below e hOld _ hNode)
    · exact Nat.lt_irrefl _ (hNew _ hNode)
  · intro path i s _ hs
    exact hs
  · intro path i st rest s s₁ s₂ _ _ hFirst hRest hs
    exact hRest (hFirst hs)

end FlowGraph.Script

------------------------------------------------------------
-- Scripts
------------------------------------------------------------

namespace FlowGraph.Script

variable {name : String} {config : Config}
variable {script : List Stmt}

theorem TopRan.numbered
    {i : Nat}
    {st : Stmt}
    {s s' : Session}
    (h : TopRan script i st s s')
    (hs : s.Numbered) :
    s'.Numbered := by
  cases h with
  | @begins bind event s hReady =>
      have hOpened :
          ((s.opened event).withNames
            ((s.opened event).names.keep bind
              (.node s.graph.nextId))).Numbered :=
        hs.of_journal rfl (Nat.le_succ _)
      apply hOpened.record
      intro id hEvent
      cases hEvent
      refine ⟨Nat.lt_succ_self _, ?_⟩
      intro e he hNode
      exact Nat.lt_irrefl _ (hs.below e he _ hNode)
  | runs hRan => exact (numbered_ran script).1 _ _ _ _ hRan hs

/- A node tells which statement has yielded it. -/
theorem place_of_node
    (hScript : structured script = true)
    (hOk :
      ∀ e ∈ (run name config script).entries,
        e.event.isFailure = false)
    {path path' : Path}
    {id : Nat}
    (h : (run name config script).nodeAt path = some id)
    (h' : (run name config script).nodeAt path' = some id) :
    path = path' := by
  have hReady : (Session.new name config).Ready :=
    (Session.Told.new (P := fun _ => True) name config).start
  have hEnd :
      (run name config script).Ready ∧
        (run name config script).Numbered := by
    refine runFrom_preserves
      (I := fun s => s.Ready ∧ s.Numbered)
      ⟨hReady, Session.numbered_new name config⟩ ?_
      fun e he => hOk e (List.mem_reverse.mpr he)
    intro j st hj s hs
    refine (Process.meets_self _ s).mono ?_
      fun _ _ _ => trivial
    intro _ s' hRan
    have hTop :=
      topRan_of_ok
        (List.all_eq_true.mp hScript st
          (List.mem_of_getElem? hj))
        ((holds_script script).getElem? hj) hs.1 hRan
    exact ⟨hTop.onward.ready, hTop.numbered hs.2⟩
  rcases Session.mem_of_nodeAt h with ⟨d, hd, hPath, hNode⟩
  rcases Session.mem_of_nodeAt h' with
    ⟨e, he, hPath', hNode'⟩
  rw [← hPath, ← hPath',
    hEnd.2.distinct d hd e he id hNode hNode']

end FlowGraph.Script
