import FlowGraph.Proofs.Actions
import FlowGraph.Proofs.Dispatch
import FlowGraph.Proofs.Journal

/-
  The cursor of a structured script.

  Wherever a structured script gets to without a refusal,
  the flow goes on from exec outputs that are open, each of
  them listed once.  So the graph refuses no node and no
  link, and if the script is refused then for another
  reason.

  Key definitions include:
    * `FlowGraph.Script.Session.Told`

  Key theorems include:
    * `FlowGraph.Script.sound_runStmt`
    * `FlowGraph.Script.Session.Told.runFrom`
    * `FlowGraph.Script.cursor_open_until_refusal`
-/

------------------------------------------------------------
-- Constructs
------------------------------------------------------------

namespace FlowGraph.Script

variable {P : Entry → Prop} {s : Session}

theorem soundNode_conditional
    {onTrue onFalse : Run Unit}
    (hTrue : Sound P onTrue)
    (hFalse : Sound P onFalse)
    (c : Value) :
    SoundNode P (conditional c onTrue onFalse) := by
  intro s hReady
  have hBelow := Nat.lt_succ_self s.graph.nextId
  have hPlaced :
      Session.Spread P (s.graph.nextId + 1) s
        (s.placed (branchNode c))
        [⟨s.graph.nextId, 0⟩, ⟨s.graph.nextId, 1⟩] :=
    spread_placed hReady rfl
  rw [meets_conditional hReady.builder]
  refine ⟨?_, ?_⟩
  · intro _ _
    refine (hTrue.inBranch hPlaced (by simp) hBelow).mono ?_
      fun _ _ he => he
    rintro t s₁ ⟨hSpread₁, hRan₁⟩
    rw [List.erase_cons_head] at hSpread₁
    refine (hFalse.inBranch hSpread₁ (by simp) hBelow).mono
      ?_ fun _ _ he => he
    rintro f s₂ ⟨hSpread₂, hRan₂⟩
    rw [List.cons_append, List.erase_cons_head,
      List.nil_append] at hSpread₂
    have hMem :
        ∀ e, e ∈ joinTails [t.tail, f.tail] ↔
          e ∈ t.tail ++ f.tail := by
      intro e
      rw [mem_joinTails]
      simp
    have hJoin :=
      hSpread₂.narrow (nodup_joinTails [t.tail, f.tail])
        (fun e he => (hMem e).mp he)
        (fun e he _ => (hMem e).mpr he)
    have hNode :
        s₂.graph.nodes.get? s.graph.nextId =
          some (branchNode c) :=
      hRan₂.grows.nodes
        (hRan₁.grows.nodes Graph.get?_attach_self)
    exact ⟨hJoin.leads.weaken (Nat.le_succ _),
      Session.isNew_node hNode (Nat.le_refl _)⟩
  · intro e he
    exact ⟨harmless_expect c .bool e he,
      Session.refused_of_eq rfl⟩

/- A guard takes the flow to its second exec output. -/
theorem advances_guarded
    {b : Builder}
    (h : b.Ready) :
    b.Advances b.guarded := by
  have hGated := Builder.advances_gated h
  have hPlaced :=
    Builder.advances_placed (n := branchNode b.gateOf.value)
      hGated.ready rfl
  have hOpen :
      (b.gated.placed
        (branchNode b.gateOf.value)).graph.IsOpen
          ⟨b.gated.graph.nextId, 1⟩ :=
    Builder.isOpen_placed hGated.ready rfl
      (by decide : 1 < 2)
  refine .trans h hGated (hPlaced.withTail
    (Graph.cursor_singleton hOpen) ?_)
  intro e he
  exact Graph.node_le_of_mem_singleton he

/-
  A body that is sound as long as the node of the loop is
  there.
-/
def SoundInLoop
    (P : Entry → Prop)
    (node : Nat)
    (body : Run Unit) :
    Prop :=
  ∀ s : Session, s.Ready →
    (∃ n, s.graph.nodes.get? node = some n) →
      body.Meets s
        (fun _ s' => Session.Leads P s.graph.nextId s s')
        s.Refuses

/- The flow goes on from the second output of a loop. -/
theorem leads_afterRounds
    {n : Node}
    {s₁ : Session}
    (hReady : s.Ready)
    (hExec : n.nodeClass = .exec)
    (hOutputs : n.execOutputs = 2)
    (hBody :
      Session.Leads P (s.placed n).graph.nextId
        ((s.placed n).inRound s.graph.nextId) s₁) :
    Session.Leads P s.graph.nextId s
      (s₁.afterRounds s.graph.nextId) := by
  have hPlaced := spread_placed (P := P) hReady hExec
  rw [hOutputs] at hPlaced
  have hAfter :=
    hPlaced.focus List.mem_cons_self
      (Nat.lt_succ_self s.graph.nextId) hBody.popLoop.drop
  rw [outputsFrom, List.erase_cons_head,
    List.append_nil] at hAfter
  exact hAfter.leads.weaken (Nat.le_succ _)

/- A session is ready for a round of a new loop. -/
theorem ready_inRound
    {n : Node}
    (hReady : s.Ready)
    (hExec : n.nodeClass = .exec)
    (hOutputs : n.execOutputs = 2) :
    ((s.placed n).inRound s.graph.nextId).Ready := by
  have hPlaced :=
    spread_placed (P := fun _ => True) hReady hExec
  rw [hOutputs] at hPlaced
  exact (hPlaced.ready List.mem_cons_self).pushLoop _

/- A loop leads to what follows it. -/
theorem meets_loop
    {n : Node}
    {body : Run Unit}
    (hReady : s.Ready)
    (hExec : n.nodeClass = .exec)
    (hOutputs : n.execOutputs = 2)
    (hBody : SoundInLoop P s.graph.nextId body) :
    (loopBody s.graph.nextId body).Meets (s.placed n)
      (fun _ s' =>
        Session.Leads P s.graph.nextId s s' ∧
          Session.IsNew s s' (.node s.graph.nextId))
      s.Refuses := by
  rw [meets_loopBody]
  refine (hBody _ (ready_inRound hReady hExec hOutputs)
    ⟨n, Graph.get?_attach_self⟩).mono ?_ ?_
  · intro _ s₁ hLeads
    have hRest :=
      leads_afterRounds hReady hExec hOutputs hLeads
    have hNode : s₁.graph.nodes.get? s.graph.nextId =
        some n :=
      hLeads.builder.advance.grows.nodes
        Graph.get?_attach_self
    split
    · rw [meets_returnGuard hRest.ready.builder]
      have hGuard := advances_guarded hRest.ready.builder
      exact ⟨.trans hReady hRest
          (Session.leads_withBuilder hRest.ready hGuard),
        Session.isNew_node
          (hGuard.advance.grows.nodes hNode)
          (Nat.le_refl _)⟩
    · exact ⟨hRest,
        Session.isNew_node hNode (Nat.le_refl _)⟩
  · intro e s₁ hRefuses
    exact hRefuses

theorem soundNode_countingLoop
    {body : Nat → Value → Run Unit}
    (h :
      ∀ node value, SoundInLoop P node (body node value))
    (start stop : Input) :
    SoundNode P (countingLoop start stop body) := by
  intro s hReady
  rw [meets_countingLoop hReady.builder]
  refine ⟨?_, ?_⟩
  · intro a _
    refine ⟨?_, ?_⟩
    · intro b _
      exact meets_loop hReady rfl rfl (h _ _)
    · intro e he
      exact ⟨harmless_read stop .int e he,
        Session.refused_of_eq rfl⟩
  · intro e he
    exact ⟨harmless_read start .int e he,
      Session.refused_of_eq rfl⟩

theorem soundNode_itemLoop
    {body : Nat → Value → Run Unit}
    (h :
      ∀ node value, SoundInLoop P node (body node value))
    (list : Value) :
    SoundNode P (itemLoop list body) := by
  intro s hReady
  rw [meets_itemLoop hReady.builder]
  refine ⟨?_, ?_⟩
  · intro element _
    exact meets_loop hReady rfl rfl (h _ _)
  · intro e he
    exact ⟨harmless_itemType list e he,
      Session.refused_of_eq rfl⟩

theorem soundNode_inFunction
    {body : Run Unit}
    (hBody : Sound P body)
    (event : String) :
    SoundNode P (inFunction event body) := by
  intro s hReady
  rw [meets_inFunction]
  refine (hBody _ (hReady.opened event)).mono ?_ ?_
  · intro _ s₁ hLeads
    have hLeave :=
      hLeads.leaveFunction hReady (Nat.le_succ _)
    have hNode :
        s₁.graph.nodes.get? s.graph.nextId =
          some (entryNode event) :=
      hLeads.builder.advance.grows.nodes
        Graph.get?_attach_self
    exact ⟨hLeave.weaken (Nat.le_succ _),
      Session.isNew_node hNode (Nat.le_refl _)⟩
  · rintro e s₁ ⟨hErr, hRefused⟩
    exact ⟨hErr, hRefused⟩

end FlowGraph.Script

------------------------------------------------------------
-- Statements
------------------------------------------------------------

namespace FlowGraph.Script

variable {P : Entry → Prop} {s : Session} {path : Path}

/- A statement whose result is new is journaled. -/
theorem meets_finished
    {m : Run Result}
    {bind : Binding}
    (h :
      m.Meets s
        (fun r s' =>
          Session.Leads P s.graph.nextId s s' ∧
            Session.IsNew s s' r ∧
              P ⟨path, s'.builder, .finished r⟩)
        s.Refuses) :
    (journaled path bind m).Meets s
      (fun _ s' => Session.Leads P s.graph.nextId s s')
      s.Refuses := by
  rw [meets_journaled]
  refine h.mono ?_ ?_
  · rintro r s' ⟨hLeads, hNew, hHolds⟩
    exact hLeads.finish hHolds hNew
  · rintro e s' ⟨hErr, hRefused⟩
    exact ⟨hErr, hRefused.record hErr⟩

/- The entry of a statement may need no more than that. -/
theorem meets_finished_of_new
    {m : Run Result}
    {bind : Binding}
    (hHolds : ∀ b r, P ⟨path, b, .finished r⟩)
    (h :
      m.Meets s
        (fun r s' =>
          Session.Leads P s.graph.nextId s s' ∧
            Session.IsNew s s' r)
        s.Refuses) :
    (journaled path bind m).Meets s
      (fun _ s' => Session.Leads P s.graph.nextId s s')
      s.Refuses := by
  refine meets_finished (h.mono ?_ fun _ _ he => he)
  rintro r s' ⟨hLeads, hNew⟩
  exact ⟨hLeads, hNew, hHolds s'.builder r⟩

/- The operands of a construct are evaluated before it. -/
theorem meets_resolved_sound
    {α β : Type}
    {f : Names → Except Error α}
    {k : α → Run β}
    {Q : β → Session → Prop}
    (hHarmless : ∀ names, Harmless (f names))
    (h : ∀ a, (k a).Meets s Q s.Refuses) :
    (resolved f >>= k).Meets s Q s.Refuses := by
  rw [Process.meets_bind, meets_resolved]
  refine ⟨fun a _ => h a, ?_⟩
  intro e he
  exact ⟨hHarmless s.names e he, Session.refused_of_eq rfl⟩

theorem Sound.entered
    {body : Run Unit}
    (h : Sound P body)
    (path : Path)
    (hHolds : ∀ b, P ⟨path, b, .entered⟩) :
    Sound P (entered path body) := by
  intro s hReady
  have hEntered :
      Session.Leads P s.graph.nextId s
        (s.record path .entered) :=
    (Session.Leads.refl hReady).record (hHolds _) rfl
      (by simp)
  rw [meets_entered]
  refine (h _ hEntered.ready).mono ?_ ?_
  · intro _ s' hLeads
    exact .trans hReady hEntered hLeads
  · rintro e s' ⟨hErr, hRefused⟩
    exact ⟨hErr, hEntered.refused.trans hRefused⟩

/- A loop and the value of its rounds are given names. -/
theorem leads_keepLoop
    {node : Nat}
    (hReady : s.Ready)
    (hNode : ∃ n, s.graph.nodes.get? node = some n)
    (bind : Binding)
    (value : Value) :
    Session.Leads P s.graph.nextId s
      (s.withNames
        ((s.names.keep bind (.value value)).keep bind
          (.node node))) := by
  have hValue :
      Session.Leads P s.graph.nextId s
        (s.withNames
          (s.names.keep bind (.value value))) :=
    (Session.Leads.refl hReady).keep trivial
  exact hValue.keep hNode

/- The body of a loop names the loop and its value. -/
theorem Sound.keepLoop
    {body : Run Unit}
    (h : Sound P body)
    (bind : Binding)
    (node : Nat)
    (value : Value) :
    SoundInLoop P node
      (keepLoop bind node value >>= fun _ => body) := by
  intro s hReady hNode
  have hKept :=
    leads_keepLoop (P := P) hReady hNode bind value
  rw [Process.meets_bind, meets_keepLoop]
  refine (h _ hKept.ready).mono ?_ ?_
  · intro _ s' hLeads
    exact .trans hReady hKept hLeads
  · intro e s' hRefuses
    exact hRefuses

theorem sound_yield :
    Sound P (Process.yield ()) :=
  fun _ hReady => Session.Leads.refl hReady

/-
  Statements and blocks of structured scripts are sound, and
  a switch is complete when it is done.
-/
theorem sound_runStmt
    (script : List Stmt) :
    (∀ st : Stmt, st.every Stmt.structured = true →
      ∀ path, HoldsStmt script path st →
        Sound (Entry.Complete script) (runStmt path st)) ∧
    ∀ block : List Stmt,
      everyIn Stmt.structured block = true →
        ∀ path i, Holds script path i block →
          Sound (Entry.Complete script)
            (runBlock path i block) := by
  apply Stmt.induction
  · intro st hBodies hStructured path hPlace s hReady
    obtain ⟨hSelf, hInner⟩ :=
      (Stmt.every_iff st).mp hStructured
    have hBody :
        ∀ segment b, st.body? segment = some b →
          Sound (Entry.Complete script)
            (entered (path ++ [segment])
              (runBlock (path ++ [segment]) 0 b)) := by
      intro segment b hb
      have hMem := Stmt.mem_bodies hb
      refine (hBodies b hMem (hInner b hMem) _ 0
        (hPlace.below segment b hb)).entered _ ?_
      intro _ r _ _ _ _ hEvent
      cases hEvent
    cases st with
    | action bind a =>
        refine meets_finished_of_new
          (fun _ _ => complete_of_ne hPlace.self rfl)
          ((meets_action hReady a hSelf).mono
            (fun _ _ h => h) ?_)
        rintro e s' ⟨hErr, hJournal⟩
        exact ⟨hErr, Session.refused_of_eq hJournal⟩
    | function bind event body =>
        refine meets_finished_of_new
          (fun _ _ => complete_of_ne hPlace.self rfl) ?_
        rw [Process.meets_bind]
        exact soundNode_inFunction (hBody .function _ rfl)
          event s hReady
    | ifThen bind c thenBody =>
        refine meets_finished_of_new
          (fun _ _ => complete_of_ne hPlace.self rfl)
          (meets_resolved_sound
            (fun names => harmless_eval names c) ?_)
        intro v
        rw [Process.meets_bind]
        exact soundNode_conditional (hBody .thenBody _ rfl)
          sound_yield v s hReady
    | ifElse bind c thenBody elseBody =>
        refine meets_finished_of_new
          (fun _ _ => complete_of_ne hPlace.self rfl)
          (meets_resolved_sound
            (fun names => harmless_eval names c) ?_)
        intro v
        rw [Process.meets_bind]
        exact soundNode_conditional (hBody .thenBody _ rfl)
          (hBody .elseBody _ rfl) v s hReady
    | switch bind control cases default =>
        refine meets_finished (meets_resolved_sound
          (fun names => harmless_eval names control) ?_)
        intro v
        rw [Process.meets_bind]
        have hArms :
            ∀ arm ∈ (preparedSwitch path cases default).arms,
              ∀ body, arm.body? = some body →
                Sound (Entry.Complete script) body := by
          intro arm hArm body hEq
          obtain ⟨j, hj⟩ := List.mem_iff_getElem?.mp hArm
          obtain ⟨b, hb, rfl⟩ :=
            body_preparedSwitch bind control hj hEq
          exact hBody (armSegment j) b hb
        refine (meets_dispatch_spread hReady hArms).mono ?_
          fun _ _ h => h
        intro id s' hDispatched
        exact ⟨hDispatched.leads, hDispatched.isNew,
          hDispatched.complete hPlace.self⟩
    | forRange bind start stop body =>
        have hLoop := hBody .loopBody _ rfl
        refine meets_finished_of_new
          (fun _ _ => complete_of_ne hPlace.self rfl)
          (meets_resolved_sound
            (fun names => harmless_argument names start) ?_)
        intro a
        refine meets_resolved_sound
          (fun names => harmless_argument names stop) ?_
        intro b
        rw [Process.meets_bind]
        exact soundNode_countingLoop
          (fun node value => hLoop.keepLoop bind node
            value) a b s hReady
    | forEach bind list body =>
        have hLoop := hBody .loopBody _ rfl
        refine meets_finished_of_new
          (fun _ _ => complete_of_ne hPlace.self rfl)
          (meets_resolved_sound
            (fun names => harmless_eval names list) ?_)
        intro v
        rw [Process.meets_bind]
        exact soundNode_itemLoop
          (fun node value => hLoop.keepLoop bind node
            value) v s hReady
    | branch node index body => cases hSelf
    | loop node body => cases hSelf
    | attempt body => cases hSelf
  · intro _ path i _
    exact sound_yield
  · intro st rest hSt hRest hStructured path i hPlace s
      hReady
    obtain ⟨hFirst, hOthers⟩ := everyIn_cons.mp hStructured
    unfold runBlock
    rw [Process.meets_bind]
    refine (hSt hFirst _ hPlace.head s hReady).mono ?_
      fun _ _ h => h
    intro _ s₁ hLeads
    refine (hRest hOthers path (i + 1) hPlace.tail s₁
      hLeads.ready).mono ?_ ?_
    · intro _ s₂ hLeads'
      exact .trans hReady hLeads
        (hLeads'.weaken hLeads.nextId_le)
    · rintro e s₂ ⟨hErr, hRefused⟩
      exact ⟨hErr, hLeads.refused.trans hRefused⟩

end FlowGraph.Script

------------------------------------------------------------
-- Scripts
------------------------------------------------------------

namespace FlowGraph.Script

/- A script has come to a session without any refusal. -/
structure Session.Told
    (P : Entry → Prop)
    (s₀ s : Session) :
    Prop where
  start : s₀.Ready
  ready : s.Ready
  advance :
    s₀.graph.Advance s₀.frame.tail s.graph s.frame.tail
  history : Session.History P 0 s₀ s.journal s

namespace Session.Told

variable {P : Entry → Prop}
variable {s₀ s s' : Session}

/- A new session is ready. -/
theorem new
    (name : String)
    (config : Config) :
    Told P (.new name config) (.new name config) := by
  have hReady : (Session.new name config).Ready := by
    refine ⟨⟨Graph.wf_empty name, Graph.cursor_nil _, ?_,
      ?_⟩, ?_, ?_, ?_⟩
    · intro v hv
      cases hv
    · intro v hv
      cases hv
    · intro p hp
      cases hp
    · intro p hp
      cases hp
    · intro p hp
      cases hp
  exact ⟨hReady, hReady, .refl hReady.builder.cursor,
    history_nil⟩

/- A run goes on from there. -/
theorem leads
    {lo : Nat}
    (h : Told P s₀ s)
    (hLeads : Leads P lo s s') :
    Told P s₀ s' := by
  obtain ⟨news, hJournal, hNews⟩ :=
    (hLeads.weaken (Nat.zero_le lo)).journal
  have hAdvance := hLeads.builder.advance
  refine ⟨h.start, hLeads.ready,
    h.advance.trans hAdvance
      (fun e he => h.start.builder.tail_lt he), ?_⟩
  rw [hJournal]
  exact h.history.append h.start h.advance hAdvance hNews

/- A function begins there. -/
theorem opened
    (h : Told P s₀ s)
    (event : String) :
    Told P s₀ (s.opened event) := by
  have hWf := h.ready.builder.wf
  have hCursor := h.ready.builder.cursor
  have hGrows :
      s.graph.Grows [] (s.opened event).graph :=
    Graph.grows_attach hWf
  have hAside :
      s.graph.Advance s.frame.tail (s.opened event).graph
        s.frame.tail :=
    .of_apart hGrows.nodes hGrows.nextId_le
      (fun hLt => hGrows.apart hLt (by simp)) hWf hCursor
  have hAdvance :
      s.graph.Advance s.frame.tail (s.opened event).graph
        (s.opened event).frame.tail := by
    refine hAside.grows.advance_of_new ?_
    intro e he
    exact Graph.node_le_of_mem_singleton he
  exact ⟨h.start, h.ready.opened event,
    h.advance.trans hAdvance
      (fun e he => h.start.builder.tail_lt he),
    h.history.append h.start h.advance hAdvance history_nil⟩

/- A statement of a structured script is run there. -/
theorem meets_runStmt
    {script : List Stmt}
    (h : Told (Entry.Complete script) s₀ s)
    {st : Stmt}
    (hStmt : (st.begins || st.every Stmt.structured) = true)
    {path : Path}
    (hPlace : HoldsStmt script path st) :
    (runStmt path st).Meets s (fun _ s' => Told (Entry.Complete script) s₀ s')
      s.Refuses := by
  rcases Bool.or_eq_true _ _ ▸ hStmt with hBegins | hEvery
  · -- Only the start of a function is told apart.
    unfold Stmt.begins at hBegins
    split at hBegins
    · rename_i bind event
      have hOpened := h.opened event
      have hFits :
          Fits (s.opened event) (s.opened event)
            (.node s.graph.nextId) :=
        ⟨entryNode event, Graph.get?_attach_self⟩
      have hLeads :
          Leads (Entry.Complete script) 0 (s.opened event)
            ((s.opened event).finish path bind
              (.node s.graph.nextId)) :=
        ((Leads.refl hOpened.ready).keep hFits).record
          (complete_of_ne hPlace.self rfl) rfl
          (fun _ _ => Nat.zero_le _)
      rw [meets_begin]
      exact hOpened.leads hLeads
    · cases hBegins
  · refine ((sound_runStmt script).1 st hEvery path hPlace s
      h.ready).mono ?_ fun _ _ he => he
    intro _ s' hLeads
    exact h.leads hLeads

/- A script goes on from there as long as it is not refused. -/
theorem runFrom
    {script block : List Stmt}
    (h : Told (Entry.Complete script) s₀ s)
    (hBlock : structured block = true)
    {i : Nat}
    (hPlace : Holds script [] i block)
    (hOk :
      ∀ e ∈ (Script.runFrom i block s).journal,
        e.event.isFailure = false) :
    Told (Entry.Complete script) s₀
      (Script.runFrom i block s) := by
  -- The place of a statement tells it from the others.
  have hHold :
      ∀ (j : Nat) (st : Stmt), block[j]? = some st →
        HoldsStmt script [.statement (i + j)] st := by
    intro j st hj
    exact hPlace.getElem? hj
  refine runFrom_preserves
    (I := Told (Entry.Complete script) s₀) h ?_ hOk
  intro j st hj s hTold
  have hStmt :=
    List.all_eq_true.mp hBlock st (List.mem_of_getElem? hj)
  exact (hTold.meets_runStmt hStmt (hHold j st hj)).mono
    (fun _ _ hTold => hTold) fun _ _ _ => trivial

/- All entries up to the first refusal are fair. -/
theorem fair_runFrom
    {script block : List Stmt}
    (h : Told (Entry.Complete script) s₀ s)
    (hBlock : structured block = true)
    {i : Nat}
    (hPlace : Holds script [] i block)
    {before after : List Entry}
    {e : Entry}
    (hEntries :
      (Script.runFrom i block s).entries =
        before ++ e :: after)
    (hBefore : ∀ d ∈ before, d.event.isFailure = false) :
    e.Fair := by
  induction block generalizing i s with
  | nil =>
      have hMem : e ∈ s.journal := by
        have hReverse : e ∈ s.journal.reverse := by
          rw [show s.journal.reverse = _ from hEntries]
          simp
        exact List.mem_reverse.mp hReverse
      exact Entry.fair_of_isOpen (h.history.isOpen e hMem)
  | cons st rest ih =>
      obtain ⟨hStmt, hRest⟩ : _ ∧ structured rest = true := by
        simpa [structured] using hBlock
      have hMeets :=
        h.meets_runStmt (by simpa using hStmt) hPlace.head
      unfold Script.runFrom at hEntries
      rcases hRun : runStmt [.statement i] st s with
        ⟨err | _, s'⟩
      · -- The refused statement is the last one that counts:
        -- the entry that tells of it cannot come before `e`.
        obtain ⟨news, hJournal, hNews⟩ :=
          (hMeets.of_error hRun).2
        obtain ⟨s₁, hRecord⟩ := runStmt_of_error hRun
        obtain ⟨more, hMore⟩ :=
          (wrote_runFrom rest (i + 1) s').suffix
        rw [hRun] at hEntries
        unfold Session.entries at hEntries
        rw [← hMore, List.reverse_append] at hEntries
        have hFailed :
            (⟨[.statement i], s₁.builder, .failed err⟩
              : Entry) ∈ s'.journal.reverse := by
          rw [hRecord]
          simp [Session.record]
        have hMem : e ∈ s'.journal := by
          apply List.mem_reverse.mp
          rcases List.append_eq_append_iff.mp hEntries with
            ⟨middle, hEq, _⟩ | ⟨middle, hEq, hTail⟩
          · rw [hEq] at hBefore
            cases hBefore _ (List.mem_append_left _ hFailed)
          · cases middle with
            | nil =>
                rw [List.append_nil] at hEq
                rw [hEq] at hFailed
                cases hBefore _ hFailed
            | cons d middle =>
                cases hTail
                rw [hEq]
                simp
        rw [hJournal] at hMem
        rcases List.mem_append.mp hMem with hMem | hMem
        · exact hNews e hMem
        · exact Entry.fair_of_isOpen
            (h.history.isOpen e hMem)
      · rw [hRun] at hEntries
        exact ih (hMeets.of_ok hRun) hRest hPlace.tail hEntries

end Session.Told

end FlowGraph.Script

------------------------------------------------------------
-- The Cursor Of A Script
------------------------------------------------------------

namespace FlowGraph.Script

/-
  As long as a structured script is not refused, its cursor
  consists of open exec outputs without repetition, and the
  first refusal, if there is one, is not by the graph.
-/
theorem cursor_open_until_refusal
    (name : String)
    (config : Config)
    (script : List Stmt)
    (hScript : structured script = true) :
    (∀ before e after,
      (run name config script).entries =
          before ++ e :: after →
        (∀ d ∈ before, d.event.isFailure = false) →
          (e.event.isFailure = false →
            e.builder.graph.Cursor e.builder.frame.tail) ∧
          ∀ err, e.event = .failed err →
            err.isRegistry = false) ∧
      ((∀ e ∈ (run name config script).entries,
          e.event.isFailure = false) →
        (run name config script).builder.graph.Cursor
          (run name config script).builder.frame.tail) := by
  have hNew :=
    Session.Told.new (P := Entry.Complete script) name config
  have hPlace := holds_script script
  refine ⟨?_, ?_⟩
  · intro before e after hEntries hBefore
    have hFair :=
      hNew.fair_runFrom hScript hPlace hEntries hBefore
    exact ⟨hFair.isOpen, hFair.harmless⟩
  · intro hOk
    have hTold :=
      hNew.runFrom hScript hPlace fun e he =>
        hOk e (List.mem_reverse.mpr he)
    exact hTold.ready.builder.cursor

/- After the loop comes a break. -/
def strayBreak : List Stmt :=
  sharedReturn ++ [.action .none (.breakLoop [])]

/-
  The break is refused because no loop is around it, and not
  by the graph.  All entries before that have an open cursor.
-/
theorem cursor_open_until_break :
    structured strayBreak = true ∧
      ∃ before e,
        (run "demo" .default strayBreak).entries =
            before ++ [e] ∧
          (∀ d ∈ before,
            d.event.isFailure = false ∧
              d.builder.graph.Cursor d.builder.frame.tail) ∧
          e.path = [.statement 3] ∧
          e.event = .failed (.of .breakOutsideLoop) ∧
          (Error.of .breakOutsideLoop).isRegistry = false := by
  have hScript : structured strayBreak = true := by
    decide
  have hLast :
      ∃ e ∈ (run "demo" .default strayBreak).entries.getLast?,
        e.path = [.statement 3] ∧
          e.event = .failed (.of .breakOutsideLoop) := by
    decide +kernel
  have hOk :
      ∀ d ∈ (run "demo" .default strayBreak).entries.dropLast,
        d.event.isFailure = false := by
    decide +kernel
  rcases hLast with ⟨e, he, hPath, hEvent⟩
  rcases List.getLast?_eq_some_iff.mp he with
    ⟨before, hEntries⟩
  rw [hEntries, List.dropLast_concat] at hOk
  rcases cursor_open_until_refusal "demo" .default strayBreak
      hScript with ⟨hOpen, -⟩
  refine ⟨hScript, before, e, hEntries, ?_, hPath, hEvent, ?_⟩
  · intro d hd
    rcases List.append_of_mem hd with ⟨init, rest, hSplit⟩
    have hBefore :
        (run "demo" .default strayBreak).entries =
          init ++ d :: (rest ++ [e]) := by
      rw [hEntries, hSplit, List.append_assoc,
        List.cons_append]
    have hInit : ∀ c ∈ init, c.event.isFailure = false := by
      intro c hc
      apply hOk
      rw [hSplit]
      exact List.mem_append_left _ hc
    exact ⟨hOk d hd,
      (hOpen init d _ hBefore hInit).1 (hOk d hd)⟩
  · exact (hOpen _ e [] hEntries hOk).2 _ hEvent

end FlowGraph.Script
