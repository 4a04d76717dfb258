import FlowGraph.Proofs.Unfolding

/-
  The bodies of a statement, once it is complete.

  Whatever a statement does after one of its bodies leaves
  the links of the body alone.  Where the flow goes on, it
  leads to new nodes, so that links to older nodes are older
  themselves.

  Key definitions include:
    * `FlowGraph.Script.Session.Encloses`

  Key theorems include:
    * `FlowGraph.Script.StmtRan.onward`
    * `FlowGraph.Script.BlockRan.onward`
    * `FlowGraph.Script.Unfolds.within`
    * `FlowGraph.Script.Unfolds.encloses`
-/

------------------------------------------------------------
-- Steps Of A Builder
------------------------------------------------------------

namespace FlowGraph.Builder

variable {b b₁ b₂ : Builder}

/- Two steps that both lead to new nodes. -/
theorem Advances.fresh_trans
    (hReady : b.Ready)
    (h₁ : b.Advances b₁)
    (hFresh₁ : b.graph.Fresh b.frame.tail b₁.graph)
    (h₂ : b₁.Advances b₂)
    (hFresh₂ : b₁.graph.Fresh b₁.frame.tail b₂.graph) :
    b.graph.Fresh b.frame.tail b₂.graph :=
  hFresh₁.trans h₁.advance hFresh₂ h₂.advance.grows
    fun _ he => hReady.tail_lt he

theorem fresh_gated
    (h : b.Ready) :
    b.graph.Fresh b.frame.tail b.gated.graph := by
  have hCursor := (advances_gated h).ready.cursor
  rw [gated_tail] at hCursor
  exact Graph.fresh_of_cursor hCursor

theorem fresh_guarded
    (h : b.Ready) :
    b.graph.Fresh b.frame.tail b.guarded.graph := by
  have hGated := advances_gated h
  have hPlaced :=
    advances_placed (n := Script.branchNode b.gateOf.value)
      hGated.ready rfl
  have hFresh :=
    hGated.fresh_trans h (fresh_gated h) hPlaced
      Graph.fresh_attach
  exact hFresh

theorem fresh_returned
    (h : b.Ready) :
    b.graph.Fresh b.frame.tail b.returned.graph := by
  have hGated := advances_gated h
  have hRaised := advances_raised h
  have hFresh : b.graph.Fresh b.frame.tail b.raised.graph :=
    hGated.fresh_trans h (fresh_gated h)
      (advances_placed (n := raiseNode b.gateOf) hGated.ready
        rfl)
      Graph.fresh_attach
  have hStopped :
      b.raised.graph.Fresh b.raised.frame.tail
        b.raised.stopped.graph := by
    unfold stopped
    split
    · exact Graph.fresh_attach
    · exact Graph.fresh_of_cursor hRaised.ready.cursor
  have hAll :=
    hRaised.fresh_trans h hFresh
      (advances_stopped hRaised.ready) hStopped
  exact hAll

end FlowGraph.Builder

namespace FlowGraph.Script

/- An action leads to new nodes. -/
theorem Action.Acts.fresh
    {names : Names}
    {b b' : Builder}
    {a : Action}
    {r : Result}
    (h : a.Acts names b r b')
    (hReady : b.Ready) :
    b.graph.Fresh b.frame.tail b'.graph := by
  have hOpen : b.graph.Fresh b.frame.tail b.graph :=
    Graph.fresh_of_cursor hReady.cursor
  cases h with
  | rests hData => exact hOpen
  | adds hData =>
      exact Graph.fresh_of_cursor
        (Builder.advances_added hReady).ready.cursor
  | places hCall hExec hShows => exact Graph.fresh_attach
  | breaks hLoops hTargets => exact Graph.fresh_attach
  | continues hInLoop => exact hOpen
  | returns => exact Builder.fresh_returned hReady
  | declares => exact Builder.fresh_gated hReady

end FlowGraph.Script

------------------------------------------------------------
-- Conditionals
------------------------------------------------------------

namespace FlowGraph.Script

variable {P : Entry → Prop} {lo lo' : Nat}
variable {s s₁ s₂ : Session} {n : Node}
variable {join : List Endpoint}

/- The first of two bodies. -/
theorem within_first
    (hReady : s.Ready)
    (hExec : n.nodeClass = .exec)
    (h₂ :
      Session.Leads P lo
        (s₁.withTail [⟨s.graph.nextId, 1⟩]) s₂)
    (hJoin :
      ∀ e, e ∈ join ↔ e ∈ s₁.frame.tail ∨ e ∈ s₂.frame.tail) :
    Session.Within s (s₂.withTail join)
      ((s.placed n).withTail [⟨s.graph.nextId, 0⟩]) s₁ := by
  have hOther :
      ∀ e : Endpoint,
        s.graph.nextId + 1 ≤ e.node ∨
            e ∈ [(⟨s.graph.nextId, 0⟩ : Endpoint)] →
          e ∉ [(⟨s.graph.nextId, 1⟩ : Endpoint)] := by
    intro e hRange hMem
    rw [List.mem_singleton.mp hMem] at hRange
    rcases hRange with hLe | hEq
    · exact Nat.not_succ_le_self _ hLe
    · cases List.mem_singleton.mp hEq
  refine ⟨(Session.later_placed hReady hExec).trans
      (Session.later_withTail _ _),
    (Session.later_withTail s₁ _).trans
      (h₂.later.trans (Session.later_withTail s₂ _)),
    ?_, ?_, ?_, ?_,
    Or.inl fun e he => (hJoin e).mpr (Or.inl he)⟩
  · intro e he
    exact Graph.node_le_of_mem_singleton he
  · intro e hRange hLt
    exact h₂.builder.advance.grows.apart hLt
      (hOther e hRange)
  · intro d hd
    rcases h₂.journal with ⟨news, hNews, hHistory⟩
    rw [Session.withTail_journal, hNews] at hd
    rcases List.mem_append.mp hd with hNew | hOld
    · exact Or.inr fun e hRange hLt =>
        (hHistory.grows d hNew).apart hLt (hOther e hRange)
    · exact Or.inl hOld
  · intro e hRange hLt hMem
    rcases (hJoin e).mp hMem with hOwn | hLater
    · exact hOwn
    · rcases (h₂.mem_tail hLater).1 with hNew | hStart
      · exact absurd hLt (Nat.not_lt.mpr hNew)
      · exact absurd hStart (hOther e hRange)

/- The second of two bodies. -/
theorem within_second
    (hReady : s.Ready)
    (hExec : n.nodeClass = .exec)
    (h₁ :
      Session.Leads P lo
        ((s.placed n).withTail [⟨s.graph.nextId, 0⟩]) s₁)
    (hJoin :
      ∀ e, e ∈ join ↔ e ∈ s₁.frame.tail ∨ e ∈ s₂.frame.tail) :
    Session.Within s (s₂.withTail join)
      (s₁.withTail [⟨s.graph.nextId, 1⟩]) s₂ := by
  have hPlaced :=
    (Session.later_placed hReady hExec).trans
      (Session.later_withTail (s.placed n)
        [⟨s.graph.nextId, 0⟩])
  refine ⟨hPlaced.trans
      (h₁.later.trans (Session.later_withTail s₁ _)),
    Session.later_withTail s₂ _, ?_, fun _ _ _ => rfl,
    fun _ hd => Or.inl hd, ?_,
    Or.inl fun e he => (hJoin e).mpr (Or.inr he)⟩
  · intro e he
    exact Graph.node_le_of_mem_singleton he
  · intro e hRange hLt hMem
    rcases (hJoin e).mp hMem with hFirst | hOwn
    · have hOld := h₁.mem_tail hFirst
      rcases hRange with hNew | hStart
      · exact absurd hOld.2 (Nat.not_lt.mpr hNew)
      · rw [List.mem_singleton.mp hStart] at hOld
        rcases hOld.1 with hLe | hEq
        · exact absurd hLe (Nat.not_succ_le_self _)
        · cases List.mem_singleton.mp hEq
    · exact hOwn

/- The node of a conditional is entered. -/
theorem entered_conditional
    (hReady : s.Ready)
    (hExec : n.nodeClass = .exec)
    (h₁ :
      Session.Leads P lo
        ((s.placed n).withTail [⟨s.graph.nextId, 0⟩]) s₁)
    (h₂ :
      Session.Leads P lo'
        (s₁.withTail [⟨s.graph.nextId, 1⟩]) s₂)
    (hJoin :
      ∀ e, e ∈ join ↔ e ∈ s₁.frame.tail ∨ e ∈ s₂.frame.tail) :
    s.Entered n (s₂.withTail join) := by
  have hWithin₁ := within_first hReady hExec h₂ hJoin
  have hWithin₂ := within_second hReady hExec h₁ hJoin
  refine (s.entered_placed n).extends hReady
    (h₁.builder.advance.grows.extends.trans
      h₂.builder.advance.grows.extends) ?_ ?_
  · intro e he
    rcases List.mem_append.mp he with he | he
    · exact hWithin₁.start e he
    · exact hWithin₂.start e he
  · intro e he
    rcases (hJoin e).mp he with he | he
    · exact hWithin₁.isNew h₁ he
    · exact hWithin₂.isNew h₂ he

theorem mem_join_two
    {tail tail' : List Endpoint}
    (e : Endpoint) :
    e ∈ joinTails [tail, tail'] ↔ e ∈ tail ∨ e ∈ tail' := by
  rw [mem_joinTails]
  simp

end FlowGraph.Script

------------------------------------------------------------
-- Loops
------------------------------------------------------------

namespace FlowGraph.Script

variable {P : Entry → Prop} {lo : Nat}
variable {s b : Session} {n : Node} {names : Names}

/- The script goes on after a loop. -/
theorem onward_afterLoop
    (hReady : (b.afterRounds s.graph.nextId).Ready) :
    (b.afterRounds s.graph.nextId).Onward (s.afterLoop b) := by
  unfold Session.afterLoop
  split
  · have hGuard :
        Session.Leads (fun _ => True) 0
          (b.afterRounds s.graph.nextId)
          ((b.afterRounds s.graph.nextId).withBuilder
            (b.afterRounds s.graph.nextId).builder.guarded) :=
      Session.leads_withBuilder hReady
        (advances_guarded hReady.builder)
    exact hGuard.onward (Builder.fresh_guarded hReady.builder)
  · exact .refl hReady

theorem journal_afterLoop :
    (s.afterLoop b).journal = b.journal := by
  unfold Session.afterLoop
  split <;> rfl

theorem later_afterLoop
    (hReady : (b.afterRounds s.graph.nextId).Ready) :
    b.Later (s.afterLoop b) := by
  have hLeave : b.Later (b.afterRounds s.graph.nextId) :=
    Session.later_of_eq rfl rfl rfl (List.suffix_refl _)
  unfold Session.afterLoop
  split
  · exact hLeave.trans (Session.later_withBuilder
      (advances_guarded hReady.builder))
  · exact hLeave

/-
  What a loop leaves open is its second exec output or comes
  after the body.
-/
theorem mem_tail_afterLoop
    (hReady : (b.afterRounds s.graph.nextId).Ready)
    {e : Endpoint}
    (he : e ∈ (s.afterLoop b).frame.tail) :
    e = ⟨s.graph.nextId, 1⟩ ∨ b.graph.nextId ≤ e.node := by
  rcases (onward_afterLoop hReady).advance.mem_or_new he with
    hOld | hNew
  · exact Or.inl (List.mem_singleton.mp hOld)
  · exact Or.inr hNew

/- After the body only the second exec output got a link. -/
theorem execTarget_afterLoop
    (hReady : (b.afterRounds s.graph.nextId).Ready)
    {e : Endpoint}
    (hLt : e.node < b.graph.nextId)
    (hNe : e ≠ ⟨s.graph.nextId, 1⟩) :
    (s.afterLoop b).graph.execTarget e =
      b.graph.execTarget e :=
  (onward_afterLoop hReady).advance.grows.apart hLt
    fun hMem => hNe (List.mem_singleton.mp hMem)

/- The body of a loop, once the rounds are over. -/
theorem within_loop
    (hReady : s.Ready)
    (hExec : n.nodeClass = .exec)
    (hBody :
      Session.Leads P lo
        (((s.placed n).inRound s.graph.nextId).withNames names)
        b)
    (hAfter : (b.afterRounds s.graph.nextId).Ready) :
    Session.Within s (s.afterLoop b)
      (((s.placed n).inRound s.graph.nextId).withNames names)
      b ∧
      ∀ e ∈ b.frame.tail, e ∉ (s.afterLoop b).frame.tail := by
  have hOther :
      ∀ e : Endpoint,
        s.graph.nextId + 1 ≤ e.node ∨
            e ∈ [(⟨s.graph.nextId, 0⟩ : Endpoint)] →
          e ≠ ⟨s.graph.nextId, 1⟩ := by
    intro e hRange hEq
    rw [hEq] at hRange
    rcases hRange with hLe | hMem
    · exact Nat.not_succ_le_self _ hLe
    · cases List.mem_singleton.mp hMem
  have hUnlisted :
      ∀ e : Endpoint,
        s.graph.nextId + 1 ≤ e.node ∨
            e ∈ [(⟨s.graph.nextId, 0⟩ : Endpoint)] →
          e.node < b.graph.nextId →
            e ∉ (s.afterLoop b).frame.tail := by
    intro e hRange hLt hMem
    rcases mem_tail_afterLoop hAfter hMem with hEq | hNew
    · exact hOther e hRange hEq
    · omega
  have hDropped :
      ∀ e ∈ b.frame.tail, e ∉ (s.afterLoop b).frame.tail := by
    intro e he
    have hMem := hBody.mem_tail he
    exact hUnlisted e hMem.1 hMem.2
  have hBefore :
      (s.placed n).Later
        (((s.placed n).inRound s.graph.nextId).withNames
          names) :=
    Session.later_of_eq rfl rfl rfl (List.suffix_refl _)
  refine ⟨⟨(Session.later_placed hReady hExec).trans hBefore,
    later_afterLoop hAfter, ?_, ?_,
    fun d hd => Or.inl (journal_afterLoop ▸ hd), ?_,
    Or.inr hDropped⟩, hDropped⟩
  · intro e he
    exact Graph.node_le_of_mem_singleton he
  · intro e hRange hLt
    exact execTarget_afterLoop hAfter hLt (hOther e hRange)
  · intro e hRange hLt hMem
    exact absurd hMem (hUnlisted e hRange hLt)

/- The node of a loop is entered. -/
theorem entered_loop
    (hReady : s.Ready)
    (hExec : n.nodeClass = .exec)
    (hBody :
      Session.Leads P lo
        (((s.placed n).inRound s.graph.nextId).withNames names)
        b)
    (hAfter : (b.afterRounds s.graph.nextId).Ready) :
    s.Entered n (s.afterLoop b) := by
  have hLe : s.graph.nextId + 1 ≤ b.graph.nextId :=
    hBody.nextId_le
  refine (s.entered_placed n).extends hReady
    (hBody.builder.advance.grows.extends.trans
      (onward_afterLoop hAfter).advance.grows.extends) ?_ ?_
  · intro e he
    rcases List.mem_append.mp he with he | he
    · exact (within_loop hReady hExec hBody hAfter).1.start e
        he
    · exact Graph.node_le_of_mem_singleton he
  · intro e he
    rcases mem_tail_afterLoop hAfter he with hEq | hNew
    · exact Nat.le_of_eq (by rw [hEq])
    · omega

/- What a statement with the body of a loop did. -/
theorem Unfolds.afterLoop
    {script body : List Stmt}
    {path : Path}
    {st : Stmt}
    {s₁ : Session}
    {a b : Segment → Session}
    {r : Result}
    (h : Unfolds script path s a b st r s₁)
    (hBody : st.body? .loopBody = some body) :
    ∃ bind n value,
      st.Repeats s.names bind body n value ∧
        a .loopBody =
            ((s.placed n).inRound s.graph.nextId).withNames
              ((s.names.keep bind
                (.value (value s.graph.nextId))).keep bind
                  (.node s.graph.nextId)) ∧
          r = .node s.graph.nextId ∧
            s₁ = s.afterLoop (b .loopBody) := by
  cases h with
  | loop hRepeats hStart hRan =>
      have hSame := hRepeats.body.1
      rw [hBody] at hSame
      cases hSame
      exact ⟨_, _, _, hRepeats, hStart, rfl, rfl⟩
  | conditional hDecides => cases hDecides <;> cases hBody
  | _ => cases hBody

end FlowGraph.Script

------------------------------------------------------------
-- Switches
------------------------------------------------------------

namespace FlowGraph.Script

variable {P : Entry → Prop}
variable {s s₁ s₂ : Session}
variable {control : Value} {sw : Switch (Run Unit)}
variable {branches : List (Option Branch)}
variable {join : List Endpoint}

/- The node of a switch is entered. -/
theorem Assembled.entered
    (h : Assembled P control sw s branches s₁ join s₂)
    (hReady : s.Ready) :
    s.Entered (switchNode control sw) (s₂.withTail join) := by
  refine (s.entered_placed _).extends hReady h.extends ?_
    h.spread.isNew
  intro e he
  exact Nat.le_of_eq (mem_outputsFrom.mp he).1.symm

end FlowGraph.Script

------------------------------------------------------------
-- Runs That Go On
------------------------------------------------------------

namespace FlowGraph.Script

variable {script block : List Stmt} {path : Path}
variable {st : Stmt} {i : Nat} {s s' s₁ : Session}
variable {a b : Segment → Session} {r : Result}

/- A statement leads to new nodes. -/
theorem StmtRan.onward
    (h : StmtRan script path st s s') :
    s.Onward s' := by
  have hReady := h.ready
  have hLeads := h.leads
  refine hLeads.onward ?_
  rcases h.unfolds with ⟨a, b, r, s₁, hUnfolds, hEnd⟩
  rw [hEnd] at hLeads ⊢
  cases hUnfolds with
  | action hActs => exact hActs.fresh hReady.builder
  | function hStart hBody =>
      exact Graph.fresh_of_cursor hLeads.ready.builder.cursor
  | conditional hDecides hFirst hThen hSecond hElseReady
      hElse =>
      have h₁ := hThen.leads
      have h₂ := hElse.leads hElseReady
      rw [hFirst] at h₁
      rw [hSecond] at h₂
      exact (entered_conditional hReady rfl h₁ h₂
        mem_join_two).fresh
  | switch hEval hAssembled hArms hBodies =>
      exact (hAssembled.entered hReady).fresh
  | loop hRepeats hStart hBody =>
      have hRan := hBody.leads
      rw [hStart] at hRan
      exact (entered_loop hReady hRepeats.body.2.1 hRan
        (leads_rounds hReady hRepeats hRan).ready).fresh

theorem BlockRan.onward
    (h : BlockRan script path i block s s') :
    s.Onward s' := by
  induction block generalizing i s with
  | nil =>
      rw [h.nil]
      exact .refl h.ready
  | cons st rest ih =>
      rcases h.cons with ⟨s₁, hFirst, hRest⟩
      exact .trans h.ready hFirst.onward (ih hRest)

theorem BodyRan.onward
    {a b : Session}
    (h : BodyRan script path block a b) :
    a.Onward b := by
  have hBlock := BlockRan.onward h
  exact (BodyRan.leads h).onward hBlock.fresh

theorem BranchRan.onward
    {body? : Option (List Stmt)}
    {a b : Session}
    (h : BranchRan script path body? a b)
    (hReady : a.Ready) :
    a.Onward b := by
  cases body? with
  | none =>
      cases h
      exact .refl hReady
  | some body => exact BodyRan.onward h

end FlowGraph.Script

------------------------------------------------------------
-- Enclosed Bodies
------------------------------------------------------------

namespace FlowGraph.Script

/-
  A statement has run from `s` to `s'`, and one of its bodies
  from `a` to `b`, perhaps as another function.  Afterwards
  the links of the body were not touched, and links to its
  nodes were made in its presence only.
-/
structure Session.Encloses
    (s s' a b : Session) :
    Prop where
  before : s.graph.nextId ≤ a.graph.nextId
  after : b.graph.nextId ≤ s'.graph.nextId
  nodes :
    ∀ {id n}, b.graph.nodes.get? id = some n →
      s'.graph.nodes.get? id = some n
  start : ∀ e ∈ a.frame.tail, s.graph.nextId ≤ e.node
  links :
    ∀ e, a.graph.nextId ≤ e.node ∨ e ∈ a.frame.tail →
      e.node < b.graph.nextId →
        s'.graph.execTarget e = b.graph.execTarget e
  told :
    ∀ d ∈ s'.journal, d ∈ b.journal ∨
      ∀ e, a.graph.nextId ≤ e.node ∨ e ∈ a.frame.tail →
        e.node < b.graph.nextId →
          d.graph.execTarget e = b.graph.execTarget e
  listed :
    ∀ e, a.graph.nextId ≤ e.node ∨ e ∈ a.frame.tail →
      e.node < b.graph.nextId →
        e ∈ s'.frame.tail → e ∈ b.frame.tail
  joined :
    (∀ e ∈ b.frame.tail, e ∈ s'.frame.tail) ∨
      ∀ e ∈ b.frame.tail, e ∉ s'.frame.tail
  shares : a.Shares b s'.graph
  journal : b.journal <:+ s'.journal

theorem Session.Within.encloses
    {s s' a b : Session}
    (h : Session.Within s s' a b)
    (hShares : a.Shares b s'.graph) :
    Session.Encloses s s' a b :=
  ⟨h.before.nextId_le, h.after.nextId_le, h.after.nodes,
    h.start, h.links, h.told, h.listed, h.joined, hShares,
    h.after.journal⟩

/- A statement is journaled after its bodies. -/
theorem Session.Encloses.finish
    {s s' a b : Session}
    (h : Session.Encloses s s' a b)
    (path : Path)
    (bind : Binding)
    (r : Result) :
    Session.Encloses s (s'.finish path bind r) a b := by
  refine ⟨h.before, h.after, h.nodes, h.start, h.links, ?_,
    h.listed, h.joined, h.shares,
    h.journal.trans (List.suffix_cons _ _)⟩
  intro d hd
  rcases List.mem_cons.mp hd with hEq | hd
  · rw [hEq]
    exact Or.inr h.links
  · exact h.told d hd

variable {script : List Stmt} {path : Path} {st : Stmt}
variable {s s₁ : Session} {a b : Segment → Session}
variable {r : Result} {segment : Segment} {body : List Stmt}

/- The bodies that belong to the same function. -/
theorem Unfolds.within
    (h : Unfolds script path s a b st r s₁)
    (hReady : s.Ready)
    (hBody : st.body? segment = some body)
    (hSame : segment ≠ .function) :
    Session.Within s s₁ (a segment) (b segment) ∧
      (a segment).Shares (b segment) s₁.graph := by
  cases h with
  | action hActs => cases hBody
  | function hStart hRan =>
      cases segment <;> cases hBody
      exact absurd rfl hSame
  | conditional hDecides hFirst hThen hSecond hElseReady
      hElse =>
      have h₁ := hThen.leads
      have h₂ := hElse.leads hElseReady
      rw [hFirst] at h₁
      rw [hSecond] at h₂
      have hCases := hDecides.segment hBody
      rcases hCases with hEq | hEq
      · rw [hEq, hFirst]
        refine ⟨within_first hReady rfl h₂ mem_join_two, ?_⟩
        intro e t hLink hLt
        have hOther := hElse.onward hElseReady
        rw [hSecond] at hOther
        exact Or.inl (hOther.old_link hLink hLt)
      · rw [hEq, hSecond]
        exact ⟨within_second hReady rfl h₁ mem_join_two,
          fun _ _ hLink _ => Or.inl hLink⟩
  | switch hEval hAssembled hArms hBodies =>
      rcases arm_of_body? path hBody with
        ⟨hSegment, hArm⟩
      have hTaken := hArms.bodies _ _ hArm
      rw [hSegment, Nat.zero_add] at hTaken
      refine ⟨(hAssembled.within hReady hTaken).1, ?_⟩
      have hShares :=
        hAssembled.shares hReady hArms ?_ hArm
      · rw [hSegment] at hShares
        exact hShares
      · intro j run hRun
        rcases body_preparedSwitch _ _ hRun rfl with
          ⟨block, hBlock, _⟩
        exact (hBodies _ _ hBlock).onward.fresh
  | loop hRepeats hStart hRan =>
      have hLeads := hRan.leads
      have hCases := hRepeats.segment hBody
      rw [hStart] at hLeads
      have hAfter :=
        (leads_rounds hReady hRepeats hLeads).ready
      rw [hCases, hStart]
      refine ⟨(within_loop hReady hRepeats.body.2.1 hLeads
        hAfter).1, ?_⟩
      intro e t hLink hLt
      exact Or.inl
        ((onward_afterLoop hAfter).old_link hLink hLt)

/- All bodies, those of functions included. -/
theorem Unfolds.encloses
    (h : Unfolds script path s a b st r s₁)
    (hReady : s.Ready)
    (hBody : st.body? segment = some body) :
    Session.Encloses s s₁ (a segment) (b segment) := by
  by_cases hSame : segment = .function
  · cases hSame
    have hRan := (h.body hBody).leads
    cases h with
    | function hStart _ =>
        have hLe := hRan.nextId_le
        rw [hStart] at hRan hLe ⊢
        -- The cursor around the function is older than that.
        have hUnlisted :
            ∀ e : Endpoint,
              s.graph.nextId + 1 ≤ e.node ∨
                  e ∈ [(⟨s.graph.nextId, 0⟩ : Endpoint)] →
                e ∉ s.frame.tail := by
          intro e hRange hMem
          have hOld : e.node < s.graph.nextId :=
            hReady.builder.tail_lt hMem
          rcases hRange with hNew | hEntry
          · omega
          · rw [List.mem_singleton.mp hEntry] at hOld
            exact Nat.lt_irrefl _ hOld
        refine ⟨Nat.le_succ _, Nat.le_refl _, id, ?_,
          fun _ _ _ => rfl, fun _ hd => Or.inl hd, ?_,
          Or.inr ?_, fun _ _ hLink _ => Or.inl hLink,
          List.suffix_refl _⟩
        · intro e he
          exact Graph.node_le_of_mem_singleton he
        · intro e hRange _ hMem
          exact absurd hMem (hUnlisted e hRange)
        · intro e he
          exact hUnlisted e (hRan.mem_tail he).1
    | conditional hDecides => cases hDecides <;> cases hBody
    | loop hRepeats => cases hRepeats <;> cases hBody
    | _ => cases hBody
  · rcases h.within hReady hBody hSame with
      ⟨hWithin, hShares⟩
    exact hWithin.encloses hShares

end FlowGraph.Script
