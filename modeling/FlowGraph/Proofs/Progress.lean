import FlowGraph.Proofs.Control

/-
  Progress of a session.

  A session leads to another if the graph has grown at the
  cursor, the flow goes on from open exec outputs, and the
  journal tells of points on the way that were in order as
  well.  While several bodies of a construct are still to be
  run, the exec outputs that they will start from count as
  listed, so that each body is a step of its own.

  Key definitions include:
    * `FlowGraph.Graph.Paired`
    * `FlowGraph.Script.Session.Ready`
    * `FlowGraph.Script.Session.Leads`

  Key theorems include:
    * `FlowGraph.Graph.Paired.advance`
    * `FlowGraph.Script.Session.Leads.trans`
    * `FlowGraph.Script.Session.Leads.focus`
    * `FlowGraph.Script.Session.Leads.narrow`
-/

------------------------------------------------------------
-- Endpoints That Stay Together
------------------------------------------------------------

namespace FlowGraph.Graph

/-
  Two endpoints lead to the same node, and if one of them is
  still to be linked then so is the other.
-/
structure Paired
    (g : Graph)
    (tail : List Endpoint)
    (a b : Endpoint) :
    Prop where
  left_lt : a.node < g.nextId
  right_lt : b.node < g.nextId
  target : g.execTarget a = g.execTarget b
  listed : a ∈ tail ↔ b ∈ tail

variable {g g' : Graph}
variable {tail tail' : List Endpoint}
variable {a b start : Endpoint}

theorem Paired.grows
    (h : g.Paired tail a b)
    (hGrows : g.Grows tail g') :
    g'.execTarget a = g'.execTarget b := by
  by_cases ha : a ∈ tail
  · obtain ⟨t, ht⟩ := hGrows.together
    rw [ht a ha, ht b (h.listed.mp ha)]
  · have hb : b ∉ tail := fun hb => ha (h.listed.mpr hb)
    rw [hGrows.apart h.left_lt ha,
      hGrows.apart h.right_lt hb]
    exact h.target

/- Paired endpoints stay paired as the flow advances. -/
theorem Paired.advance
    (h : g.Paired tail a b)
    (hAdvance : g.Advance tail g' tail') :
    g'.Paired tail' a b := by
  have hLe := hAdvance.grows.nextId_le
  have ha := h.left_lt
  have hb := h.right_lt
  refine ⟨by omega, by omega, h.grows hAdvance.grows, ?_⟩
  rcases hAdvance.moves with ⟨hSame, _⟩ | hNew
  · rw [hSame]
    exact h.listed
  · constructor
    · intro hMem
      have hOld := hNew a hMem
      omega
    · intro hMem
      have hOld := hNew b hMem
      omega

/- Growth at another endpoint leaves their targets alone. -/
theorem Paired.apart
    (h : g.Paired tail a b)
    (ha : a ≠ start)
    (hb : b ≠ start)
    (hGrows : g.Grows [start] g') :
    g'.execTarget a = g'.execTarget b := by
  rw [hGrows.apart h.left_lt (by simpa using ha),
    hGrows.apart h.right_lt (by simpa using hb)]
  exact h.target

/- They stay so if another listed endpoint goes on alone. -/
theorem Paired.focus
    (h : g.Paired tail a b)
    (ha : a ≠ start)
    (hb : b ≠ start)
    (hAdvance : g.Advance [start] g' tail') :
    g'.Paired (tail.erase start ++ tail') a b := by
  have hLe := hAdvance.grows.nextId_le
  have hLeft := h.left_lt
  have hRight := h.right_lt
  have hNot :
      ∀ e : Endpoint, e ≠ start → e.node < g.nextId →
        e ∉ tail' := by
    intro e hNe hLt hMem
    rcases hAdvance.mem_or_new hMem with hStart | hNew
    · exact hNe (List.mem_singleton.mp hStart)
    · omega
  refine ⟨by omega, by omega,
    h.apart ha hb hAdvance.grows, ?_⟩
  simp only [List.mem_append, hNot a ha hLeft,
    hNot b hb hRight, List.mem_erase_of_ne ha,
    List.mem_erase_of_ne hb, or_false]
  exact h.listed

/- The list may change as long as it agrees on the two. -/
theorem Paired.listing
    (h : g.Paired tail a b)
    (hListed : a ∈ tail' ↔ b ∈ tail') :
    g.Paired tail' a b :=
  ⟨h.left_lt, h.right_lt, h.target, hListed⟩

end FlowGraph.Graph

------------------------------------------------------------
-- Several Open Outputs At A Time
------------------------------------------------------------

namespace FlowGraph.Builder

/- A builder that goes on from other exec outputs. -/
def withTail
    (b : Builder)
    (tail : List Endpoint) :
    Builder :=
  { b with frame := b.frame.setTail tail }

variable {b b₁ b₂ : Builder}
variable {tail tail' : List Endpoint}
variable {start : Endpoint}

/- The cursor may be any other open endpoints. -/
theorem Ready.withTail
    (h : b.Ready)
    (hCursor : b.graph.Cursor tail) :
    (b.withTail tail).Ready :=
  ⟨h.wf, hCursor, h.gate, h.gateType⟩

/- Other new endpoints may be listed after a step. -/
theorem Advances.withTail
    (h : b.Advances b₁)
    (hCursor : b₁.graph.Cursor tail)
    (hNew : ∀ e ∈ tail, b.graph.nextId ≤ e.node) :
    b.Advances (b₁.withTail tail) :=
  ⟨h.ready.withTail hCursor,
    h.advance.grows.advance_of_new hNew, h.loops, h.returns,
    h.gateKept, h.gateNew⟩

/-
  One of several new endpoints is taken up alone; the others
  stay listed next to what that leaves.
-/
theorem Advances.focus
    (hReady : b.Ready)
    (h : b.Advances (b₁.withTail tail))
    (hNew : ∀ e ∈ tail, b.graph.nextId ≤ e.node)
    (hStart : start ∈ tail)
    (hBody :
      (b₁.withTail [start]).Advances (b₂.withTail tail')) :
    b.Advances
        (b₂.withTail (tail.erase start ++ tail')) := by
  have hWf : b₁.graph.Wf := h.ready.wf
  have hCursor : b₁.graph.Cursor tail := h.ready.cursor
  have hCursor' : b₂.graph.Cursor tail' :=
    hBody.ready.cursor
  have hAdvance : b₁.graph.Advance [start] b₂.graph tail' :=
    hBody.advance
  have hOld : ∀ e ∈ tail, e.node < b₁.graph.nextId :=
    fun e he => hCursor.node_lt hWf he
  have hLe : b.graph.nextId ≤ b₁.graph.nextId :=
    h.nextId_le
  have hRest : b₂.graph.Cursor (tail.erase start) := by
    refine hAdvance.grows.cursor hWf
      ⟨hCursor.nodup.erase start, ?_⟩ ?_
    · intro e he
      exact hCursor.isOpen e (List.mem_of_mem_erase he)
    · intro e he hEq
      rw [List.mem_singleton.mp hEq] at he
      exact hCursor.nodup.not_mem_erase he
  have hDisjoint :
      ∀ e ∈ tail.erase start, e ∉ tail' := by
    intro e he hMem
    rcases hAdvance.mem_or_new hMem with hEq | hLater
    · rw [List.mem_singleton.mp hEq] at he
      exact hCursor.nodup.not_mem_erase he
    · have hLt := hOld e (List.mem_of_mem_erase he)
      omega
  have hJoined :
      b₂.graph.Cursor (tail.erase start ++ tail') := by
    constructor
    · rw [List.nodup_append]
      refine ⟨hRest.nodup, hCursor'.nodup, ?_⟩
      intro e he d hd hEq
      rw [hEq] at he
      exact hDisjoint d he hd
    · intro e he
      rcases List.mem_append.mp he with he | he
      · exact hRest.isOpen e he
      · exact hCursor'.isOpen e he
  have hGrows : b.graph.Grows b.frame.tail b₂.graph := by
    refine h.advance.grows.trans hAdvance.grows
      (fun e he => hReady.tail_lt he) ?_
    intro e he
    rw [List.mem_singleton.mp he]
    exact hNew start hStart
  refine ⟨hBody.ready.withTail hJoined,
    hGrows.advance_of_new ?_, hBody.loops.trans h.loops,
    Nat.le_trans h.returns hBody.returns, ?_, ?_⟩
  · intro e he
    rcases List.mem_append.mp he with he | he
    · exact hNew e (List.mem_of_mem_erase he)
    · rcases hAdvance.mem_or_new he with hEq | hLater
      · rw [List.mem_singleton.mp hEq]
        exact hNew start hStart
      · omega
  · intro v hGate
    exact hBody.gateKept v (h.gateKept v hGate)
  · intro v hNone hSome
    cases hGate : b₁.frame.gate with
    | none =>
        exact Nat.le_trans hLe (hBody.gateNew v hGate hSome)
    | some w =>
        have hKept := hBody.gateKept w hGate
        have hEq : w = v :=
          Option.some.inj (hKept.symm.trans hSome)
        exact h.gateNew v hNone (hEq ▸ hGate)

end FlowGraph.Builder

------------------------------------------------------------
-- Entries Of The Journal
------------------------------------------------------------

namespace FlowGraph.Script

namespace Entry

/- The graph at the moment of an entry. -/
abbrev graph
    (e : Entry) :
    Graph :=
  e.builder.graph

/- The flow could go on from the cursor at that moment. -/
def IsOpen
    (e : Entry) :
    Prop :=
  e.graph.Cursor e.frame.tail

/-
  Two exec outputs of the node that an entry is about belong
  together from then on.
-/
structure Ties
    (e : Entry)
    (a b : Endpoint) :
    Prop where
  left : e.event = .finished (.node a.node)
  right : e.event = .finished (.node b.node)
  paired : e.graph.Paired e.frame.tail a b

end Entry

end FlowGraph.Script

------------------------------------------------------------
-- Sessions
------------------------------------------------------------

namespace FlowGraph.Script

/-
  The next node can be placed, and names stand for nodes of
  the graph and for variables other than the gate.
-/
structure Session.Ready
    (s : Session) :
    Prop where
  builder : s.builder.Ready
  nodes :
    ∀ p ∈ s.names.nodes, ∃ n,
      s.graph.nodes.get? p.2 = some n
  locals : ∀ p ∈ s.names.locals, p.2.Declared s.graph
  gate :
    ∀ p ∈ s.names.locals, ∀ v, s.frame.gate = some v →
      v.node ≠ p.2.node

/-
  The entries that a run has added to the journal, the last
  one first.  Every one has a given property and shows an
  open cursor, and what it ties stays together in later ones
  and at the end.
-/
structure Session.History
    (P : Entry → Prop)
    (lo : Nat)
    (s : Session)
    (news : List Entry)
    (s' : Session) :
    Prop where
  holds : ∀ e ∈ news, P e
  isOpen :
    ∀ e ∈ news, e.event.isFailure = false ∧ e.IsOpen
  grows : ∀ e ∈ news, s.graph.Grows s.frame.tail e.graph
  finished :
    ∀ e ∈ news, ∀ m, e.event = .finished (.node m) → lo ≤ m
  later :
    news.Pairwise fun e' e => ∀ a b, e.Ties a b →
      e'.graph.execTarget a = e'.graph.execTarget b
  tied :
    ∀ e ∈ news, ∀ a b, e.Ties a b →
      s'.graph.Paired s'.frame.tail a b

/-
  A run leads from one session to the other.  The nodes that
  statements finished on the way have numbers from `lo` on.
-/
structure Session.Leads
    (P : Entry → Prop)
    (lo : Nat)
    (s s' : Session) :
    Prop where
  ready : s'.Ready
  builder : s.builder.Advances s'.builder
  locals :
    ∀ p ∈ s'.names.locals,
      p ∈ s.names.locals ∨ s.graph.nextId ≤ p.2.node
  journal :
    ∃ news, s'.journal = news ++ s.journal ∧
      Session.History P lo s news s'

namespace Session

variable {P : Entry → Prop}
variable {lo lo' : Nat} {s s₁ s₂ : Session}
variable {news news' : List Entry}
variable {tail tail' : List Endpoint}
variable {start : Endpoint}

theorem Leads.nextId_le
    (h : Leads P lo s s₁) :
    s.graph.nextId ≤ s₁.graph.nextId :=
  h.builder.nextId_le

/- No entry was added. -/
theorem history_nil :
    History P lo s [] s₁ :=
  ⟨by simp, by simp, by simp, by simp, List.Pairwise.nil,
    by simp⟩

/- The bound on finished nodes may be lowered. -/
theorem Leads.weaken
    (h : Leads P lo s s₁)
    (hLe : lo' ≤ lo) :
    Leads P lo' s s₁ := by
  obtain ⟨news, hJournal, hNews⟩ := h.journal
  refine ⟨h.ready, h.builder, h.locals, news, hJournal,
    hNews.holds, hNews.isOpen, hNews.grows, ?_, hNews.later,
    hNews.tied⟩
  intro e he m hm
  exact Nat.le_trans hLe (hNews.finished e he m hm)

/- A step on the builder alone. -/
theorem leads_withBuilder
    {b : Builder}
    (hReady : s.Ready)
    (h : s.builder.Advances b) :
    Leads P lo s (s.withBuilder b) := by
  refine ⟨⟨h.ready, ?_, ?_, ?_⟩, h, fun p hp => Or.inl hp,
    [], rfl, history_nil⟩
  · intro p hp
    obtain ⟨n, hNode⟩ := hReady.nodes p hp
    exact ⟨n, h.advance.grows.nodes hNode⟩
  · intro p hp
    exact (hReady.locals p hp).mono h.nextId_le
  · intro p hp v hGate
    have hLt := (hReady.locals p hp).node_lt
    cases hOld : s.frame.gate with
    | none =>
        have hLe : s.graph.nextId ≤ v.node :=
          h.gateNew v hOld hGate
        omega
    | some w =>
        have hKept := h.gateKept w hOld
        have hEq : w = v :=
          Option.some.inj (hKept.symm.trans hGate)
        exact hEq ▸ hReady.gate p hp w hOld

theorem Leads.refl
    (hReady : s.Ready) :
    Leads P lo s s :=
  leads_withBuilder hReady (.refl hReady.builder)

/- The entries of two runs, one after the other. -/
theorem History.append
    (hReady : s.Ready)
    (hFirst :
      s.graph.Advance s.frame.tail s₁.graph s₁.frame.tail)
    (hSecond :
      s₁.graph.Advance s₁.frame.tail s₂.graph s₂.frame.tail)
    (h₁ : History P lo s news s₁)
    (h₂ : History P lo s₁ news' s₂) :
    History P lo s (news' ++ news) s₂ := by
  have hOld : ∀ e ∈ s.frame.tail, e.node < s.graph.nextId :=
    fun e he => hReady.builder.tail_lt he
  refine ⟨List.forall_mem_append.mpr ⟨h₂.holds, h₁.holds⟩,
    List.forall_mem_append.mpr ⟨h₂.isOpen, h₁.isOpen⟩,
    List.forall_mem_append.mpr ⟨?_, h₁.grows⟩,
    List.forall_mem_append.mpr ⟨h₂.finished, h₁.finished⟩,
    ?_, List.forall_mem_append.mpr ⟨h₂.tied, ?_⟩⟩
  · intro e he
    exact hFirst.grows_trans (h₂.grows e he) hOld
  · rw [List.pairwise_append]
    refine ⟨h₂.later, h₁.later, ?_⟩
    intro e' he' e he a b hTies
    exact (h₁.tied e he a b hTies).grows (h₂.grows e' he')
  · intro e he a b hTies
    exact (h₁.tied e he a b hTies).advance hSecond

/- One run after another. -/
theorem Leads.trans
    (hReady : s.Ready)
    (h₁ : Leads P lo s s₁)
    (h₂ : Leads P lo s₁ s₂) :
    Leads P lo s s₂ := by
  obtain ⟨news, hJournal, hNews⟩ := h₁.journal
  obtain ⟨news', hJournal', hNews'⟩ := h₂.journal
  refine ⟨h₂.ready, .trans hReady.builder h₁.builder
    h₂.builder, ?_, news' ++ news, ?_,
    hNews.append hReady h₁.builder.advance
      h₂.builder.advance hNews'⟩
  · intro p hp
    rcases h₂.locals p hp with hp | hLe
    · exact h₁.locals p hp
    · exact Or.inr (Nat.le_trans h₁.nextId_le hLe)
  · rw [hJournal', hJournal, List.append_assoc]

end Session

end FlowGraph.Script

------------------------------------------------------------
-- Runs Of Bodies
------------------------------------------------------------

namespace FlowGraph.Script.Session

variable {P : Entry → Prop}
variable {lo : Nat} {s s₁ s₂ : Session}
variable {tail tail' : List Endpoint}
variable {start : Endpoint}

/- A session stays ready at another open cursor. -/
theorem Ready.withTail
    (h : s.Ready)
    (hCursor : s.graph.Cursor tail) :
    (s.withTail tail).Ready :=
  ⟨h.builder.withTail hCursor, h.nodes, h.locals, h.gate⟩

/- The finished nodes are apart from a node below them. -/
theorem History.ne_start
    {news : List Entry}
    (h : History P lo s news s₁)
    {e : Entry}
    (he : e ∈ news)
    {a b : Endpoint}
    (hTies : e.Ties a b)
    (hBelow : start.node < lo) :
    a ≠ start ∧ b ≠ start := by
  have ha := h.finished e he _ hTies.left
  have hb := h.finished e he _ hTies.right
  constructor
  · rintro rfl
    omega
  · rintro rfl
    omega

/-
  The body that starts at one of several listed endpoints is
  run, and the others stay listed.
-/
theorem Leads.focus
    (hReady : s.Ready)
    (h : Leads P lo s (s₁.withTail tail))
    (hNew : ∀ e ∈ tail, s.graph.nextId ≤ e.node)
    (hStart : start ∈ tail)
    (hBelow : start.node < lo)
    (hLo : lo ≤ s₁.graph.nextId)
    (hBody :
      Leads P s₁.graph.nextId (s₁.withTail [start])
        (s₂.withTail tail')) :
    Leads P lo s (s₂.withTail (tail.erase start ++ tail')) := by
  have hBuilder :
      s.builder.Advances
        (s₂.builder.withTail (tail.erase start ++ tail')) :=
    .focus hReady.builder h.builder hNew hStart
      hBody.builder
  have hAdvance : s₁.graph.Advance [start] s₂.graph tail' :=
    hBody.builder.advance
  have hCursor : s₁.graph.Cursor tail :=
    h.ready.builder.cursor
  have hWf : s₁.graph.Wf := h.ready.builder.wf
  obtain ⟨news, hJournal, hNews⟩ := h.journal
  obtain ⟨news', hJournal', hNews'⟩ := hBody.journal
  refine ⟨hBody.ready.withTail hBuilder.ready.cursor,
    hBuilder, ?_, news' ++ news, ?_, ?_⟩
  · intro p hp
    rcases hBody.locals p hp with hp | hLe
    · exact h.locals p hp
    · exact Or.inr (Nat.le_trans h.nextId_le hLe)
  · rw [List.append_assoc]
    exact hJournal'.trans (congrArg (news' ++ ·) hJournal)
  refine ⟨
    List.forall_mem_append.mpr ⟨hNews'.holds, hNews.holds⟩,
    List.forall_mem_append.mpr
      ⟨hNews'.isOpen, hNews.isOpen⟩,
    List.forall_mem_append.mpr ⟨?_, hNews.grows⟩,
    List.forall_mem_append.mpr ⟨?_, hNews.finished⟩,
    ?_, List.forall_mem_append.mpr ⟨?_, ?_⟩⟩
  · intro e he
    refine h.builder.advance.grows.trans (hNews'.grows e he)
      (fun d hd => hReady.builder.tail_lt hd) ?_
    intro d hd
    rw [List.mem_singleton.mp hd]
    exact hNew start hStart
  · intro e he m hm
    exact Nat.le_trans hLo (hNews'.finished e he m hm)
  · rw [List.pairwise_append]
    refine ⟨hNews'.later, hNews.later, ?_⟩
    intro e' he' e he a b hTies
    have hNe := hNews.ne_start he hTies hBelow
    exact (hNews.tied e he a b hTies).apart hNe.1 hNe.2
      (hNews'.grows e' he')
  · -- The outputs of a node made by the body are not among
    -- the other listed endpoints, which are older.
    intro e he a b hTies
    have hNot :
        ∀ c : Endpoint, s₁.graph.nextId ≤ c.node →
          c ∉ tail.erase start := by
      intro c hLe hMem
      have hLt :=
        hCursor.node_lt hWf (List.mem_of_mem_erase hMem)
      omega
    have hPaired := hNews'.tied e he a b hTies
    apply hPaired.listing
    have ha := hNot a (hNews'.finished e he _ hTies.left)
    have hb := hNot b (hNews'.finished e he _ hTies.right)
    simp only [withTail_frame, Frame.setTail,
      List.mem_append, ha, hb, false_or]
    exact hPaired.listed
  · intro e he a b hTies
    have hNe := hNews.ne_start he hTies hBelow
    exact (hNews.tied e he a b hTies).focus hNe.1 hNe.2
      hAdvance

/- Endpoints of nodes below the bound may be dropped. -/
theorem Leads.narrow
    (h : Leads P lo s (s₁.withTail tail))
    (hNew : ∀ e ∈ tail, s.graph.nextId ≤ e.node)
    (hNodup : tail'.Nodup)
    (hSub : ∀ e ∈ tail', e ∈ tail)
    (hKept : ∀ e ∈ tail, lo ≤ e.node → e ∈ tail') :
    Leads P lo s (s₁.withTail tail') := by
  have hCursor : s₁.graph.Cursor tail' :=
    ⟨hNodup, fun e he =>
      h.ready.builder.cursor.isOpen e (hSub e he)⟩
  obtain ⟨news, hJournal, hNews⟩ := h.journal
  refine ⟨h.ready.withTail hCursor,
    h.builder.withTail hCursor
      (fun e he => hNew e (hSub e he)),
    h.locals, news, hJournal, hNews.holds, hNews.isOpen,
    hNews.grows, hNews.finished, hNews.later, ?_⟩
  intro e he a b hTies
  have hPaired := hNews.tied e he a b hTies
  have hIff :
      ∀ c : Endpoint, lo ≤ c.node →
        (c ∈ tail' ↔ c ∈ tail) :=
    fun c hLe => ⟨hSub c, fun hc => hKept c hc hLe⟩
  apply hPaired.listing
  have ha := hIff a (hNews.finished e he _ hTies.left)
  have hb := hIff b (hNews.finished e he _ hTies.right)
  simp only [withTail_frame, Frame.setTail]
  rw [ha, hb]
  exact hPaired.listed

/- All endpoints may be dropped. -/
theorem Leads.drop
    (h : Leads P lo s s₁) :
    Leads P lo s (s₁.withTail []) := by
  have hCursor := Graph.cursor_nil s₁.graph
  obtain ⟨news, hJournal, hNews⟩ := h.journal
  refine ⟨h.ready.withTail hCursor,
    h.builder.withTail hCursor (by simp), h.locals, news,
    hJournal, hNews.holds, hNews.isOpen, hNews.grows,
    hNews.finished, hNews.later, ?_⟩
  intro e he a b hTies
  exact (hNews.tied e he a b hTies).listing
    (by simp [Frame.setTail])

end FlowGraph.Script.Session

------------------------------------------------------------
-- Loops And Functions
------------------------------------------------------------

namespace FlowGraph.Script.Session

variable {P : Entry → Prop}
variable {lo : Nat} {s s₁ : Session}

/- A session stays ready inside of a loop. -/
theorem Ready.pushLoop
    (h : s.Ready)
    (node : Nat) :
    (s.onFrame fun f => f.pushLoop node).Ready :=
  ⟨⟨h.builder.wf, h.builder.cursor, h.builder.gate,
      h.builder.gateType⟩,
    h.nodes, h.locals, h.gate⟩

/- What a body did inside of a loop, seen from outside. -/
theorem Leads.popLoop
    {node : Nat}
    (h : Leads P lo (s.onFrame fun f => f.pushLoop node) s₁) :
    Leads P lo s (s₁.onFrame fun f => f.popLoop.2) := by
  have hReady := h.ready
  have hLoops : s₁.frame.loops = node :: s.frame.loops :=
    h.builder.loops
  obtain ⟨news, hJournal, hNews⟩ := h.journal
  refine ⟨⟨⟨hReady.builder.wf, hReady.builder.cursor,
        hReady.builder.gate, hReady.builder.gateType⟩,
      hReady.nodes, hReady.locals, hReady.gate⟩,
    ⟨⟨hReady.builder.wf, hReady.builder.cursor,
        hReady.builder.gate, hReady.builder.gateType⟩,
      h.builder.advance, ?_, h.builder.returns,
      h.builder.gateKept, h.builder.gateNew⟩,
    h.locals, news, hJournal,
    ⟨hNews.holds, hNews.isOpen, hNews.grows, hNews.finished,
      hNews.later, hNews.tied⟩⟩
  simp [Frame.popLoop, hLoops]

/- A function starts ready. -/
theorem Ready.opened
    (h : s.Ready)
    (event : String) :
    (s.opened event).Ready := by
  have hAdded :
      s.builder.Advances
        (s.builder.added (entryNode event)) :=
    Builder.advances_added h.builder
  have hOpen :
      (s.opened event).graph.IsOpen ⟨s.graph.nextId, 0⟩ :=
    Graph.isOpen_attach h.builder.wf (Graph.cursor_nil _) rfl
      Nat.one_pos
  have hGate :
      ∀ v, (s.opened event).frame.gate ≠ some v := by
    intro v hv
    cases hv
  refine ⟨⟨hAdded.ready.wf, Graph.cursor_singleton hOpen,
    fun v hv => absurd hv (hGate v),
    fun v hv => absurd hv (hGate v)⟩, ?_, ?_,
    fun _ _ v hv => absurd hv (hGate v)⟩
  · intro p hp
    obtain ⟨n, hNode⟩ := h.nodes p hp
    exact ⟨n, hAdded.advance.grows.nodes hNode⟩
  · intro p hp
    exact (h.locals p hp).mono hAdded.nextId_le

/- What a body did as a function, seen from outside. -/
theorem Leads.leaveFunction
    {event : String}
    (hReady : s.Ready)
    (hLo : s.graph.nextId ≤ lo)
    (h : Leads P lo (s.opened event) s₁) :
    Leads P lo s (s₁.onFrame fun _ => s.frame) := by
  have hWf := hReady.builder.wf
  have hAdded :
      s.graph.Grows [] (s.opened event).graph :=
    Graph.grows_attach hWf
  have hEntry :
      ∀ e ∈ (s.opened event).frame.tail,
        s.graph.nextId ≤ e.node := by
    intro e he
    exact Graph.node_le_of_mem_singleton he
  -- Whatever the function links is new, so at the old cursor
  -- nothing has changed.
  have hAside :
      ∀ g : Graph,
        (s.opened event).graph.Grows
            (s.opened event).frame.tail g →
          s.graph.Advance s.frame.tail g s.frame.tail := by
    intro g hGrows
    have hAll : s.graph.Grows [] g :=
      hAdded.trans hGrows (by simp) hEntry
    exact Graph.Advance.of_apart hAll.nodes hAll.nextId_le
      (fun hLt => hAll.apart hLt (by simp)) hWf
      hReady.builder.cursor
  have hAdvance := hAside _ h.builder.advance.grows
  have hLe := hAdvance.grows.nextId_le
  have hCursor : s₁.graph.Cursor s.frame.tail := by
    refine ⟨hReady.builder.cursor.nodup, ?_⟩
    intro e he
    refine ⟨hAdvance.grows.isOutput
      (hReady.builder.cursor.isOpen e he).1, ?_⟩
    rcases hAdvance.moves with ⟨_, hNone⟩ | hNew
    · exact hNone e he
    · have hLt : e.node < s.graph.nextId :=
        hReady.builder.tail_lt he
      have hGe := hNew e he
      omega
  have hBuilder :
      (s₁.onFrame fun _ => s.frame).builder.Ready :=
    ⟨h.ready.builder.wf, hCursor,
      fun v hv => (hReady.builder.gate v hv).mono hLe,
      hReady.builder.gateType⟩
  have hLocals :
      ∀ p ∈ s₁.names.locals,
        p ∈ s.names.locals ∨ s.graph.nextId ≤ p.2.node := by
    intro p hp
    rcases h.locals p hp with hp | hGe
    · exact Or.inl hp
    · exact Or.inr (Nat.le_trans (Nat.le_succ _) hGe)
  obtain ⟨news, hJournal, hNews⟩ := h.journal
  refine ⟨⟨hBuilder, h.ready.nodes, h.ready.locals, ?_⟩,
    ⟨hBuilder, hAdvance, rfl, Nat.le_refl _,
      fun _ hv => hv, ?_⟩,
    hLocals, news, hJournal, hNews.holds, hNews.isOpen, ?_,
    hNews.finished, hNews.later, ?_⟩
  · intro p hp v hv
    rcases hLocals p hp with hp | hGe
    · exact hReady.gate p hp v hv
    · have hLt : v.node < s.graph.nextId :=
        (hReady.builder.gate v hv).node_lt
      omega
  · intro v hNone hSome
    exact absurd (hNone.symm.trans hSome) (by simp)
  · intro e he
    exact (hAside _ (hNews.grows e he)).grows
  · intro e he a b hTies
    have hNot :
        ∀ c : Endpoint, lo ≤ c.node → c ∉ s.frame.tail := by
      intro c hGe hMem
      have hLt : c.node < s.graph.nextId :=
        hReady.builder.tail_lt hMem
      omega
    apply (hNews.tied e he a b hTies).listing
    have ha := hNot a (hNews.finished e he _ hTies.left)
    have hb := hNot b (hNews.finished e he _ hTies.right)
    exact iff_of_false ha hb

end FlowGraph.Script.Session

------------------------------------------------------------
-- Entries And Names
------------------------------------------------------------

namespace FlowGraph.Script.Session

variable {P : Entry → Prop}
variable {lo : Nat} {s s₁ : Session}
variable {path : Path}

/- An entry is added at the end of a run. -/
theorem Leads.record
    {event : Event}
    (h : Leads P lo s s₁)
    (hHolds : P ⟨path, s₁.builder, event⟩)
    (hEvent : event.isFailure = false)
    (hFinished :
      ∀ m, event = .finished (.node m) → lo ≤ m) :
    Leads P lo s (s₁.record path event) := by
  have hReady := h.ready
  obtain ⟨news, hJournal, hNews⟩ := h.journal
  refine ⟨⟨hReady.builder, hReady.nodes, hReady.locals,
      hReady.gate⟩, h.builder, h.locals,
    ⟨path, s₁.builder, event⟩ :: news, ?_, ?_, ?_, ?_, ?_,
    ?_, ?_⟩
  · rw [List.cons_append, ← hJournal]
    rfl
  · exact List.forall_mem_cons.mpr ⟨hHolds, hNews.holds⟩
  · rw [List.forall_mem_cons]
    exact ⟨⟨hEvent, hReady.builder.cursor⟩, hNews.isOpen⟩
  · rw [List.forall_mem_cons]
    exact ⟨h.builder.advance.grows, hNews.grows⟩
  · rw [List.forall_mem_cons]
    exact ⟨hFinished, hNews.finished⟩
  · rw [List.pairwise_cons]
    refine ⟨?_, hNews.later⟩
    intro e he a b hTies
    exact (hNews.tied e he a b hTies).target
  · rw [List.forall_mem_cons]
    exact ⟨fun a b hTies => hTies.paired, hNews.tied⟩

/- The result of a run may be given a name. -/
def Fits
    (s s₁ : Session) :
    Result → Prop
  | .node id => ∃ n, s₁.graph.nodes.get? id = some n
  | .variable v =>
      s.graph.nextId ≤ v.node ∧ v.Declared s₁.graph ∧
        ∀ w, s₁.frame.gate = some w → w.node ≠ v.node
  | _ => True

/- The same, and a node is new. -/
def IsNew
    (s s₁ : Session)
    (r : Result) :
    Prop :=
  Fits s s₁ r ∧ ∀ id, r = .node id → s.graph.nextId ≤ id

theorem isNew_node
    {id : Nat}
    {n : Node}
    (hNode : s₁.graph.nodes.get? id = some n)
    (hLe : s.graph.nextId ≤ id) :
    IsNew s s₁ (.node id) := by
  refine ⟨⟨n, hNode⟩, ?_⟩
  intro id' hEq
  cases hEq
  exact hLe

/- A result is kept at the end of a run. -/
theorem Leads.keep
    {bind : Binding}
    {r : Result}
    (h : Leads P lo s s₁)
    (hFits : Fits s s₁ r) :
    Leads P lo s (s₁.withNames (s₁.names.keep bind r)) := by
  have hReady := h.ready
  have hNodes :
      ∀ p ∈ (s₁.names.keep bind r).nodes, ∃ n,
        s₁.graph.nodes.get? p.2 = some n := by
    intro p hp
    unfold Names.keep at hp
    split at hp
    · unfold Names.keepAs at hp
      split at hp
      · rcases List.mem_cons.mp hp with hEq | hp
        · rw [hEq]
          exact hFits
        · exact hReady.nodes p hp
      · exact hReady.nodes p hp
    all_goals
      try unfold Names.keepAs at hp
      try split at hp
      all_goals exact hReady.nodes p hp
  have hLocals :
      ∀ p ∈ (s₁.names.keep bind r).locals,
        p ∈ s₁.names.locals ∨ Fits s s₁ (.variable p.2) := by
    intro p hp
    unfold Names.keep at hp
    split at hp
    case h_3 v =>
      unfold Names.keepAs at hp
      split at hp
      · rcases List.mem_cons.mp hp with hEq | hp
        · rw [hEq]
          exact Or.inr hFits
        · exact Or.inl hp
      · exact Or.inl hp
    all_goals
      try unfold Names.keepAs at hp
      try split at hp
      all_goals exact Or.inl hp
  obtain ⟨news, hJournal, hNews⟩ := h.journal
  refine ⟨⟨hReady.builder, hNodes, ?_, ?_⟩, h.builder, ?_,
    news, hJournal, hNews.holds, hNews.isOpen, hNews.grows,
    hNews.finished, hNews.later, hNews.tied⟩
  · intro p hp
    rcases hLocals p hp with hp | hp
    · exact hReady.locals p hp
    · exact hp.2.1
  · intro p hp v hv
    rcases hLocals p hp with hp | hp
    · exact hReady.gate p hp v hv
    · exact hp.2.2 v hv
  · intro p hp
    rcases hLocals p hp with hp | hp
    · exact h.locals p hp
    · exact Or.inr hp.1

/- A statement is finished. -/
theorem Leads.finish
    {bind : Binding}
    {r : Result}
    (h : Leads P s.graph.nextId s s₁)
    (hHolds : P ⟨path, s₁.builder, .finished r⟩)
    (hNew : IsNew s s₁ r) :
    Leads P s.graph.nextId s (s₁.finish path bind r) := by
  refine (h.keep hNew.1).record hHolds rfl ?_
  intro m hm
  cases hm
  exact hNew.2 m rfl

end FlowGraph.Script.Session
