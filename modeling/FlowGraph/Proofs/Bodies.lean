import FlowGraph.Proofs.Switches

/-
  Bodies of constructs.

  A session that comes later has all that was there before.
  What a construct did with one of its bodies is told by the
  sessions before and after it: the links of the body were
  not touched afterwards, and what it left open is open at
  the end of the construct, or is given up.

  Key definitions include:
    * `FlowGraph.Script.Session.Later`
    * `FlowGraph.Script.Session.Within`
    * `FlowGraph.Script.Session.Entered`
    * `FlowGraph.Script.Session.Shares`
    * `FlowGraph.Script.Session.Onward`

  Key theorems include:
    * `FlowGraph.Script.Session.Leads.later`
    * `FlowGraph.Script.Session.Onward.trans`
    * `FlowGraph.Script.Session.Onward.old_link`
-/

------------------------------------------------------------
-- Later Sessions
------------------------------------------------------------

namespace FlowGraph.Script.Session

/- What a later session of the same function keeps. -/
structure Later
    (s s' : Session) :
    Prop where
  nodes :
    ∀ {id n}, s.graph.nodes.get? id = some n →
      s'.graph.nodes.get? id = some n
  nextId_le : s.graph.nextId ≤ s'.graph.nextId
  returns : s.frame.returns ≤ s'.frame.returns
  gateKept :
    ∀ v, s.frame.gate = some v → s'.frame.gate = some v
  gateNew :
    ∀ v, s'.frame.gate = some v →
      s.frame.gate = some v ∨ s.graph.nextId ≤ v.node
  journal : s.journal <:+ s'.journal

variable {P : Entry → Prop} {lo : Nat}
variable {s s₁ s₂ : Session}

theorem Later.trans
    (h₁ : s.Later s₁)
    (h₂ : s₁.Later s₂) :
    s.Later s₂ := by
  refine ⟨fun hNode => h₂.nodes (h₁.nodes hNode),
    Nat.le_trans h₁.nextId_le h₂.nextId_le,
    Nat.le_trans h₁.returns h₂.returns,
    fun v hv => h₂.gateKept v (h₁.gateKept v hv), ?_,
    h₁.journal.trans h₂.journal⟩
  intro v hv
  rcases h₂.gateNew v hv with hOld | hNew
  · exact h₁.gateNew v hOld
  · exact Or.inr (Nat.le_trans h₁.nextId_le hNew)

/- Only the cursor, the names or the journal changed. -/
theorem later_of_eq
    (hGraph : s₁.graph = s.graph)
    (hReturns : s₁.frame.returns = s.frame.returns)
    (hGate : s₁.frame.gate = s.frame.gate)
    (hJournal : s.journal <:+ s₁.journal) :
    s.Later s₁ := by
  refine ⟨?_, ?_, Nat.le_of_eq hReturns.symm,
    fun v hv => hGate.trans hv,
    fun v hv => Or.inl (hGate.symm.trans hv), hJournal⟩
  · intro id n hNode
    rw [hGraph]
    exact hNode
  · exact Nat.le_of_eq (congrArg Graph.nextId hGraph.symm)

theorem Later.refl :
    s.Later s :=
  later_of_eq rfl rfl rfl (List.suffix_refl _)

theorem later_withTail
    (s : Session)
    (tail : List Endpoint) :
    s.Later (s.withTail tail) :=
  later_of_eq rfl rfl rfl (List.suffix_refl _)

/- A step on the builder alone. -/
theorem later_withBuilder
    {b : Builder}
    (h : s.builder.Advances b) :
    s.Later (s.withBuilder b) := by
  refine ⟨h.advance.grows.nodes, h.nextId_le, h.returns,
    h.gateKept, ?_, List.suffix_refl _⟩
  intro v hv
  cases hOld : s.frame.gate with
  | none => exact Or.inr (h.gateNew v hOld hv)
  | some w =>
      have hKept := h.gateKept w hOld
      exact Or.inl (hKept.symm.trans hv)

/- A node was placed at the cursor. -/
theorem later_placed
    {n : Node}
    (hReady : s.Ready)
    (hExec : n.nodeClass = .exec) :
    s.Later (s.placed n) :=
  later_withBuilder
    (Builder.advances_placed hReady.builder hExec)

/- A run leads to a later session. -/
theorem Leads.later
    (h : Leads P lo s s₁) :
    s.Later s₁ := by
  have hBuilder := later_withBuilder h.builder
  rcases h.journal with ⟨news, hJournal, _⟩
  exact ⟨hBuilder.nodes, hBuilder.nextId_le,
    hBuilder.returns, hBuilder.gateKept, hBuilder.gateNew,
    news, hJournal.symm⟩

/- What a run leaves open was open before or is new. -/
theorem Leads.mem_tail
    (h : Leads P lo s s₁)
    {e : Endpoint}
    (he : e ∈ s₁.frame.tail) :
    (s.graph.nextId ≤ e.node ∨ e ∈ s.frame.tail) ∧
      e.node < s₁.graph.nextId := by
  refine ⟨?_, h.ready.builder.tail_lt he⟩
  rcases h.builder.advance.mem_or_new he with hOld | hNew
  · exact Or.inr hOld
  · exact Or.inl hNew

end FlowGraph.Script.Session

------------------------------------------------------------
-- Bodies
------------------------------------------------------------

namespace FlowGraph.Script.Session

/-
  A construct has run from `s` to `s'`, and the run of one of
  its bodies from `a` to `b`.  The links of the body were
  not touched afterwards.  What it left open is open at the
  end of the construct, or is given up.
-/
structure Within
    (s s' a b : Session) :
    Prop where
  before : s.Later a
  after : b.Later s'
  start : ∀ e ∈ a.frame.tail, s.graph.nextId ≤ e.node
  links :
    ∀ e, a.graph.nextId ≤ e.node ∨ e ∈ a.frame.tail →
      e.node < b.graph.nextId →
        s'.graph.execTarget e = b.graph.execTarget e
  told :
    ∀ d ∈ s'.journal, d ∈ b.journal ∨
      ∀ e, a.graph.nextId ≤ e.node ∨ e ∈ a.frame.tail →
        e.node < b.graph.nextId →
          d.graph.execTarget e = b.graph.execTarget e
  listed :
    ∀ e, a.graph.nextId ≤ e.node ∨ e ∈ a.frame.tail →
      e.node < b.graph.nextId →
        e ∈ s'.frame.tail → e ∈ b.frame.tail
  joined :
    (∀ e ∈ b.frame.tail, e ∈ s'.frame.tail) ∨
      ∀ e ∈ b.frame.tail, e ∉ s'.frame.tail

variable {P : Entry → Prop} {lo : Nat}
variable {s s' a b : Session}

/- What a body leaves open is new to the construct. -/
theorem Within.isNew
    (h : Within s s' a b)
    (hBody : Leads P lo a b)
    {e : Endpoint}
    (he : e ∈ b.frame.tail) :
    s.graph.nextId ≤ e.node := by
  rcases (hBody.mem_tail he).1 with hNew | hStart
  · exact Nat.le_trans h.before.nextId_le hNew
  · exact h.start e hStart

end FlowGraph.Script.Session

------------------------------------------------------------
-- Entered Nodes
------------------------------------------------------------

namespace FlowGraph.Script.Session

/-
  A node was placed at the cursor of the first session, and
  whatever followed went on from new endpoints.
-/
structure Entered
    (s : Session)
    (n : Node)
    (s' : Session) :
    Prop where
  target :
    ∀ e ∈ s.frame.tail,
      s'.graph.execTarget e = some s.graph.nextId
  node : s'.graph.nodes.get? s.graph.nextId = some n
  lt : s.graph.nextId < s'.graph.nextId
  isNew : ∀ e ∈ s'.frame.tail, s.graph.nextId ≤ e.node

variable {s s₁ s' : Session} {n : Node}

theorem entered_placed
    (s : Session)
    (n : Node) :
    s.Entered n (s.placed n) := by
  refine ⟨?_, Graph.get?_attach_self, Nat.lt_succ_self _,
    ?_⟩
  · intro e he
    exact Graph.execTarget_attach_of_mem he
  · intro e he
    have hTail :
        (s.placed n).frame.tail =
          if 0 < n.execOutputs then [⟨s.graph.nextId, 0⟩]
          else [] := rfl
    rw [hTail] at he
    split at he
    · exact Graph.node_le_of_mem_singleton he
    · cases he

/- Growth at new endpoints keeps the node at its place. -/
theorem Entered.extends
    {tail : List Endpoint}
    (hReady : s.Ready)
    (h : s.Entered n s₁)
    (hExtends : s₁.graph.Extends tail s'.graph)
    (hTail : ∀ e ∈ tail, s.graph.nextId ≤ e.node)
    (hNew : ∀ e ∈ s'.frame.tail, s.graph.nextId ≤ e.node) :
    s.Entered n s' := by
  have hLt := h.lt
  refine ⟨?_, hExtends.nodes h.node,
    Nat.lt_of_lt_of_le hLt hExtends.nextId_le, hNew⟩
  intro e he
  have hOld : e.node < s.graph.nextId :=
    hReady.builder.tail_lt he
  rw [hExtends.apart (by omega)]
  · exact h.target e he
  · intro hMem
    have hGe := hTail e hMem
    omega

end FlowGraph.Script.Session

------------------------------------------------------------
-- New Links
------------------------------------------------------------

namespace FlowGraph.Graph

/- Listed endpoints that have got a link lead to new nodes. -/
def Fresh
    (g : Graph)
    (tail : List Endpoint)
    (g' : Graph) :
    Prop :=
  ∀ e ∈ tail, ∀ t, g'.execTarget e = some t → g.nextId ≤ t

variable {g g₁ g₂ : Graph}
variable {tail tail₁ : List Endpoint} {n : Node}

theorem fresh_of_cursor
    (h : g₁.Cursor tail) :
    g.Fresh tail g₁ := by
  intro e he t hLink
  rw [(h.isOpen e he).2] at hLink
  cases hLink

theorem fresh_attach :
    g.Fresh tail (g.attach n tail) := by
  intro e he t hLink
  rw [execTarget_attach_of_mem he] at hLink
  cases hLink
  exact Nat.le_refl _

theorem Fresh.trans
    (h₁ : g.Fresh tail g₁)
    (hAdvance : g.Advance tail g₁ tail₁)
    (h₂ : g₁.Fresh tail₁ g₂)
    (hGrows : g₁.Grows tail₁ g₂)
    (hOld : ∀ e ∈ tail, e.node < g.nextId) :
    g.Fresh tail g₂ := by
  intro e he t hLink
  have hLe := hAdvance.grows.nextId_le
  have hLt := hOld e he
  by_cases hMem : e ∈ tail₁
  · exact Nat.le_trans hLe (h₂ e hMem t hLink)
  · rw [hGrows.apart (by omega) hMem] at hLink
    exact h₁ e he t hLink

end FlowGraph.Graph

namespace FlowGraph.Script.Session

/- Where the flow has gone on, it leads to new nodes. -/
def Fresh
    (s s' : Session) :
    Prop :=
  s.graph.Fresh s.frame.tail s'.graph

/-
  A body has run from `a` to `b`.  If a link of a later graph
  leads to a node that was there, the body has made the link,
  or the link comes from outside and the body has found one
  from outside that leads there.
-/
def Shares
    (a b : Session)
    (g : Graph) :
    Prop :=
  ∀ e t, g.execTarget e = some t → t < b.graph.nextId →
    b.graph.execTarget e = some t ∨
      e.node < a.graph.nextId ∧
        ∃ d : Endpoint, d.node < a.graph.nextId ∧
          b.graph.execTarget d = some t

/-
  The script has gone on from one session to the other, not
  necessarily in the same function.
-/
structure Onward
    (s s' : Session) :
    Prop where
  ready : s'.Ready
  advance :
    s.graph.Advance s.frame.tail s'.graph s'.frame.tail
  fresh : s.Fresh s'
  journal : s.journal <:+ s'.journal
  told :
    ∀ d ∈ s'.journal, d ∈ s.journal ∨
      s.graph.Grows s.frame.tail d.graph

variable {P : Entry → Prop} {lo : Nat}
variable {s s₁ s₂ : Session} {n : Node}

theorem Entered.fresh
    (h : s.Entered n s₁) :
    s.Fresh s₁ := by
  intro e he t hLink
  rw [h.target e he] at hLink
  cases hLink
  exact Nat.le_refl _

theorem Leads.onward
    (h : Leads P lo s s₁)
    (hFresh : s.Fresh s₁) :
    s.Onward s₁ := by
  rcases h.journal with ⟨news, hJournal, hNews⟩
  refine ⟨h.ready, h.builder.advance, hFresh,
    ⟨news, hJournal.symm⟩, ?_⟩
  intro d hd
  rw [hJournal] at hd
  rcases List.mem_append.mp hd with hNew | hOld
  · exact Or.inr (hNews.grows d hNew)
  · exact Or.inl hOld

theorem Onward.refl
    (hReady : s.Ready) :
    s.Onward s :=
  ⟨hReady, .refl hReady.builder.cursor,
    Graph.fresh_of_cursor hReady.builder.cursor,
    List.suffix_refl _, fun _ hd => Or.inl hd⟩

theorem Onward.trans
    (hReady : s.Ready)
    (h₁ : s.Onward s₁)
    (h₂ : s₁.Onward s₂) :
    s.Onward s₂ := by
  have hOld :
      ∀ e ∈ s.frame.tail, e.node < s.graph.nextId :=
    fun e he => hReady.builder.tail_lt he
  refine ⟨h₂.ready, h₁.advance.trans h₂.advance hOld,
    h₁.fresh.trans h₁.advance h₂.fresh h₂.advance.grows hOld,
    h₁.journal.trans h₂.journal, ?_⟩
  intro d hd
  rcases h₂.told d hd with hEarlier | hGrows
  · exact h₁.told d hEarlier
  · exact Or.inr (h₁.advance.grows_trans hGrows hOld)

theorem Onward.nextId_le
    (h : s.Onward s₁) :
    s.graph.nextId ≤ s₁.graph.nextId :=
  h.advance.grows.nextId_le

/- A link to a node that was there was there as well. -/
theorem Onward.old_link
    (h : s.Onward s₁)
    {e : Endpoint}
    {t : Nat}
    (hLink : s₁.graph.execTarget e = some t)
    (hLt : t < s.graph.nextId) :
    s.graph.execTarget e = some t := by
  have hAscends : e.node < t :=
    h.ready.builder.wf.ascends hLink
  by_cases he : e ∈ s.frame.tail
  · have hNew := h.fresh e he t hLink
    omega
  · have hKept :
        s₁.graph.execTarget e = s.graph.execTarget e :=
      h.advance.grows.apart (Nat.lt_trans hAscends hLt) he
    rw [← hKept]
    exact hLink

end FlowGraph.Script.Session
