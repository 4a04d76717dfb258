import FlowGraph.Proofs.Machine
import FlowGraph.Proofs.Persistence
import FlowGraph.Proofs.Provenance

/-
  Parts of a graph that stay as they are.

  A run of a body leaves links behind.  All of them are in
  the graph that a machine is given, except that what the
  body left open may have been linked later, to one node.
  So the machine meets in that graph what the body made.

  Key definitions include:
    * `FlowGraph.Script.Session.Final`
    * `FlowGraph.Script.Session.Settled`

  Key theorems include:
    * `FlowGraph.Script.Session.Settled.first`
    * `FlowGraph.Script.Session.Settled.second`
    * `FlowGraph.Script.Session.Settled.within`
-/

------------------------------------------------------------
-- What A Machine Is Given
------------------------------------------------------------

namespace FlowGraph.Script.Session

/-
  The machine is given what became of the session: its nodes
  and its gate, if it has one.  A gate that is new since then
  is a new node.  The nodes that statements have yielded are
  known by their places.
-/
structure Final
    (M : Machine)
    (N : Path → Option Nat)
    (s : Session) :
    Prop where
  nodes :
    ∀ {id n}, s.graph.nodes.get? id = some n →
      M.graph.nodes.get? id = some n
  gateKept :
    ∀ v, s.frame.gate = some v → M.gate = some v
  gateNew :
    ∀ v, M.gate = some v →
      s.frame.gate = some v ∨ s.graph.nextId ≤ v.node
  gate : ∀ v, M.gate = some v → v.IsGate M.graph
  yields :
    ∀ e ∈ s.journal, ∀ id, e.node? = some id →
      N e.path = some id

/-
  The machine is given the links that a run from one session
  to the other has made.  What the run left open all leads
  to one node, if to any.
-/
structure Settled
    (M : Machine)
    (N : Path → Option Nat)
    (s s' : Session) :
    Prop where
  final : s'.Final M N
  links : s.Frozen s' M.graph
  together :
    ∃ t, ∀ e ∈ s'.frame.tail, M.graph.execTarget e = t

variable {M : Machine} {N : Path → Option Nat}
variable {P P' : Entry → Prop} {lo lo' : Nat}
variable {s s₁ s₂ : Session}

/- What became of a later session became of this one. -/
theorem Final.earlier
    (h : s₁.Final M N)
    (hLater : s.Later s₁) :
    s.Final M N := by
  refine ⟨fun hNode => h.nodes (hLater.nodes hNode),
    fun v hv => h.gateKept v (hLater.gateKept v hv), ?_,
    h.gate, fun e he =>
      h.yields e (hLater.journal.subset he)⟩
  intro v hv
  rcases h.gateNew v hv with hGate | hNew
  · exact hLater.gateNew v hGate
  · exact Or.inr (Nat.le_trans hLater.nextId_le hNew)

/- The first of two runs is settled. -/
theorem Settled.first
    (h : Settled M N s s₂)
    (h₁ : Leads P lo s s₁)
    (h₂ : Leads P' lo' s₁ s₂) :
    Settled M N s s₁ := by
  have hLe : s₁.graph.nextId ≤ s₂.graph.nextId :=
    h₂.nextId_le
  refine ⟨h.final.earlier h₂.later,
    h.links.first h₂.builder.advance, ?_⟩
  rcases h₂.builder.advance.moves with ⟨hSame, _⟩ | hNew
  · rw [← hSame]
    exact h.together
  · rcases h₂.builder.advance.grows.together with ⟨t, ht⟩
    refine ⟨t, ?_⟩
    intro e he
    have hMem := h₁.mem_tail he
    have hLt := hMem.2
    rw [← ht e he]
    apply h.links e hMem.1 (by omega)
    intro hLater
    have hGe : s₁.graph.nextId ≤ e.node := hNew e hLater
    omega

/- The second of two runs is settled. -/
theorem Settled.second
    (h : Settled M N s s₂)
    (h₁ : Leads P lo s s₁) :
    Settled M N s₁ s₂ :=
  ⟨h.final, h.links.second h₁.builder.advance, h.together⟩

end FlowGraph.Script.Session

------------------------------------------------------------
-- Bodies
------------------------------------------------------------

namespace FlowGraph.Script.Session

variable {M : Machine} {N : Path → Option Nat}
variable {P : Entry → Prop} {lo : Nat}
variable {s s' a b : Session}

/- What a body leaves open and is given up has no link. -/
theorem Settled.dropped
    (h : Settled M N s s')
    (hInner : Encloses s s' a b)
    (hBody : Leads P lo a b)
    {e : Endpoint}
    (he : e ∈ b.frame.tail)
    (hNot : e ∉ s'.frame.tail) :
    M.graph.execTarget e = none := by
  have hMem := hBody.mem_tail he
  rw [h.links.inside hInner hMem.1 hMem.2 hNot]
  exact (hBody.ready.builder.cursor.isOpen e he).2

/- The body of a construct that is settled is settled. -/
theorem Settled.within
    (h : Settled M N s s')
    (hWithin : Within s s' a b)
    (hShares : a.Shares b s'.graph)
    (hBody : Leads P lo a b) :
    Settled M N a b := by
  have hInner := hWithin.encloses hShares
  refine ⟨h.final.earlier hWithin.after,
    h.links.body hInner, ?_⟩
  rcases hWithin.joined with hJoined | hDropped
  · rcases h.together with ⟨t, ht⟩
    exact ⟨t, fun e he => ht e (hJoined e he)⟩
  · exact ⟨none, fun e he =>
      h.dropped hInner hBody he (hDropped e he)⟩

end FlowGraph.Script.Session
