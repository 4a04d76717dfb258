import FlowGraph.Graph

/-
  How a graph grows.

  A body of a script starts at some open exec outputs and
  ends at others.  Whatever it does to the graph, it keeps
  the nodes, links only exec outputs that it started from or
  made itself, and links those that it started from all to
  the same node.

  Key definitions include:
    * `FlowGraph.Graph.IsOpen`
    * `FlowGraph.Graph.Wf`
    * `FlowGraph.Graph.Cursor`
    * `FlowGraph.Graph.Grows`
    * `FlowGraph.Graph.Advance`
    * `FlowGraph.Graph.attach`
    * `FlowGraph.Graph.link`

  Key theorems include:
    * `FlowGraph.Graph.Grows.trans`
    * `FlowGraph.Graph.Advance.trans`
    * `FlowGraph.Graph.grows_attach`
    * `FlowGraph.Graph.connect_eq_ok`
-/

------------------------------------------------------------
-- Well-Formed Graphs
------------------------------------------------------------

namespace FlowGraph.Graph

/- The number belongs to an exec node. -/
def IsExec
    (g : Graph)
    (id : Nat) :
    Prop :=
  ∃ n, g.nodes.get? id = some n ∧ n.nodeClass = .exec

/- The endpoint is an exec output of an exec node. -/
def IsOutput
    (g : Graph)
    (e : Endpoint) :
    Prop :=
  ∃ n, g.nodes.get? e.node = some n ∧
    n.nodeClass = .exec ∧ e.index < n.execOutputs

/- The endpoint is an exec output without a link. -/
def IsOpen
    (g : Graph)
    (e : Endpoint) :
    Prop :=
  g.IsOutput e ∧ g.execTarget e = none

/-
  Numbers that were not given out are unused, and links lead
  from exec outputs to exec nodes that came later.
-/
structure Wf
    (g : Graph) :
    Prop where
  node_lt :
    ∀ {id n}, g.nodes.get? id = some n → id < g.nextId
  source :
    ∀ {e t}, g.execTarget e = some t → g.IsOutput e
  target :
    ∀ {e t}, g.execTarget e = some t → g.IsExec t
  ascends :
    ∀ {e t}, g.execTarget e = some t → e.node < t

/-
  The endpoints are open and each is listed once, so that
  they can all be linked to the next node.
-/
structure Cursor
    (g : Graph)
    (tail : List Endpoint) :
    Prop where
  nodup : tail.Nodup
  isOpen : ∀ e ∈ tail, g.IsOpen e

/- The one endpoint of a list is that of its node. -/
theorem node_le_of_mem_singleton
    {e : Endpoint}
    {id index : Nat}
    (h : e ∈ [(⟨id, index⟩ : Endpoint)]) :
    id ≤ e.node := by
  cases List.mem_singleton.mp h
  exact Nat.le_refl _

/- A graph without nodes is well-formed. -/
theorem wf_empty
    (name : String) :
    (Graph.empty name).Wf := by
  constructor <;> intro _ _ h <;> cases h

/- No exec output is listed. -/
theorem cursor_nil
    (g : Graph) :
    g.Cursor [] :=
  ⟨List.nodup_nil, by simp⟩

/- One open exec output is listed. -/
theorem cursor_singleton
    {g : Graph}
    {e : Endpoint}
    (h : g.IsOpen e) :
    g.Cursor [e] :=
  ⟨by simp, by simpa using h⟩

variable {g : Graph}

/- An exec output belongs to a number that is in use. -/
theorem Wf.output_lt
    (hWf : g.Wf)
    {e : Endpoint}
    (h : g.IsOutput e) :
    e.node < g.nextId := by
  obtain ⟨n, hNode, _, _⟩ := h
  exact hWf.node_lt hNode

/- An exec node has a number that is in use. -/
theorem Wf.exec_lt
    (hWf : g.Wf)
    {id : Nat}
    (h : g.IsExec id) :
    id < g.nextId := by
  obtain ⟨n, hNode, _⟩ := h
  exact hWf.node_lt hNode

/- The endpoints of unused numbers have no links. -/
theorem Wf.execTarget_fresh
    (hWf : g.Wf)
    {e : Endpoint}
    (h : g.nextId ≤ e.node) :
    g.execTarget e = none := by
  rw [Option.eq_none_iff_forall_ne_some]
  intro t hTarget
  have hLt := hWf.output_lt (hWf.source hTarget)
  omega

/- The listed endpoints belong to numbers in use. -/
theorem Cursor.node_lt
    {tail : List Endpoint}
    (h : g.Cursor tail)
    (hWf : g.Wf)
    {e : Endpoint}
    (he : e ∈ tail) :
    e.node < g.nextId :=
  hWf.output_lt (h.isOpen e he).1

end FlowGraph.Graph

------------------------------------------------------------
-- Growth
------------------------------------------------------------

namespace FlowGraph.Graph

/-
  The second graph has grown out of the first at the listed
  endpoints: of the endpoints that were there before, only
  the listed ones may have got a link, and they then all
  lead to the same node.
-/
structure Grows
    (g : Graph)
    (tail : List Endpoint)
    (g' : Graph) :
    Prop where
  nodes :
    ∀ {id n}, g.nodes.get? id = some n →
      g'.nodes.get? id = some n
  nextId_le : g.nextId ≤ g'.nextId
  apart :
    ∀ {e}, e.node < g.nextId → e ∉ tail →
      g'.execTarget e = g.execTarget e
  together : ∃ t, ∀ e ∈ tail, g'.execTarget e = t

/-
  The graph has grown at one list of endpoints and the flow
  goes on at another: the same one, still open, or one whose
  endpoints are all new.
-/
structure Advance
    (g : Graph)
    (tail : List Endpoint)
    (g' : Graph)
    (tail' : List Endpoint) :
    Prop where
  grows : g.Grows tail g'
  moves :
    (tail' = tail ∧ ∀ e ∈ tail, g'.execTarget e = none) ∨
      ∀ e ∈ tail', g.nextId ≤ e.node

variable {g g₁ g₂ : Graph}
variable {tail tail₁ tail₂ : List Endpoint}

/- An exec node stays one. -/
theorem Grows.isExec
    (h : g.Grows tail g₁)
    {id : Nat}
    (hExec : g.IsExec id) :
    g₁.IsExec id := by
  obtain ⟨n, hNode, hClass⟩ := hExec
  exact ⟨n, h.nodes hNode, hClass⟩

/- An exec output stays one. -/
theorem Grows.isOutput
    (h : g.Grows tail g₁)
    {e : Endpoint}
    (hOutput : g.IsOutput e) :
    g₁.IsOutput e := by
  obtain ⟨n, hNode, hClass, hIndex⟩ := hOutput
  exact ⟨n, h.nodes hNode, hClass, hIndex⟩

/- An endpoint that is not listed stays open. -/
theorem Grows.isOpen
    (h : g.Grows tail g₁)
    (hWf : g.Wf)
    {e : Endpoint}
    (hOpen : g.IsOpen e)
    (hNot : e ∉ tail) :
    g₁.IsOpen e := by
  have hLt := hWf.output_lt hOpen.1
  refine ⟨h.isOutput hOpen.1, ?_⟩
  rw [h.apart hLt hNot]
  exact hOpen.2

/- Endpoints that are not listed stay a cursor. -/
theorem Grows.cursor
    (h : g.Grows tail g₁)
    (hWf : g.Wf)
    (hCursor : g.Cursor tail₁)
    (hNot : ∀ e ∈ tail₁, e ∉ tail) :
    g₁.Cursor tail₁ := by
  refine ⟨hCursor.nodup, ?_⟩
  intro e he
  exact h.isOpen hWf (hCursor.isOpen e he) (hNot e he)

/- A graph has grown out of itself at open endpoints. -/
theorem Grows.refl
    (h : ∀ e ∈ tail, g.execTarget e = none) :
    g.Grows tail g where
  nodes := id
  nextId_le := Nat.le_refl _
  apart _ _ := rfl
  together := ⟨none, h⟩

/-
  Growth at new endpoints adds to growth at the old ones.
-/
theorem Grows.trans
    (h₁ : g.Grows tail g₁)
    (h₂ : g₁.Grows tail₁ g₂)
    (hOld : ∀ e ∈ tail, e.node < g.nextId)
    (hNew : ∀ e ∈ tail₁, g.nextId ≤ e.node) :
    g.Grows tail g₂ := by
  have hKept :
      ∀ e : Endpoint, e.node < g.nextId →
        g₂.execTarget e = g₁.execTarget e := by
    intro e hLt
    apply h₂.apart (Nat.lt_of_lt_of_le hLt h₁.nextId_le)
    intro he
    have hLe := hNew e he
    omega
  refine ⟨?_, ?_, ?_, ?_⟩
  · intro id n hNode
    exact h₂.nodes (h₁.nodes hNode)
  · exact Nat.le_trans h₁.nextId_le h₂.nextId_le
  · intro e hLt hNot
    rw [hKept e hLt, h₁.apart hLt hNot]
  · obtain ⟨t, ht⟩ := h₁.together
    refine ⟨t, ?_⟩
    intro e he
    rw [hKept e (hOld e he), ht e he]

end FlowGraph.Graph

------------------------------------------------------------
-- Advance Of The Flow
------------------------------------------------------------

namespace FlowGraph.Graph

variable {g g₁ g₂ : Graph}
variable {tail tail₁ tail₂ : List Endpoint}

/- Growth elsewhere leaves the flow where it is. -/
theorem Advance.of_apart
    (hNodes :
      ∀ {id n}, g.nodes.get? id = some n →
        g₁.nodes.get? id = some n)
    (hLe : g.nextId ≤ g₁.nextId)
    (hApart :
      ∀ {e}, e.node < g.nextId →
        g₁.execTarget e = g.execTarget e)
    (hWf : g.Wf)
    (hCursor : g.Cursor tail) :
    g.Advance tail g₁ tail := by
  have hNone : ∀ e ∈ tail, g₁.execTarget e = none := by
    intro e he
    rw [hApart (hCursor.node_lt hWf he)]
    exact (hCursor.isOpen e he).2
  exact
    ⟨⟨hNodes, hLe, fun hLt _ => hApart hLt, none, hNone⟩,
      Or.inl ⟨rfl, hNone⟩⟩

/- The flow may stay where it is. -/
theorem Advance.refl
    (hCursor : g.Cursor tail) :
    g.Advance tail g tail := by
  have hNone : ∀ e ∈ tail, g.execTarget e = none :=
    fun e he => (hCursor.isOpen e he).2
  exact ⟨Grows.refl hNone, Or.inl ⟨rfl, hNone⟩⟩

/- Endpoints where the flow goes on are old ones or new. -/
theorem Advance.mem_or_new
    (h : g.Advance tail g₁ tail₁)
    {e : Endpoint}
    (he : e ∈ tail₁) :
    e ∈ tail ∨ g.nextId ≤ e.node := by
  rcases h.moves with ⟨hSame, _⟩ | hNew
  · exact Or.inl (hSame ▸ he)
  · exact Or.inr (hNew e he)

/-
  What grows out of the graph after an advance has grown out
  of the graph before it.
-/
theorem Advance.grows_trans
    (h₁ : g.Advance tail g₁ tail₁)
    (h₂ : g₁.Grows tail₁ g₂)
    (hOld : ∀ e ∈ tail, e.node < g.nextId) :
    g.Grows tail g₂ := by
  rcases h₁.moves with ⟨hSame, hNone⟩ | hNew
  · subst hSame
    refine ⟨?_, ?_, ?_, h₂.together⟩
    · intro id n hNode
      exact h₂.nodes (h₁.grows.nodes hNode)
    · exact Nat.le_trans h₁.grows.nextId_le h₂.nextId_le
    · intro e hLt hNot
      have hLt₁ : e.node < g₁.nextId :=
        Nat.lt_of_lt_of_le hLt h₁.grows.nextId_le
      rw [h₂.apart hLt₁ hNot, h₁.grows.apart hLt hNot]
  · exact h₁.grows.trans h₂ hOld hNew

/- Two advances make one. -/
theorem Advance.trans
    (h₁ : g.Advance tail g₁ tail₁)
    (h₂ : g₁.Advance tail₁ g₂ tail₂)
    (hOld : ∀ e ∈ tail, e.node < g.nextId) :
    g.Advance tail g₂ tail₂ := by
  refine ⟨h₁.grows_trans h₂.grows hOld, ?_⟩
  have hLe := h₁.grows.nextId_le
  rcases h₂.moves with ⟨hSame₂, hNone₂⟩ | hNew₂
  · subst hSame₂
    rcases h₁.moves with ⟨hSame₁, _⟩ | hNew₁
    · subst hSame₁
      exact Or.inl ⟨rfl, hNone₂⟩
    · exact Or.inr hNew₁
  · refine Or.inr ?_
    intro e he
    exact Nat.le_trans hLe (hNew₂ e he)

/-
  An advance to new endpoints from which the flow goes on
  elsewhere, at other new endpoints.
-/
theorem Grows.advance_of_new
    (h : g.Grows tail g₁)
    (hNew : ∀ e ∈ tail₁, g.nextId ≤ e.node) :
    g.Advance tail g₁ tail₁ :=
  ⟨h, Or.inr hNew⟩

end FlowGraph.Graph

------------------------------------------------------------
-- Attaching A Node
------------------------------------------------------------

namespace FlowGraph.Graph

/- Add a node and link all of some endpoints to it. -/
def attach
    (g : Graph)
    (n : Node)
    (tail : List Endpoint) :
    Graph :=
  { g with
    nodes := g.nodes.insert g.nextId n
    links := tail.foldl
      (fun links e => links.insert e g.nextId) g.links
    nextId := g.nextId + 1 }

variable {g : Graph} {n : Node} {tail : List Endpoint}

@[simp] theorem attach_nextId :
    (g.attach n tail).nextId = g.nextId + 1 :=
  rfl

@[simp] theorem get?_attach_self :
    (g.attach n tail).nodes.get? g.nextId = some n :=
  Table.get?_insert_self _ _ _

theorem get?_attach_of_ne
    {id : Nat}
    (h : id ≠ g.nextId) :
    (g.attach n tail).nodes.get? id = g.nodes.get? id :=
  Table.get?_insert_of_ne _ _ h

/- Linking several endpoints to one node. -/
theorem get?_foldl_insert
    (links : Table Endpoint Nat)
    (t : Nat)
    (tail : List Endpoint)
    (e : Endpoint) :
    (tail.foldl (fun links e => links.insert e t)
        links).get? e =
      if e ∈ tail then some t else links.get? e := by
  induction tail generalizing links with
  | nil =>
      simp
  | cons d rest ih =>
      rw [List.foldl_cons, ih]
      by_cases hRest : e ∈ rest
      · simp [hRest]
      · by_cases hEq : e = d
        · subst hEq
          simp [hRest]
        · simp [hRest, hEq, Table.get?_insert_of_ne]

theorem execTarget_attach
    (e : Endpoint) :
    (g.attach n tail).execTarget e =
      if e ∈ tail then some g.nextId else g.execTarget e :=
  get?_foldl_insert _ _ _ _

/- The attached endpoints lead to the new node. -/
theorem execTarget_attach_of_mem
    {e : Endpoint}
    (h : e ∈ tail) :
    (g.attach n tail).execTarget e = some g.nextId := by
  rw [execTarget_attach, if_pos h]

theorem execTarget_attach_of_not_mem
    {e : Endpoint}
    (h : e ∉ tail) :
    (g.attach n tail).execTarget e = g.execTarget e := by
  rw [execTarget_attach, if_neg h]

/- A graph grows where a node is attached to it. -/
theorem grows_attach
    (hWf : g.Wf) :
    g.Grows tail (g.attach n tail) where
  nodes := by
    intro id m hNode
    have hLt := hWf.node_lt hNode
    rw [get?_attach_of_ne (by omega)]
    exact hNode
  nextId_le := Nat.le_succ _
  apart _ hNot := execTarget_attach_of_not_mem hNot
  together :=
    ⟨some g.nextId, fun _ he => execTarget_attach_of_mem he⟩

/- Attaching an exec node at a cursor keeps a graph in form. -/
theorem Wf.attach
    (hWf : g.Wf)
    (hCursor : g.Cursor tail)
    (hExec : tail = [] ∨ n.nodeClass = .exec) :
    (g.attach n tail).Wf := by
  have hGrows : g.Grows tail (g.attach n tail) :=
    grows_attach hWf
  have hCases :
      ∀ {e t}, (g.attach n tail).execTarget e = some t →
        (e ∈ tail ∧ t = g.nextId) ∨
          g.execTarget e = some t := by
    intro e t hTarget
    rw [execTarget_attach] at hTarget
    split at hTarget
    · rename_i he
      exact Or.inl ⟨he, (Option.some.inj hTarget).symm⟩
    · exact Or.inr hTarget
  refine ⟨?_, ?_, ?_, ?_⟩
  · intro id m hNode
    by_cases hEq : id = g.nextId
    · rw [hEq]
      exact Nat.lt_succ_self _
    · rw [get?_attach_of_ne hEq] at hNode
      exact Nat.lt_succ_of_lt (hWf.node_lt hNode)
  · intro e t hTarget
    rcases hCases hTarget with ⟨he, _⟩ | hOld
    · exact hGrows.isOutput (hCursor.isOpen e he).1
    · exact hGrows.isOutput (hWf.source hOld)
  · intro e t hTarget
    rcases hCases hTarget with ⟨he, hEq⟩ | hOld
    · rcases hExec with hNil | hClass
      · rw [hNil] at he
        exact absurd he List.not_mem_nil
      · exact ⟨n, hEq ▸ get?_attach_self, hClass⟩
    · exact hGrows.isExec (hWf.target hOld)
  · intro e t hTarget
    rcases hCases hTarget with ⟨he, hEq⟩ | hOld
    · rw [hEq]
      exact hCursor.node_lt hWf he
    · exact hWf.ascends hOld

/- The exec outputs of an attached exec node are open. -/
theorem isOpen_attach
    (hWf : g.Wf)
    (hCursor : g.Cursor tail)
    (hClass : n.nodeClass = .exec)
    {index : Nat}
    (hIndex : index < n.execOutputs) :
    (g.attach n tail).IsOpen ⟨g.nextId, index⟩ := by
  have hNot : (⟨g.nextId, index⟩ : Endpoint) ∉ tail := by
    intro he
    have hLt := hCursor.node_lt hWf he
    simp at hLt
  refine ⟨⟨n, get?_attach_self, hClass, hIndex⟩, ?_⟩
  rw [execTarget_attach_of_not_mem hNot]
  exact hWf.execTarget_fresh (Nat.le_refl _)

end FlowGraph.Graph

------------------------------------------------------------
-- Linking
------------------------------------------------------------

namespace FlowGraph.Graph

/- Link an endpoint. -/
def link
    (g : Graph)
    (e : Endpoint)
    (t : Nat) :
    Graph :=
  { g with links := g.links.insert e t }

variable {g : Graph} {e : Endpoint} {t : Nat}

@[simp] theorem link_nextId :
    (g.link e t).nextId = g.nextId :=
  rfl

@[simp] theorem link_nodes :
    (g.link e t).nodes = g.nodes :=
  rfl

@[simp] theorem execTarget_link_self :
    (g.link e t).execTarget e = some t :=
  Table.get?_insert_self _ _ _

theorem execTarget_link_of_ne
    {d : Endpoint}
    (h : d ≠ e) :
    (g.link e t).execTarget d = g.execTarget d :=
  Table.get?_insert_of_ne _ _ h

/- An open exec output can be linked to an exec node. -/
theorem connect_eq_ok
    (hOpen : g.IsOpen e)
    (hExec : g.IsExec t) :
    g.connect e t = .ok (g.link e t) := by
  obtain ⟨⟨n, hNode, hClass, hIndex⟩, hTarget⟩ := hOpen
  obtain ⟨m, hNode', hClass'⟩ := hExec
  have hFree : g.links.contains e = false := by
    unfold execTarget at hTarget
    simp [Table.contains, hTarget]
  have hSource : g.execNode e.node = .ok n := by
    simp [execNode, node, hNode, hClass, bind, Except.bind]
  have hTarget' : g.execNode t = .ok m := by
    simp [execNode, node, hNode', hClass', bind,
      Except.bind]
  simp [connect, checkLink, hSource, hTarget', hIndex,
    hFree, bind, Except.bind, link]

/- A graph grows where an endpoint is linked. -/
theorem grows_link :
    g.Grows [e] (g.link e t) where
  nodes := id
  nextId_le := Nat.le_refl _
  apart _ hNot :=
    execTarget_link_of_ne (by simpa using hNot)
  together := ⟨some t, by simp⟩

/- A link to a later exec node keeps a graph in form. -/
theorem Wf.link
    (hWf : g.Wf)
    (hOutput : g.IsOutput e)
    (hExec : g.IsExec t)
    (hLt : e.node < t) :
    (g.link e t).Wf := by
  have hCases :
      ∀ {d u}, (g.link e t).execTarget d = some u →
        (d = e ∧ u = t) ∨ g.execTarget d = some u := by
    intro d u hTarget
    by_cases hEq : d = e
    · rw [hEq, execTarget_link_self] at hTarget
      exact Or.inl ⟨hEq, (Option.some.inj hTarget).symm⟩
    · rw [execTarget_link_of_ne hEq] at hTarget
      exact Or.inr hTarget
  refine ⟨hWf.node_lt, ?_, ?_, ?_⟩
  · intro d u hTarget
    rcases hCases hTarget with ⟨rfl, _⟩ | hOld
    · exact hOutput
    · exact hWf.source hOld
  · intro d u hTarget
    rcases hCases hTarget with ⟨_, rfl⟩ | hOld
    · exact hExec
    · exact hWf.target hOld
  · intro d u hTarget
    rcases hCases hTarget with ⟨rfl, rfl⟩ | hOld
    · exact hLt
    · exact hWf.ascends hOld

end FlowGraph.Graph
