import FlowGraph.Proofs.Validation

/-
  What a finished graph keeps of a graph.

  Links are grouped by node, and every node takes its group
  as the nodes are listed.  A group comes to the links of one
  node in the order of its outputs.  Once the links are
  sound, every group belongs to a node, so that none is left
  over and the links can be read off the nodes again.

  Key definitions include:
    * `FlowGraph.Graph.connections`
    * `FlowGraph.CompiledNode.links`

  Key theorems include:
    * `FlowGraph.Graph.of_groups`
    * `FlowGraph.Groups.handOut_nodes`
    * `FlowGraph.Graph.execTarget_finished`
    * `FlowGraph.Graph.links_finished`
    * `FlowGraph.Graph.compile_faithful`
-/

------------------------------------------------------------
-- Ascending Entries
------------------------------------------------------------

namespace FlowGraph.Entries

variable {κ α : Type} [Key κ] {xs ys : List (κ × α)}

/- Keys that ascend are different. -/
theorem ne_of_before
    {a b : κ}
    (h : Key.before a b) :
    a ≠ b := by
  intro hEq
  rw [hEq, Key.irrefl] at h
  exact Bool.false_ne_true h

theorem nodup_of_ascending
    (h : Ascending xs) :
    xs.Nodup :=
  h.imp fun hBefore hEq =>
    ne_of_before hBefore (congrArg Prod.fst hEq)

/- Ascending lists with the same entries are the same. -/
theorem eq_of_same_entries
    (hx : Ascending xs)
    (hy : Ascending ys)
    (h : ∀ e, e ∈ xs ↔ e ∈ ys) :
    xs = ys := by
  have hPerm : xs.Perm ys :=
    (List.perm_ext_iff_of_nodup (nodup_of_ascending hx)
      (nodup_of_ascending hy)).mpr h
  refine hPerm.eq_of_pairwise ?_ hx hy
  intro a b _ _ hab hba
  exact absurd rfl (ne_of_before (Key.trans hab hba))

end FlowGraph.Entries

------------------------------------------------------------
-- Links By Node
------------------------------------------------------------

namespace FlowGraph

namespace Groups

/- The link of a node, if it is one of the node's. -/
def linkOf
    (id : Nat)
    (link : Endpoint × Nat) :
    Option Connection :=
  if link.1.node = id then
    some ⟨link.1.index, link.2⟩
  else
    none

variable {groups : Groups} {links : List (Endpoint × Nat)}

/- A link is put behind those of its node. -/
theorem of_add
    (link : Endpoint × Nat)
    (id : Nat) :
    (groups.add link).of id =
      groups.of id ++ (linkOf id link).toList := by
  unfold of add linkOf
  by_cases hNode : link.1.node = id
  · rw [if_pos hNode, ← hNode, Table.get?_insert_self]
    rfl
  · have hOther : id ≠ link.1.node := fun hEq => hNode hEq.symm
    rw [if_neg hNode, Table.get?_insert_of_ne _ _ hOther]
    simp

/- Links are put behind those of their nodes, in order. -/
theorem of_foldl_add
    (id : Nat) :
    Groups.of (links.foldl add groups) id =
      groups.of id ++ links.filterMap (linkOf id) := by
  induction links generalizing groups with
  | nil => simp
  | cons link rest ih =>
      rw [List.foldl_cons, ih, of_add, List.filterMap_cons]
      cases linkOf id link <;> simp

/- A node gets a group only through a link of its own. -/
theorem source_of_foldl_add
    {id : Nat}
    {group : List Connection}
    (h : Table.get? (links.foldl add groups) id = some group) :
    groups.get? id = some group ∨
      ∃ link ∈ links, link.1.node = id := by
  induction links generalizing groups with
  | nil => exact Or.inl h
  | cons link rest ih =>
      by_cases hNode : link.1.node = id
      · exact Or.inr ⟨link, List.mem_cons_self, hNode⟩
      · rcases ih h with hOld | ⟨later, hMem, hSource⟩
        · have hOther : id ≠ link.1.node :=
            fun hEq => hNode hEq.symm
          unfold add at hOld
          rw [Table.get?_insert_of_ne _ _ hOther] at hOld
          exact Or.inl hOld
        · exact Or.inr
            ⟨later, List.mem_cons_of_mem _ hMem, hSource⟩

end Groups

namespace Graph

variable {g : Graph} {id : Nat}

/- The links of a node as they stand among all links. -/
def connections
    (g : Graph)
    (id : Nat) :
    List Connection :=
  g.links.entries.filterMap (Groups.linkOf id)

/- The group of a node holds the links of the node. -/
theorem of_groups :
    g.groups.of id = g.connections id :=
  Groups.of_foldl_add id

theorem mem_connections
    {c : Connection} :
    c ∈ g.connections id ↔
      g.execTarget ⟨id, c.index⟩ = some c.target := by
  unfold connections Groups.linkOf execTarget
  rw [List.mem_filterMap, Table.get?_eq_some_iff]
  constructor
  · intro h
    rcases h with ⟨⟨source, target⟩, hLink, hEq⟩
    split at hEq
    · rename_i hNode
      cases hEq
      rw [← hNode]
      exact hLink
    · cases hEq
  · intro hLink
    exact ⟨_, hLink, if_pos rfl⟩

/- The links of a node ascend by output. -/
theorem pairwise_connections :
    ((g.connections id).map Connection.index).Pairwise
      (· < ·) := by
  rw [List.pairwise_map]
  refine List.Pairwise.filterMap _ ?_ g.links.ascending
  intro a b hBefore c hc d hd
  unfold Groups.linkOf at hc hd
  split at hc
  · split at hd
    · rename_i hNode hNode'
      cases hc
      cases hd
      -- Of two endpoints of one node the index decides.
      have hOrder : Endpoint.before a.1 b.1 = true := hBefore
      simp only [Endpoint.before, Bool.or_eq_true,
        Bool.and_eq_true, decide_eq_true_eq, beq_iff_eq]
        at hOrder
      rcases hOrder with hLess | ⟨_, hIndex⟩
      · rw [hNode, hNode'] at hLess
        exact absurd hLess (Nat.lt_irrefl id)
      · exact hIndex
    · cases hd
  · cases hc

end Graph

end FlowGraph

------------------------------------------------------------
-- Handing Out
------------------------------------------------------------

namespace FlowGraph.Groups

variable {entries : List (Nat × Node)} {groups : Groups}

/- What is taken for one node is still there for others. -/
theorem of_erase
    {id id' : Nat}
    (h : id' ≠ id) :
    Groups.of (Table.erase groups id) id' = groups.of id' := by
  unfold of
  rw [Table.get?_erase_of_ne _ h]

/- Every node gets its own group. -/
theorem handOut_nodes
    (h : Entries.Ascending entries) :
    (handOut entries groups).1 =
      entries.map fun e => e.2.finished e.1 (groups.of e.1) := by
  induction entries generalizing groups with
  | nil => rfl
  | cons entry rest ih =>
      rcases List.pairwise_cons.mp h with ⟨hFirst, hRest⟩
      have hTail :
          (rest.map fun e =>
              e.2.finished e.1
                (Groups.of (Table.erase groups entry.1) e.1)) =
            rest.map fun e =>
              e.2.finished e.1 (groups.of e.1) := by
        apply List.map_congr_left
        intro e he
        rw [of_erase (Entries.ne_of_before (hFirst e he)).symm]
      rw [List.map_cons, ← hTail, ← ih hRest]
      rfl

/- Only the groups of other nodes are left. -/
theorem get?_handOut_left
    {id : Nat}
    {group : List Connection}
    (h : (handOut entries groups).2.get? id = some group) :
    groups.get? id = some group ∧
      id ∉ entries.map Prod.fst := by
  induction entries generalizing groups with
  | nil => exact ⟨h, List.not_mem_nil⟩
  | cons entry rest ih =>
      have hRest :
          (handOut rest (Table.erase groups entry.1)).2.get? id =
            some group := h
      rcases ih hRest with ⟨hOld, hNot⟩
      have hOther : id ≠ entry.1 := by
        intro hEq
        rw [hEq, Table.get?_erase_self] at hOld
        cases hOld
      rw [Table.get?_erase_of_ne _ hOther] at hOld
      refine ⟨hOld, ?_⟩
      rw [List.map_cons, List.mem_cons, not_or]
      exact ⟨hOther, hNot⟩

end FlowGraph.Groups

------------------------------------------------------------
-- Finished Nodes
------------------------------------------------------------

namespace FlowGraph

/- The links that start at a finished node. -/
def CompiledNode.links
    (n : CompiledNode) :
    List (Endpoint × Nat) :=
  n.connections.map fun c => (⟨n.id, c.index⟩, c.target)

/- The connections of a node whose indices differ. -/
theorem CompiledNode.execTarget_eq_some_iff
    {n : CompiledNode}
    {index target : Nat}
    (h : (n.connections.map Connection.index).Pairwise
      (· < ·)) :
    n.execTarget index = some target ↔
      ⟨index, target⟩ ∈ n.connections := by
  unfold execTarget
  rw [Option.map_eq_some_iff]
  constructor
  · intro h
    rcases h with ⟨c, hFind, hTarget⟩
    have hIndex : c.index = index := by
      simpa using List.find?_some hFind
    rw [← hIndex, ← hTarget]
    exact List.mem_of_find?_eq_some hFind
  · intro hMem
    refine ⟨⟨index, target⟩, ?_, rfl⟩
    rcases List.append_of_mem hMem with ⟨before, after, hEq⟩
    refine List.find?_eq_some_iff_append.mpr
      ⟨by simp, before, after, hEq, ?_⟩
    intro c hc
    -- Whatever comes before has a smaller index.
    rw [hEq, List.map_append, List.map_cons,
      List.pairwise_append] at h
    have hLess : c.index < index :=
      h.2.2 c.index (List.mem_map_of_mem hc) index
        List.mem_cons_self
    simp only [Bool.not_eq_true', decide_eq_false_iff_not]
    exact Nat.ne_of_lt hLess

namespace Graph

variable {g : Graph}

/- The finished nodes are the nodes, each with its links. -/
theorem nodes_finished :
    g.finished.nodes =
      g.nodes.entries.map fun e =>
        e.2.finished e.1 (g.connections e.1) := by
  unfold finished
  rw [Groups.handOut_nodes g.nodes.ascending]
  simp only [of_groups]

theorem node?_finished
    (id : Nat) :
    g.finished.node? id =
      (g.nodes.get? id).map fun n =>
        n.finished id (g.connections id) := by
  unfold Compiled.node? Table.get?
  rw [nodes_finished, List.find?_map, Option.map_map]
  have hSame :
      ((fun n : CompiledNode => decide (n.id = id)) ∘
          fun e : Nat × Node =>
            e.2.finished e.1 (g.connections e.1)) =
        Entries.hasKey id := by
    funext e
    rw [Bool.eq_iff_iff, Entries.hasKey_iff]
    simp [Node.finished]
  rw [hSame]
  cases hFind : g.nodes.entries.find? (Entries.hasKey id) with
  | none => rfl
  | some e =>
      have hKey : e.1 = id :=
        Entries.hasKey_iff.mp (List.find?_some hFind)
      simp [hKey]

/- A finished node leads where the node leads. -/
theorem execTarget_node_finished
    (n : Node)
    (id index : Nat) :
    (n.finished id (g.connections id)).execTarget index =
      g.execTarget ⟨id, index⟩ := by
  apply Option.ext
  intro target
  rw [CompiledNode.execTarget_eq_some_iff
    pairwise_connections]
  exact mem_connections

/- The finished graph leads where the graph leads. -/
theorem execTarget_finished
    (h : g.SoundLinks)
    (id index : Nat) :
    (g.finished.node? id).bind
        (fun n => n.execTarget index) =
      g.execTarget ⟨id, index⟩ := by
  rw [node?_finished]
  cases hNode : g.nodes.get? id with
  | some n => exact execTarget_node_finished n id index
  | none =>
      -- A link from here would need a node.
      refine (Option.eq_none_iff_forall_ne_some.mpr ?_).symm
      intro t hTarget
      rcases (h _ t hTarget).1 with ⟨n, hSource, _⟩
      cases hNode.symm.trans hSource

/- The nodes have taken all links there are. -/
theorem left_eq_empty
    (h : g.SoundLinks) :
    (Groups.handOut g.nodes.entries g.groups).2.entries =
      [] := by
  rw [List.eq_nil_iff_forall_not_mem]
  intro entry hLeft
  rcases Groups.get?_handOut_left
    (Table.get?_eq_some_iff.mpr hLeft) with ⟨hGroup, hNot⟩
  rcases Groups.source_of_foldl_add hGroup with
    hNone | ⟨⟨source, target⟩, hLink, hSource⟩
  · cases hNone
  · rcases (h source target
      (Table.get?_eq_some_iff.mpr hLink)).1 with ⟨n, hNode, _⟩
    rw [hSource] at hNode
    exact hNot (List.mem_map.mpr
      ⟨_, Table.get?_eq_some_iff.mp hNode, rfl⟩)

/- The links of a finished node are those that start there. -/
theorem mem_links_finished
    {n : Node}
    {id : Nat}
    {link : Endpoint × Nat} :
    link ∈ (n.finished id (g.connections id)).links ↔
      link.1.node = id ∧ link ∈ g.links.entries := by
  rcases link with ⟨⟨node, index⟩, target⟩
  unfold CompiledNode.links
  rw [List.mem_map]
  constructor
  · intro h
    rcases h with ⟨c, hc, hEq⟩
    cases hEq
    exact ⟨rfl,
      Table.get?_eq_some_iff.mp (mem_connections.mp hc)⟩
  · intro h
    rcases h with ⟨hNode, hLink⟩
    cases hNode
    exact ⟨⟨index, target⟩,
      mem_connections.mpr (Table.get?_eq_some_iff.mpr hLink),
      rfl⟩

/- Links listed node by node ascend. -/
theorem ascending_links_finished :
    Entries.Ascending
      (g.finished.nodes.flatMap CompiledNode.links) := by
  rw [nodes_finished, List.flatMap_map]
  apply List.pairwise_flatMap.mpr
  constructor
  · intro entry _
    refine List.pairwise_map.mpr
      ((List.pairwise_map.mp pairwise_connections).imp ?_)
    intro c d hLess
    show Endpoint.before _ _ = true
    simp [Endpoint.before, hLess]
  · apply g.nodes.ascending.imp
    intro a b hBefore x hx y hy
    have hLess : a.1 < b.1 := of_decide_eq_true hBefore
    rw [← (mem_links_finished.mp hx).1,
      ← (mem_links_finished.mp hy).1] at hLess
    show Endpoint.before x.1 y.1 = true
    simp [Endpoint.before, hLess]

/-
  The links, read off the finished nodes one after another,
  are the links of the graph in their order.
-/
theorem links_finished
    (h : g.SoundLinks) :
    g.finished.nodes.flatMap CompiledNode.links =
      g.links.entries := by
  refine Entries.eq_of_same_entries ascending_links_finished
    g.links.ascending ?_
  intro link
  rw [nodes_finished, List.flatMap_map, List.mem_flatMap]
  constructor
  · intro hMem
    rcases hMem with ⟨entry, _, hLink⟩
    exact (mem_links_finished.mp hLink).2
  · intro hLink
    rcases (h link.1 link.2
      (Table.get?_eq_some_iff.mpr hLink)).1 with ⟨n, hNode, _⟩
    exact ⟨(link.1.node, n), Table.get?_eq_some_iff.mp hNode,
      mem_links_finished.mpr ⟨rfl, hLink⟩⟩

end Graph

end FlowGraph

------------------------------------------------------------
-- Nothing Lost And Nothing Added
------------------------------------------------------------

namespace FlowGraph.Graph

variable {g : Graph} {c : Compiled}

/-
  A graph that compiles is listed node by node, ascending by
  number, and each node is as it was.  The links of a node
  ascend by output, and every exec output leads where it led
  before.  All links together are the links of the graph, so
  that there are as many, and no node has left any behind.
-/
theorem compile_faithful
    (h : g.compile = .ok c) :
    c.name = g.name ∧
    c.nodes.map CompiledNode.id = g.nodes.keys ∧
    (c.nodes.map CompiledNode.id).Pairwise (· < ·) ∧
    (∀ id n, g.nodes.get? id = some n →
      ∃ m, c.node? id = some m ∧
        m.id = id ∧
        m.nodeClass = n.nodeClass ∧
        m.nodeType = n.nodeType ∧
        m.args = n.args ∧
        m.outputs = n.outputs) ∧
    (∀ m ∈ c.nodes,
      (m.connections.map Connection.index).Pairwise
        (· < ·)) ∧
    (∀ id index,
      (c.node? id).bind (fun m => m.execTarget index) =
        g.execTarget ⟨id, index⟩) ∧
    c.nodes.flatMap CompiledNode.links = g.links.entries ∧
    (c.nodes.flatMap CompiledNode.connections).length =
      g.links.size ∧
    (Groups.handOut g.nodes.entries g.groups).2.entries =
      [] := by
  have hSound : g.SoundLinks := (compiles_iff.mp ⟨c, h⟩).1
  have hIds :
      g.finished.nodes.map CompiledNode.id = g.nodes.keys := by
    rw [nodes_finished, List.map_map]
    rfl
  rw [eq_of_compile h]
  refine ⟨rfl, hIds, ?_, ?_, ?_, execTarget_finished hSound,
    links_finished hSound, ?_, left_eq_empty hSound⟩
  · rw [hIds]
    exact pairwise_keys g.nodes
  · intro id n hNode
    rw [node?_finished, hNode]
    exact ⟨_, rfl, rfl, rfl, rfl, rfl, rfl⟩
  · intro m hm
    rw [nodes_finished, List.mem_map] at hm
    rcases hm with ⟨entry, _, rfl⟩
    exact pairwise_connections
  · have hLength :
        (g.finished.nodes.flatMap
            CompiledNode.connections).length =
          (g.finished.nodes.flatMap
            CompiledNode.links).length := by
      simp only [List.length_flatMap, CompiledNode.links,
        List.length_map]
    rw [hLength, links_finished hSound]
    rfl

/- Two branches, of which the second was linked first. -/
def forked : Graph :=
  ((((empty "fork").attach (.exec "graph_entry" [] 1)
    []).attach (.exec "double_branch" [.bool true] 2)
      [⟨1, 0⟩]).attach (.exec "print_string" [.str "no"] 1)
      [⟨2, 1⟩]).attach (.exec "print_string" [.str "yes"] 1)
      [⟨2, 0⟩]

/- The graph compiles, and its links are back in order. -/
theorem compile_forked :
    ∃ c, forked.compile = .ok c ∧
      c.nodes.map CompiledNode.id = [1, 2, 3, 4] ∧
      c.nodes.flatMap CompiledNode.links =
        [(⟨1, 0⟩, 2), (⟨2, 0⟩, 4), (⟨2, 1⟩, 3)] ∧
      (c.node? 2).bind (fun m => m.execTarget 0) = some 4 := by
  have hAscends :
      ∀ link ∈ forked.links.entries,
        link.1.node < link.2 := by
    decide
  have hCompiles : ∃ c, forked.compile = .ok c := by
    refine compiles_iff.mpr ⟨checkLinks_eq_ok.mp rfl,
      checkArgs_eq_ok.mp rfl, ?_⟩
    intro i hCircle
    refine Nat.lt_irrefl i (lt_of_transGen ?_ hCircle)
    intro j k hFlows
    rcases hFlows with ⟨index, hTarget⟩
    exact hAscends _ (Table.get?_eq_some_iff.mp hTarget)
  rcases hCompiles with ⟨c, hOk⟩
  rcases compile_faithful hOk with
    ⟨_, hIds, _, _, _, hTarget, hLinks, _⟩
  exact ⟨c, hOk, hIds, hLinks, hTarget 2 0⟩

end FlowGraph.Graph
