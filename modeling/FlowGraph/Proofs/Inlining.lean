import FlowGraph.Proofs.Documents
import FlowGraph.Proofs.Expansion

/-
  What the expansion of inline lists does to a graph.

  The lists are collected before the graph changes.  Each
  one gets the next number for its node, and a pin to this
  node takes the place of the list.  Nothing else changes,
  so no list is left, and what compiled before still does.

  Key definitions include:
    * `FlowGraph.InlineList.Before`
    * `FlowGraph.Graph.Holds`
    * `FlowGraph.Graph.Registered`
    * `FlowGraph.Graph.Expanded`

  Key theorems include:
    * `FlowGraph.Graph.Expanded.withList`
    * `FlowGraph.Graph.expandEach_expanded`
    * `FlowGraph.Graph.Expanded.expandLists`
    * `FlowGraph.Graph.Expanded.compiles`
    * `FlowGraph.Graph.expandLists_faithful`
-/

------------------------------------------------------------
-- Places
------------------------------------------------------------

namespace FlowGraph

/- The order of places, by node and then by position. -/
def InlineList.Before
    (i k : InlineList) :
    Prop :=
  i.node < k.node ∨
    (i.node = k.node ∧ i.position < k.position)

namespace Graph

/- An argument of the graph is the inline list. -/
def Holds
    (g : Graph)
    (i : InlineList) :
    Prop :=
  ∃ n v, g.nodes.get? i.node = some n ∧
    n.args[i.position]? = some v ∧
    v.type = .list i.element ∧
    v.source = .literal (.list i.items)

/-
  The arguments come from constructors of values, and the
  nodes have been numbered by the graph.
-/
structure Registered
    (g : Graph) :
    Prop where
  made :
    ∀ {id n}, g.nodes.get? id = some n →
      ∀ v ∈ n.args, v.Made
  below :
    ∀ {id n}, g.nodes.get? id = some n → id < g.nextId

variable {g : Graph}

/- The lists that are collected are those of the graph. -/
theorem mem_inlineLists_iff
    {i : InlineList} :
    i ∈ g.inlineLists ↔ g.Holds i := by
  constructor
  · exact at_of_mem_inlineLists
  · intro h
    rcases h with ⟨n, v, hNode, hAt, hValue⟩
    refine List.mem_flatMap.mpr ⟨(i.node, n),
      Table.get?_eq_some_iff.mp hNode, ?_⟩
    refine List.mem_filterMap.mpr ⟨(v, i.position), ?_, ?_⟩
    · exact List.mem_zipIdx_iff_getElem?.mpr hAt
    · show v.inlineItems?.map _ = _
      rw [inlineItems?_eq_some_iff.mpr hValue]
      rfl

/- The arguments of a node are numbered upwards. -/
theorem pairwise_zipIdx
    {args : List Value} :
    args.zipIdx.Pairwise fun a b => a.2 < b.2 := by
  apply List.pairwise_map.mp
  rw [List.zipIdx_map_snd]
  exact List.pairwise_lt_range'

/- The lists are collected in the order of their places. -/
theorem pairwise_inlineLists :
    g.inlineLists.Pairwise InlineList.Before := by
  apply List.pairwise_flatMap.mpr
  constructor
  · intro entry _
    apply List.pairwise_filterMap.mpr
    apply pairwise_zipIdx.imp
    intro a b hLt i hi k hk
    rcases Option.map_eq_some_iff.mp hi with ⟨_, _, hEq⟩
    rcases Option.map_eq_some_iff.mp hk with ⟨_, _, hEq'⟩
    rw [← hEq, ← hEq']
    exact Or.inr ⟨rfl, hLt⟩
  · apply g.nodes.ascending.imp
    intro a b hBefore i hi k hk
    rcases List.mem_filterMap.mp hi with ⟨_, _, hi⟩
    rcases List.mem_filterMap.mp hk with ⟨_, _, hk⟩
    rcases Option.map_eq_some_iff.mp hi with ⟨_, _, hEq⟩
    rcases Option.map_eq_some_iff.mp hk with ⟨_, _, hEq'⟩
    rw [← hEq, ← hEq']
    exact Or.inl (of_decide_eq_true hBefore)

/- The items of a list of the graph are of their type. -/
theorem Registered.conforms
    (h : g.Registered)
    {i : InlineList}
    (hi : g.Holds i) :
    i.Conforms := by
  rcases hi with ⟨n, v, hNode, hAt, hType, hSource⟩
  have hLiteral : v.literal? = some (.list i.items) := by
    unfold Value.literal?
    rw [hSource]
  have hConform :=
    (h.made hNode v (List.mem_of_getElem? hAt)).conform hLiteral
  rw [hType] at hConform
  exact InlineList.conforms_of_conform hConform

end Graph

end FlowGraph

------------------------------------------------------------
-- One List
------------------------------------------------------------

namespace FlowGraph

/- The list as an output of node `id`. -/
def InlineList.pinAt
    (i : InlineList)
    (id : Nat) :
    Value :=
  .pin (.list i.element) ⟨id, "list", 0⟩

namespace Graph

/- The graph in which a list has got a node of its own. -/
def withList
    (g : Graph)
    (i : InlineList) :
    Graph :=
  (g.attach i.listNode []).replaceArg i.node i.position
    (i.pinAt g.nextId)

variable {g : Graph} {i : InlineList}

/- The node of the list. -/
theorem get?_withList_nextId
    (h : i.node ≠ g.nextId) :
    (g.withList i).nodes.get? g.nextId =
      some (.data "assembly_list" i.values
        [⟨"list", .list i.element⟩]) := by
  have hOther : g.nextId ≠ i.node := fun hEq => h hEq.symm
  unfold withList replaceArg
  rw [Table.get?_adjust_of_ne _ _ hOther, get?_attach_self]
  rfl

/- The node that the list was an argument of. -/
theorem get?_withList_node
    {n : Node}
    (h : i.node ≠ g.nextId)
    (hNode : g.nodes.get? i.node = some n) :
    (g.withList i).nodes.get? i.node =
      some { n with
        args := n.args.set i.position (i.pinAt g.nextId) } := by
  unfold withList replaceArg
  rw [Table.get?_adjust_self, get?_attach_of_ne h, hNode]
  rfl

/- The other nodes stay as they are. -/
theorem get?_withList_of_ne
    {id : Nat}
    (hNode : id ≠ i.node)
    (hId : id ≠ g.nextId) :
    (g.withList i).nodes.get? id = g.nodes.get? id := by
  unfold withList replaceArg
  rw [Table.get?_adjust_of_ne _ _ hNode, get?_attach_of_ne hId]

end Graph

end FlowGraph

------------------------------------------------------------
-- Expanded Graphs
------------------------------------------------------------

namespace FlowGraph.Graph

/-
  A graph after some of its inline lists have been expanded.
  The lists have got nodes in their order, numbered from the
  first free number on.
-/
structure Expanded
    (g : Graph)
    (inlines : List InlineList)
    (g' : Graph) :
    Prop where
  name : g'.name = g.name
  links : g'.links = g.links
  nextId : g'.nextId = g.nextId + inlines.length
  old :
    ∀ {id n}, g.nodes.get? id = some n →
      ∃ args,
        g'.nodes.get? id = some { n with args := args } ∧
          args.length = n.args.length ∧
          ∀ position,
            (∀ i ∈ inlines,
              i.node = id → i.position ≠ position) →
            args[position]? = n.args[position]?
  replaced :
    ∀ {j : Nat} {i : InlineList}, inlines[j]? = some i →
      ∃ n, g'.nodes.get? i.node = some n ∧
        n.args[i.position]? = some (i.pinAt (g.nextId + j))
  new :
    ∀ {j : Nat} {i : InlineList}, inlines[j]? = some i →
      g'.nodes.get? (g.nextId + j) =
        some (.data "assembly_list" i.values
          [⟨"list", .list i.element⟩])
  origin :
    ∀ {id n}, g'.nodes.get? id = some n →
      (∃ m, g.nodes.get? id = some m) ∨
        ∃ j < inlines.length, id = g.nextId + j

namespace Expanded

variable {g g₁ g' : Graph} {inlines : List InlineList}

/- Nothing is expanded at first. -/
theorem nil : g.Expanded [] g := by
  refine ⟨rfl, rfl, rfl, ?_, ?_, ?_, ?_⟩
  · intro id n hNode
    exact ⟨n.args, hNode, rfl, fun _ _ => rfl⟩
  · intro j i hi
    cases hi
  · intro j i hi
    cases hi
  · intro id n hNode
    exact Or.inl ⟨n, hNode⟩

/- One more list is expanded. -/
theorem withList
    (h : g.Expanded inlines g₁)
    (hBelow :
      ∀ {id n}, g.nodes.get? id = some n → id < g.nextId)
    {i : InlineList}
    (hi : g.Holds i)
    (hOther :
      ∀ k ∈ inlines, k.node = i.node →
        k.position ≠ i.position) :
    g.Expanded (inlines ++ [i]) (g₁.withList i) := by
  rcases hi with ⟨m, w, hm, hw, _, _⟩
  have hNext := h.nextId
  have hLt := hBelow hm
  have hNe : i.node ≠ g₁.nextId := by omega
  have hIndex :
      ∀ {j k}, (inlines ++ [i])[j]? = some k →
        inlines[j]? = some k ∨ (j = inlines.length ∧ k = i) := by
    intro j k hk
    rw [List.getElem?_append] at hk
    split at hk
    · exact Or.inl hk
    · have hLast : j - inlines.length = 0 := by
        rcases List.getElem?_eq_some_iff.mp hk with ⟨hLt, _⟩
        simpa using hLt
      rw [hLast] at hk
      cases hk
      exact Or.inr ⟨by omega, rfl⟩
  refine ⟨h.name, h.links, ?_, ?_, ?_, ?_, ?_⟩
  · show g₁.nextId + 1 = _
    rw [hNext, List.length_append]
    rfl
  · intro id n hNode
    rcases h.old hNode with ⟨args, hArgs, hLength, hSame⟩
    have hId := hBelow hNode
    by_cases hEq : id = i.node
    · refine ⟨args.set i.position (i.pinAt g₁.nextId), ?_, ?_, ?_⟩
      · rw [hEq] at hArgs ⊢
        exact get?_withList_node hNe hArgs
      · rw [List.length_set, hLength]
      · intro position hFree
        have hNot : i.position ≠ position :=
          hFree i (List.mem_append_right _ List.mem_cons_self)
            hEq.symm
        rw [List.getElem?_set_ne hNot]
        exact hSame position fun k hk =>
          hFree k (List.mem_append_left _ hk)
    · refine ⟨args, ?_, hLength, ?_⟩
      · rw [get?_withList_of_ne hEq (by omega)]
        exact hArgs
      · intro position hFree
        exact hSame position fun k hk =>
          hFree k (List.mem_append_left _ hk)
  · intro j k hk
    rcases hIndex hk with hk | ⟨hj, hEq⟩
    · rcases h.replaced hk with ⟨n, hNode, hAt⟩
      by_cases hEq : k.node = i.node
      · have hNot :=
          hOther k (List.mem_of_getElem? hk) hEq
        rw [hEq] at hNode ⊢
        refine ⟨_, get?_withList_node hNe hNode, ?_⟩
        rw [← hAt]
        exact List.getElem?_set_ne hNot.symm
      · have hOld : k.node ≠ g₁.nextId := by
          rcases h.origin hNode with ⟨_, hm⟩ | ⟨j', hj', hId⟩
          · have hk := hBelow hm
            omega
          · omega
        exact ⟨n,
          (get?_withList_of_ne hEq hOld).trans hNode, hAt⟩
    · rw [hEq, hj]
      rcases h.old hm with ⟨args, hArgs, hLength, _⟩
      refine ⟨_, get?_withList_node hNe hArgs, ?_⟩
      rw [← hNext]
      have hAt := (List.getElem?_eq_some_iff.mp hw).1
      rw [← hLength] at hAt
      exact List.getElem?_set_self hAt
  · intro j k hk
    rcases hIndex hk with hk | ⟨hj, hEq⟩
    · have hj : j < inlines.length :=
        (List.getElem?_eq_some_iff.mp hk).1
      rw [get?_withList_of_ne (by omega) (by omega)]
      exact h.new hk
    · rw [hEq, hj, ← hNext]
      exact get?_withList_nextId hNe
  · intro id n hNode
    rw [List.length_append]
    by_cases hNew : id = g₁.nextId
    · exact Or.inr ⟨inlines.length, by simp, by omega⟩
    · by_cases hEq : id = i.node
      · exact Or.inl ⟨m, by rw [hEq]; exact hm⟩
      · rw [get?_withList_of_ne hEq hNew] at hNode
        rcases h.origin hNode with hOld | ⟨j, hj, hId⟩
        · exact Or.inl hOld
        · exact Or.inr ⟨j, by omega, hId⟩

end Expanded

/- The lists that are left are expanded one after another. -/
theorem expandEach_expanded
    {g g₁ : Graph}
    {done rest : List InlineList}
    (hRegistered : g.Registered)
    (h : g.Expanded done g₁)
    (hHolds : ∀ i ∈ rest, g.Holds i)
    (hOrder : (done ++ rest).Pairwise InlineList.Before)
    (hFits : ∀ i ∈ rest, fitsInline i.items.length) :
    ∃ g', expandEach rest g₁ = (.ok (), g') ∧
      g.Expanded (done ++ rest) g' := by
  -- The lists that are done grow by the head of the rest.
  induction rest generalizing done g₁ with
  | nil =>
      refine ⟨g₁, rfl, ?_⟩
      rw [List.append_nil]
      exact h
  | cons i rest ih =>
      have hi := hHolds i List.mem_cons_self
      have hOther :
          ∀ k ∈ done, k.node = i.node →
            k.position ≠ i.position := by
        intro k hk hNode
        have hBefore : k.Before i :=
          (List.pairwise_append.mp hOrder).2.2 k hk i
            List.mem_cons_self
        rcases hBefore with hLt | ⟨_, hLt⟩ <;> omega
      have hStep : g₁.expandList i = .ok (g₁.withList i) :=
        expandList_of_fits (hFits i List.mem_cons_self)
          (hRegistered.conforms hi)
      rw [List.append_cons] at hOrder ⊢
      rcases ih
        (h.withList hRegistered.below hi hOther)
        (fun k hk => hHolds k (List.mem_cons_of_mem _ hk))
        hOrder
        (fun k hk => hFits k (List.mem_cons_of_mem _ hk)) with
        ⟨g', hRest, hExpanded⟩
      refine ⟨g', ?_, hExpanded⟩
      simp only [expandEach, hStep]
      exact hRest

end FlowGraph.Graph

------------------------------------------------------------
-- After The Expansion
------------------------------------------------------------

namespace FlowGraph.Graph.Expanded

variable {g g' : Graph}

/- Where an argument of the expanded graph comes from. -/
theorem arg_cases
    (h : g.Expanded g.inlineLists g')
    {id position : Nat}
    {n : Node}
    {v : Value}
    (hNode : g'.nodes.get? id = some n)
    (hv : n.args[position]? = some v) :
    (∃ m, g.nodes.get? id = some m ∧
      m.args[position]? = some v ∧ v.inlineItems? = none) ∨
    (∃ (j : Nat) (i : InlineList),
      g.inlineLists[j]? = some i ∧
      (v = i.pinAt (g.nextId + j) ∨ v ∈ i.values)) := by
  rcases h.origin hNode with ⟨m, hm⟩ | ⟨j, hj, hId⟩
  · rcases h.old hm with ⟨args, hArgs, _, hSame⟩
    rw [hArgs] at hNode
    cases hNode
    by_cases hHit :
        ∃ i ∈ g.inlineLists,
          i.node = id ∧ i.position = position
    · rcases hHit with ⟨i, hi, hId, hPosition⟩
      rcases List.mem_iff_getElem?.mp hi with ⟨j, hj⟩
      rcases h.replaced hj with ⟨n, hn, hAt⟩
      rw [hId, hArgs] at hn
      cases hn
      rw [hPosition, hv] at hAt
      cases hAt
      exact Or.inr ⟨j, i, hj, Or.inl rfl⟩
    · have hOld : m.args[position]? = some v := by
        rw [← hSame position fun i hi hId hPosition =>
          hHit ⟨i, hi, hId, hPosition⟩]
        exact hv
      refine Or.inl ⟨m, hm, hOld, ?_⟩
      -- A list here would have been collected.
      cases hItems : v.inlineItems? with
      | none => rfl
      | some pair =>
          have hHolds : g.Holds ⟨id, position, pair.1, pair.2⟩ :=
            ⟨m, v, hm, hOld, inlineItems?_eq_some_iff.mp hItems⟩
          exact absurd
            ⟨_, mem_inlineLists_iff.mpr hHolds, rfl, rfl⟩ hHit
  · have hi := List.getElem?_eq_getElem hj
    have hNew := h.new hi
    rw [← hId, hNode] at hNew
    cases hNew
    exact Or.inr ⟨j, _, hi, Or.inr (List.mem_of_getElem? hv)⟩

/- No inline list is left. -/
theorem inlineLists
    (h : g.Expanded g.inlineLists g') :
    g'.inlineLists = [] := by
  apply List.eq_nil_iff_forall_not_mem.mpr
  intro i hi
  rcases mem_inlineLists_iff.mp hi with
    ⟨n, v, hNode, hAt, hType, hSource⟩
  rcases h.arg_cases hNode hAt with
    ⟨m, _, _, hNone⟩ | ⟨j, k, _, hEq | hMem⟩
  · rw [inlineItems?_eq_some_iff.mpr ⟨hType, hSource⟩] at hNone
    cases hNone
  · rw [hEq] at hSource
    cases hSource
  · rcases List.mem_map.mp hMem with ⟨l, _, hEq⟩
    rw [← hEq] at hType
    cases hType

/- There is nothing to do for a second run. -/
theorem expandLists
    (h : g.Expanded g.inlineLists g') :
    g'.expandLists = (.ok 0, g') := by
  unfold Graph.expandLists
  rw [h.inlineLists]
  rfl

/- The ends of the links are there. -/
theorem soundLinks
    {inlines : List InlineList}
    (h : g.Expanded inlines g')
    (hSound : g.SoundLinks) :
    g'.SoundLinks := by
  intro e t hTarget
  unfold execTarget at hTarget
  rw [h.links] at hTarget
  rcases hSound e t hTarget with
    ⟨⟨n, hNode, hSource⟩, m, hNode', hExec⟩
  rcases h.old hNode with ⟨args, hn, _⟩
  rcases h.old hNode' with ⟨args', hm, _⟩
  exact ⟨⟨_, hn, hSource⟩, _, hm, hExec⟩

/- Every pin names an output, of an old or of a new node. -/
theorem soundPins
    (h : g.Expanded g.inlineLists g')
    (hSound : g.SoundPins) :
    g'.SoundPins := by
  intro id n v p hNode hv hPin
  rcases List.mem_iff_getElem?.mp hv with ⟨position, hAt⟩
  rcases h.arg_cases hNode hAt with
    ⟨m, hm, hOld, _⟩ | ⟨j, i, hi, hEq | hMem⟩
  · rcases hSound id m v p hm (List.mem_of_getElem? hOld)
      hPin with ⟨k, out, hk, hOut, hType⟩
    rcases h.old hk with ⟨args, hArgs, _⟩
    exact ⟨_, out, hArgs, hOut, hType⟩
  · rw [hEq] at hPin
    cases hPin
    rw [hEq]
    exact ⟨_, ⟨"list", .list i.element⟩, h.new hi, rfl, rfl⟩
  · rcases List.mem_map.mp hMem with ⟨l, _, hEq⟩
    rw [← hEq] at hPin
    cases hPin

/- What compiled before still does. -/
theorem compiles
    (h : g.Expanded g.inlineLists g')
    (hCompiles : ∃ c, g.compile = .ok c) :
    ∃ c, g'.compile = .ok c := by
  rcases compiles_iff.mp hCompiles with
    ⟨hLinks, hPins, hFree⟩
  have hFlows : g'.Flows = g.Flows := by
    funext i j
    unfold Flows execTarget
    rw [h.links]
  refine compiles_iff.mpr
    ⟨h.soundLinks hLinks, h.soundPins hPins, ?_⟩
  rw [hFlows]
  exact hFree

end FlowGraph.Graph.Expanded

------------------------------------------------------------
-- The Whole Expansion
------------------------------------------------------------

namespace FlowGraph.Graph

variable {g : Graph}

/- Lists that all fit are all expanded. -/
theorem expandLists_of_fits
    (h : g.Registered)
    (hFits :
      ∀ i, g.Holds i → fitsInline i.items.length) :
    ∃ g', g.expandLists = (.ok g.inlineLists.length, g') ∧
      g.Expanded g.inlineLists g' := by
  have hHolds : ∀ i ∈ g.inlineLists, g.Holds i :=
    fun _ => mem_inlineLists_iff.mp
  have hNone : g.Expanded [] g := .nil
  rcases expandEach_expanded h hNone hHolds
    pairwise_inlineLists
    (fun i hi => hFits i (hHolds i hi)) with
    ⟨g', hEach, hExpanded⟩
  refine ⟨g', ?_, hExpanded⟩
  simp only [expandLists, hEach]
  rfl

/- The first list that does not fit is refused. -/
theorem expandLists_of_not_fits
    (h : g.Registered)
    (hNot :
      ∃ i, g.Holds i ∧ ¬fitsInline i.items.length) :
    ∃ bad g',
      g.Holds bad ∧ ¬fitsInline bad.items.length ∧
        (∀ i, g.Holds i → ¬fitsInline i.items.length →
          i = bad ∨ bad.Before i) ∧
        g.expandLists =
          (.error ⟨sizeCause bad.items.length,
            some bad.node⟩, g') := by
  rcases hNot with ⟨k, hk, hSize⟩
  rcases expandEach_of_not_fits (g := g)
    (fun i hi => h.conforms (mem_inlineLists_iff.mp hi))
    ⟨k, mem_inlineLists_iff.mpr hk, hSize⟩ with
    ⟨before, bad, after, g', hEq, hBefore, hBad, hEach⟩
  have hOrder : g.inlineLists.Pairwise InlineList.Before :=
    pairwise_inlineLists
  rw [hEq] at hOrder
  refine ⟨bad, g', ?_, hBad, ?_, ?_⟩
  · apply mem_inlineLists_iff.mp
    rw [hEq]
    exact List.mem_append_right _ List.mem_cons_self
  · intro i hi hLarge
    have hMem := mem_inlineLists_iff.mpr hi
    rw [hEq] at hMem
    rcases List.mem_append.mp hMem with hMem | hMem
    · exact absurd (hBefore i hMem) hLarge
    · rcases List.mem_cons.mp hMem with hSame | hMem
      · exact Or.inl hSame
      · have hAfter := (List.pairwise_append.mp hOrder).2.1
        exact Or.inr
          ((List.pairwise_cons.mp hAfter).1 i hMem)
  · simp only [expandLists, hEach]
    rfl

/- A refusal for its size tells which bound was missed. -/
theorem sizeCause_cases
    {size : Nat}
    (h : ¬fitsInline size) :
    (size = 0 ∧ sizeCause size = .emptyCollection .list) ∨
      (100 < size ∧
        sizeCause size = .tooManyElements .list size) := by
  unfold sizeCause
  by_cases hNone : size = 0
  · exact Or.inl ⟨hNone, if_pos hNone⟩
  · unfold fitsInline at h
    exact Or.inr ⟨by omega, if_neg hNone⟩

/-
  Expansion takes the inline lists of the graph by node and
  position.  It is refused exactly if some list does not
  fit, at the first such list and for its size.  Otherwise
  every list gets a node of its own and is replaced by a pin
  to it, and nothing else changes.  A second run then finds
  no list, and a graph that compiled still does.
-/
theorem expandLists_faithful
    (g : Graph)
    (h : g.Registered) :
    (∀ i, i ∈ g.inlineLists ↔ g.Holds i) ∧
    g.inlineLists.Pairwise InlineList.Before ∧
    ((∃ e, g.expandLists.1 = .error e) ↔
      ∃ i, g.Holds i ∧ ¬fitsInline i.items.length) ∧
    (∀ e, g.expandLists.1 = .error e →
      ∃ bad, g.Holds bad ∧ e.node = some bad.node ∧
        (bad.items.length = 0 ∧
            e.cause = .emptyCollection .list ∨
          100 < bad.items.length ∧
            e.cause = .tooManyElements .list
              bad.items.length) ∧
        ∀ i, g.Holds i → ¬fitsInline i.items.length →
          i = bad ∨ bad.Before i) ∧
    (∀ count g', g.expandLists = (.ok count, g') →
      count = g.inlineLists.length ∧
      g.Expanded g.inlineLists g' ∧
      g'.expandLists = (.ok 0, g') ∧
      ((∃ c, g.compile = .ok c) →
        ∃ c, g'.compile = .ok c)) := by
  refine ⟨fun _ => mem_inlineLists_iff,
    pairwise_inlineLists, ?_⟩
  by_cases hBad :
      ∃ i, g.Holds i ∧ ¬fitsInline i.items.length
  · rcases expandLists_of_not_fits h hBad with
      ⟨bad, g', hHolds, hSize, hFirst, hRefused⟩
    rw [hRefused]
    refine ⟨iff_of_true ⟨_, rfl⟩ hBad, ?_, nofun⟩
    intro e hError
    cases hError
    exact ⟨bad, hHolds, rfl, sizeCause_cases hSize, hFirst⟩
  · have hFits :
        ∀ i, g.Holds i → fitsInline i.items.length := by
      intro i hi
      apply Classical.byContradiction
      intro hSize
      exact hBad ⟨i, hi, hSize⟩
    rcases expandLists_of_fits h hFits with
      ⟨g', hDone, hExpanded⟩
    rw [hDone]
    refine ⟨iff_of_false ?_ hBad, ?_, ?_⟩
    · intro hError
      rcases hError with ⟨e, hError⟩
      cases hError
    · intro e hError
      cases hError
    · intro count g'' hEq
      cases hEq
      exact ⟨rfl, hExpanded, hExpanded.expandLists,
        hExpanded.compiles⟩

/- A node with two inline lists, which an entry leads to. -/
def tagging : Graph :=
  ((empty "tags").attach (.exec "graph_entry" [] 1)
    []).attach
    (.exec "set_entity_tags"
      [⟨.list .vec3, .literal (.list [.vec3 0 1 2])⟩,
        .int 7,
        ⟨.list .int, .literal (.list [.int 1, .int 2])⟩]
      1)
    [⟨1, 0⟩]

/- Every node of it takes literals only. -/
theorem args_tagging
    {id : Nat}
    {n : Node}
    (h : tagging.nodes.get? id = some n) :
    id < tagging.nextId ∧
      ∀ v ∈ n.args, v.Made ∧ v.pin? = none := by
  rcases List.mem_cons.mp (Table.get?_eq_some_iff.mp h) with
    hEntry | hLast
  · cases hEntry
    exact ⟨by decide, List.forall_mem_nil _⟩
  · cases List.mem_singleton.mp hLast
    refine ⟨by decide, ?_⟩
    intro v hv
    rcases List.mem_cons.mp hv with hEq | hv
    · rw [hEq]
      exact ⟨.literal (t := .list .vec3)
        (l := .list [.vec3 0 1 2]) rfl, rfl⟩
    rcases List.mem_cons.mp hv with hEq | hv
    · rw [hEq]
      exact ⟨.int 7, rfl⟩
    · rw [List.mem_singleton.mp hv]
      exact ⟨.literal (t := .list .int)
        (l := .list [.int 1, .int 2]) rfl, rfl⟩

/- Its link leads upwards from an exec output. -/
theorem wf_tagging :
    tagging.Wf := by
  have hEntry :
      ((empty "tags").attach (.exec "graph_entry" [] 1)
        []).Wf :=
    (wf_empty "tags").attach (cursor_nil _) (Or.inl rfl)
  refine hEntry.attach ⟨by simp, ?_⟩ (Or.inr rfl)
  intro e he
  rw [List.mem_singleton.mp he]
  exact ⟨⟨_, rfl, by decide⟩, rfl⟩

/- Two lists are expanded, and the graph still compiles. -/
theorem expandLists_tagging :
    tagging.Registered ∧
      ∃ g', tagging.expandLists = (.ok 2, g') ∧
        tagging.Expanded tagging.inlineLists g' ∧
        g'.expandLists = (.ok 0, g') ∧
        ∃ c, g'.compile = .ok c := by
  have hRegistered : tagging.Registered :=
    ⟨fun h v hv => ((args_tagging h).2 v hv).1,
      fun h => (args_tagging h).1⟩
  have hCount : tagging.expandLists.1 = .ok 2 := by
    rfl
  have hCompiles : ∃ c, tagging.compile = .ok c := by
    refine compiles_iff.mpr ⟨?_, ?_, ?_⟩
    · intro e t hTarget
      exact ⟨wf_tagging.source hTarget,
        wf_tagging.target hTarget⟩
    · intro id n v p hNode hv hp
      rw [((args_tagging hNode).2 v hv).2] at hp
      cases hp
    · intro i hCircle
      refine Nat.lt_irrefl i (lt_of_transGen ?_ hCircle)
      rintro j k ⟨index, hTarget⟩
      exact wf_tagging.ascends hTarget
  have hDone :
      tagging.expandLists = (.ok 2, tagging.expandLists.2) :=
    Prod.ext hCount rfl
  rcases (expandLists_faithful tagging hRegistered).2.2.2.2
    2 _ hDone with ⟨_, hExpanded, hAgain, hStill⟩
  exact ⟨hRegistered, _, hDone, hExpanded, hAgain,
    hStill hCompiles⟩

end FlowGraph.Graph
