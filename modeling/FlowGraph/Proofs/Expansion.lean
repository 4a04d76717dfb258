import FlowGraph.Proofs.Building
import FlowGraph.Proofs.Validation

/-
  Expansion of inline lists.

  A node that assembles an inline list comes after the node
  that uses it, so its pin points forwards.  The graph still
  passes validation, and expansion is refused only for the
  size of a list.

  Key definitions include:
    * `FlowGraph.Graph.Grounded`
    * `FlowGraph.Graph.Inlines`
    * `FlowGraph.fitsInline`

  Key theorems include:
    * `FlowGraph.Graph.of_expandList`
    * `FlowGraph.Graph.expandEach_induction`
    * `FlowGraph.Graph.Proper.expandList`
    * `FlowGraph.Graph.Proper.expandEach`
    * `FlowGraph.Builder.finish_of_fits`
-/

------------------------------------------------------------
-- Replaced Arguments
------------------------------------------------------------

namespace FlowGraph

/- Only the outputs of the nodes matter for a value. -/
theorem Value.Usable.of_outputs
    {g g' : Graph}
    {hidden : Nat → Prop}
    {v : Value}
    (h : v.Usable g hidden)
    (hOutputs :
      ∀ id n, g.nodes.get? id = some n →
        ∃ n', g'.nodes.get? id = some n' ∧
          n'.outputs = n.outputs) :
    v.Usable g' hidden := by
  refine ⟨h.literal, ?_⟩
  intro p hp
  rcases h.pin p hp with ⟨hNot, n, out, hNode, hOut, hType⟩
  rcases hOutputs p.node n hNode with ⟨n', hNode', hSame⟩
  refine ⟨hNot, n', out, hNode', ?_, hType⟩
  unfold Node.output? at hOut ⊢
  rw [hSame]
  exact hOut

/- A node after a replacement. -/
theorem Graph.get?_replaceArg
    {g : Graph}
    {id position : Nat}
    {v : Value}
    (k : Nat) :
    (g.replaceArg id position v).nodes.get? k =
      (g.nodes.get? k).map fun n =>
        if k = id then
          { n with args := n.args.set position v }
        else
          n := by
  by_cases hEq : k = id
  · subst hEq
    refine (Table.get?_adjust_self _ _ _).trans ?_
    simp
  · refine (Table.get?_adjust_of_ne _ _ hEq).trans ?_
    simp [hEq]

/- Every node is there as before, arguments aside. -/
theorem Graph.kept_replaceArg
    {g : Graph}
    {k : Nat}
    {n : Node}
    (h : g.nodes.get? k = some n)
    (id position : Nat)
    (v : Value) :
    ∃ n', (g.replaceArg id position v).nodes.get? k =
        some n' ∧
      n'.nodeClass = n.nodeClass ∧
      n'.execOutputs = n.execOutputs ∧
      n'.outputs = n.outputs := by
  rw [get?_replaceArg, h]
  refine ⟨_, rfl, ?_⟩
  split
  · exact ⟨rfl, rfl, rfl⟩
  · exact ⟨rfl, rfl, rfl⟩

/- An argument is the new one, or it was there before. -/
theorem Graph.of_replaceArg
    {g : Graph}
    {id position k : Nat}
    {v : Value}
    {n : Node}
    (h : (g.replaceArg id position v).nodes.get? k = some n) :
    ∃ m, g.nodes.get? k = some m ∧
      ∀ w ∈ n.args, w = v ∨ w ∈ m.args := by
  rw [get?_replaceArg] at h
  rcases Option.map_eq_some_iff.mp h with ⟨m, hm, hEq⟩
  refine ⟨m, hm, ?_⟩
  intro w hw
  rw [← hEq] at hw
  split at hw
  · exact (List.mem_or_eq_of_mem_set hw).symm
  · exact Or.inr hw

end FlowGraph

------------------------------------------------------------
-- Changes That Keep Links Sound
------------------------------------------------------------

namespace FlowGraph.Graph

/-
  Links lead from exec outputs to exec nodes, and the next
  number is free.
-/
structure Grounded
    (g : Graph) :
    Prop where
  below :
    ∀ {id n}, g.nodes.get? id = some n → id < g.nextId
  links : g.SoundLinks

/- Links stay sound as long as their nodes stay exec nodes. -/
theorem SoundLinks.of_kept
    {g g' : Graph}
    (h : g.SoundLinks)
    (hLinks : g'.links = g.links)
    (hKept :
      ∀ id n, g.nodes.get? id = some n →
        ∃ n', g'.nodes.get? id = some n' ∧
          n'.nodeClass = n.nodeClass ∧
          n'.execOutputs = n.execOutputs) :
    g'.SoundLinks := by
  intro e t hTarget
  unfold execTarget at hTarget
  rw [hLinks] at hTarget
  rcases h e t hTarget with
    ⟨⟨n, hSource, hExec, hIndex⟩, m, hNode, hClass⟩
  rcases hKept e.node n hSource with
    ⟨n', hSource', hExec', hOutputs⟩
  rcases hKept t m hNode with ⟨m', hNode', hClass', _⟩
  refine ⟨⟨n', hSource', hExec'.trans hExec, ?_⟩,
    m', hNode', hClass'.trans hClass⟩
  rw [hOutputs]
  exact hIndex

namespace Grounded

variable {g : Graph}

/- A new node takes no number that is in use. -/
theorem add
    (h : g.Grounded)
    (n : Node) :
    (g.attach n []).Grounded where
  below := by
    intro id m hNode
    rw [attach_nextId]
    by_cases hEq : id = g.nextId
    · omega
    · rw [get?_attach_of_ne hEq] at hNode
      have hLt := h.below hNode
      omega
  links := by
    apply h.links.of_kept
    · rfl
    · intro id m hNode
      have hLt := h.below hNode
      refine ⟨m, ?_, rfl, rfl⟩
      rw [get?_attach_of_ne (by omega)]
      exact hNode

/- An argument is no part of a link. -/
theorem replaceArg
    (h : g.Grounded)
    (id position : Nat)
    (v : Value) :
    (g.replaceArg id position v).Grounded where
  below := by
    intro k n hNode
    rcases of_replaceArg hNode with ⟨m, hm, _⟩
    exact h.below hm
  links := by
    apply h.links.of_kept
    · rfl
    · intro k n hNode
      rcases kept_replaceArg hNode id position v with
        ⟨n', hNode', hClass, hOutputs, _⟩
      exact ⟨n', hNode', hClass, hOutputs⟩

end Grounded

end FlowGraph.Graph

------------------------------------------------------------
-- Changes That Keep A Graph Proper
------------------------------------------------------------

namespace FlowGraph.Graph.Proper

variable {g : Graph}

theorem grounded
    (h : g.Proper) :
    g.Grounded :=
  ⟨h.below, h.soundLinks⟩

/- A node may be added apart from the flow. -/
theorem add
    {n : Node}
    (h : g.Proper)
    (hArgs : ∀ v ∈ n.args, v.Usable g (fun _ => False)) :
    (g.attach n []).Proper := by
  have hGrounded := h.grounded.add n
  have hOld :
      ∀ {id m}, g.nodes.get? id = some m →
        (g.attach n []).nodes.get? id = some m := by
    intro id m hNode
    have hLt := h.below hNode
    rw [get?_attach_of_ne (by omega)]
    exact hNode
  have hUsable :
      ∀ {v : Value}, v.Usable g (fun _ => False) →
        v.Usable (g.attach n []) (fun _ => False) :=
    fun hv => hv.mono (fun _ _ hNode => hOld hNode)
      fun _ _ _ hFalse => hFalse
  refine ⟨fun hTarget => (hGrounded.links _ _ hTarget).1,
    fun hTarget => (hGrounded.links _ _ hTarget).2,
    h.ascends, hGrounded.below, ?_⟩
  intro id m hNode v hv
  by_cases hEq : id = g.nextId
  · rw [hEq, get?_attach_self] at hNode
    cases hNode
    exact hUsable (hArgs v hv)
  · rw [get?_attach_of_ne hEq] at hNode
    exact hUsable (h.args hNode v hv)

/- An argument may be replaced by a usable value. -/
theorem replaceArg
    {v : Value}
    (h : g.Proper)
    (hv : v.Usable g (fun _ => False))
    (id position : Nat) :
    (g.replaceArg id position v).Proper := by
  have hGrounded := h.grounded.replaceArg id position v
  have hUsable :
      ∀ {w : Value}, w.Usable g (fun _ => False) →
        w.Usable (g.replaceArg id position v)
          (fun _ => False) := by
    intro w hw
    apply hw.of_outputs
    intro k n hNode
    rcases kept_replaceArg hNode id position v with
      ⟨n', hNode', _, _, hSame⟩
    exact ⟨n', hNode', hSame⟩
  refine ⟨fun hTarget => (hGrounded.links _ _ hTarget).1,
    fun hTarget => (hGrounded.links _ _ hTarget).2,
    h.ascends, hGrounded.below, ?_⟩
  intro k n hNode w hw
  rcases of_replaceArg hNode with ⟨m, hm, hArgs⟩
  rcases hArgs w hw with hEq | hOld
  · rw [hEq]
    exact hUsable hv
  · exact hUsable (h.args hm w hOld)

end FlowGraph.Graph.Proper

------------------------------------------------------------
-- One Inline List
------------------------------------------------------------

namespace FlowGraph

/- A list of so many items may be expanded. -/
def fitsInline
    (size : Nat) :
    Prop :=
  0 < size ∧ size ≤ 100

/- A refusal of a list of `size` items for its size. -/
def sizeCause
    (size : Nat) :
    Cause :=
  if size = 0 then
    .emptyCollection .list
  else
    .tooManyElements .list size

theorem check_of_fits
    {size : Nat}
    (h : fitsInline size) :
    Collection.list.check size = .ok () := by
  have hSome : size ≠ 0 := Nat.ne_of_gt h.1
  have hLimit : ¬ Collection.list.limit < size :=
    Nat.not_lt.mpr h.2
  unfold Collection.check
  rw [if_neg hSome, if_neg hLimit]

theorem check_of_not_fits
    {size : Nat}
    (h : ¬ fitsInline size) :
    Collection.list.check size =
      .error (.of (sizeCause size)) := by
  unfold Collection.check sizeCause
  by_cases hNone : size = 0
  · rw [if_pos hNone, if_pos hNone]
  · have hLimit : Collection.list.limit < size := by
      apply Nat.lt_of_not_le
      intro hLe
      exact h ⟨Nat.pos_of_ne_zero hNone, hLe⟩
    rw [if_neg hNone, if_neg hNone, if_pos hLimit]

namespace InlineList

/- The items are literals of the type of the elements. -/
def Conforms
    (inline : InlineList) :
    Prop :=
  ∀ l ∈ inline.items,
    l.conformScalar inline.element = .ok l

/- The items as values. -/
def values
    (inline : InlineList) :
    List Value :=
  inline.items.map fun l =>
    ⟨.scalar inline.element, .literal l⟩

/- The node that assembles the list. -/
def listNode
    (inline : InlineList) :
    Node :=
  Builder.listNode inline.element inline.values

variable {inline : InlineList}

theorem mapM_literal
    {s : Scalar}
    {items : List Literal}
    (h : ∀ l ∈ items, l.conformScalar s = .ok l) :
    items.mapM (Value.literal (.scalar s)) =
      .ok (items.map fun l => ⟨.scalar s, .literal l⟩) := by
  induction items with
  | nil => rfl
  | cons l rest ih =>
      have hRest :=
        ih fun k hk => h k (List.mem_cons_of_mem _ hk)
      have hFirst :
          Value.literal (.scalar s) l =
            .ok ⟨.scalar s, .literal l⟩ := by
        simp only [Value.literal, Literal.conform,
          h l List.mem_cons_self, bind, Except.bind]
      rw [List.mapM_cons, hFirst, hRest]
      rfl

/- The items are of their type if the list is of its own. -/
theorem conforms_of_conform
    (h :
      (Literal.list inline.items).conform
          (.list inline.element) =
        .ok (.list inline.items)) :
    inline.Conforms := by
  rcases bind_eq_ok.mp h with ⟨items, hItems, hEq⟩
  cases hEq
  intro l hl
  rcases exists_of_mem_mapM hItems hl with ⟨k, _, hk⟩
  exact Literal.conformScalar_idem hk

/- The values of the items are usable. -/
theorem usable_values
    {g : Graph}
    {hidden : Nat → Prop}
    (h : inline.Conforms) :
    ∀ v ∈ inline.values, v.Usable g hidden := by
  intro v hv
  rcases List.mem_map.mp hv with ⟨l, hl, hEq⟩
  rw [← hEq]
  exact usable_of_literal (h l hl)

end InlineList

namespace Graph

variable {g : Graph} {inline : InlineList}

/- The pin of a node that assembles a list. -/
theorem pinValue_listNode
    {element : Scalar}
    {args : List Value} :
    (g.attach (Builder.listNode element args) []).pinValue
        g.nextId "list" 0 =
      .ok (.pin (.list element) ⟨g.nextId, "list", 0⟩) := by
  simp only [pinValue, node, get?_attach_self,
    Builder.output?_listNode, bind, Except.bind]

/- A list of a fitting size gets a node of its own. -/
theorem expandList_of_fits
    (hFits : fitsInline inline.items.length)
    (h : inline.Conforms) :
    g.expandList inline =
      .ok ((g.attach inline.listNode []).replaceArg
        inline.node inline.position
        (.pin (.list inline.element)
          ⟨g.nextId, "list", 0⟩)) := by
  unfold expandList
  rw [check_of_fits hFits]
  simp only [bind, Except.bind, InlineList.mapM_literal h]
  rw [show g.add (Builtin.assemblyList.node
      (inline.items.map fun l =>
        ⟨.scalar inline.element, .literal l⟩)
      (some (.list inline.element))) =
    (g.nextId, g.attach inline.listNode []) from rfl]
  simp only [InlineList.listNode, pinValue_listNode]

/- A list of any other size is refused. -/
theorem expandList_of_not_fits
    (hNot : ¬ fitsInline inline.items.length) :
    g.expandList inline =
      .error ⟨sizeCause inline.items.length,
        some inline.node⟩ := by
  unfold expandList
  rw [check_of_not_fits hNot]
  rfl

/- What a list that was expanded has become. -/
theorem of_expandList
    {g' : Graph}
    (h : g.expandList inline = .ok g') :
    ∃ args,
      fitsInline inline.items.length ∧
      inline.items.mapM
          (Value.literal (.scalar inline.element)) =
        .ok args ∧
      g' =
        (g.attach (Builder.listNode inline.element args)
          []).replaceArg inline.node inline.position
            (.pin (.list inline.element)
              ⟨g.nextId, "list", 0⟩) := by
  by_cases hFits : fitsInline inline.items.length
  · unfold expandList at h
    rw [check_of_fits hFits] at h
    rcases bind_eq_ok.mp h with ⟨args, hArgs, h⟩
    rcases bind_eq_ok.mp h with ⟨pin, hPin, h⟩
    cases pinValue_listNode.symm.trans hPin
    cases h
    exact ⟨args, hFits, hArgs, rfl⟩
  · rw [expandList_of_not_fits hFits] at h
    cases h

/-
  Lists are expanded one after another until one is refused,
  so what every expansion preserves is preserved by all.
-/
theorem expandEach_induction
    {P : Graph → Prop}
    (hStep :
      ∀ {g g' inline}, P g → g.expandList inline = .ok g' →
        P g')
    {inlines : List InlineList}
    (h : P g) :
    P (expandEach inlines g).2 := by
  induction inlines generalizing g with
  | nil => exact h
  | cons inline rest ih =>
      unfold expandEach
      cases hExpand : g.expandList inline with
      | error e => exact h
      | ok g' => exact ih (hStep h hExpand)

/- The graph stays proper. -/
theorem Proper.expandList
    (hProper : g.Proper)
    (hFits : fitsInline inline.items.length)
    (h : inline.Conforms) :
    ∃ g', g.expandList inline = .ok g' ∧ g'.Proper := by
  have hAdded :=
    hProper.add (n := inline.listNode)
      (InlineList.usable_values h)
  have hOut :
      inline.listNode.output? "list" 0 =
        some ⟨"list", .list inline.element⟩ := rfl
  have hPin :
      Value.Usable (g.attach inline.listNode [])
        (fun _ => False)
        (.pin (.list inline.element)
          ⟨g.nextId, "list", 0⟩) :=
    usable_pin (fun hFalse => hFalse) get?_attach_self hOut
  exact ⟨_, expandList_of_fits hFits h,
    hAdded.replaceArg hPin inline.node inline.position⟩

end Graph

end FlowGraph

------------------------------------------------------------
-- All Inline Lists
------------------------------------------------------------

namespace FlowGraph.Graph

/- A list literal is among the arguments of a node. -/
def Inlines
    (g : Graph)
    (items : List Literal) :
    Prop :=
  ∃ id n v s, g.nodes.get? id = some n ∧ v ∈ n.args ∧
    v.type = .list s ∧ v.source = .literal (.list items)

variable {g : Graph} {inlines : List InlineList}

/- The items of an argument that is an inline list. -/
theorem inlineItems?_eq_some_iff
    {v : Value}
    {s : Scalar}
    {items : List Literal} :
    v.inlineItems? = some (s, items) ↔
      v.type = .list s ∧
        v.source = .literal (.list items) := by
  unfold Value.inlineItems?
  constructor
  · intro h
    split at h
    · rename_i hType hSource
      cases h
      exact ⟨hType, hSource⟩
    · cases h
  · intro h
    rw [h.1, h.2]

/- An inline list stands at its position. -/
theorem at_of_mem_inlineLists
    {inline : InlineList}
    (h : inline ∈ g.inlineLists) :
    ∃ n v, g.nodes.get? inline.node = some n ∧
      n.args[inline.position]? = some v ∧
      v.type = .list inline.element ∧
      v.source = .literal (.list inline.items) := by
  rcases List.mem_flatMap.mp h with ⟨entry, hEntry, h⟩
  rcases List.mem_filterMap.mp h with ⟨arg, hArg, h⟩
  rcases Option.map_eq_some_iff.mp h with
    ⟨⟨s, items⟩, hItems, hEq⟩
  have hNode : g.nodes.get? entry.1 = some entry.2 :=
    Table.get?_eq_some_iff.mpr hEntry
  have hAt : entry.2.args[arg.2]? = some arg.1 :=
    List.mem_zipIdx_iff_getElem?.mp hArg
  rw [← hEq]
  exact ⟨entry.2, arg.1, hNode, hAt,
    inlineItems?_eq_some_iff.mp hItems⟩

/- An inline list is an argument of its node. -/
theorem of_mem_inlineLists
    {inline : InlineList}
    (h : inline ∈ g.inlineLists) :
    ∃ n v, g.nodes.get? inline.node = some n ∧
      v ∈ n.args ∧ v.type = .list inline.element ∧
      v.source = .literal (.list inline.items) := by
  rcases at_of_mem_inlineLists h with ⟨n, v, hNode, hAt, hv⟩
  exact ⟨n, v, hNode, List.mem_of_getElem? hAt, hv⟩

/- Every list literal among the arguments is listed. -/
theorem mem_inlineLists
    {items : List Literal}
    (h : g.Inlines items) :
    ∃ inline ∈ g.inlineLists, inline.items = items := by
  rcases h with ⟨id, n, v, s, hNode, hArg, hValue⟩
  rcases List.mem_iff_getElem?.mp hArg with ⟨i, hi⟩
  refine ⟨⟨id, i, s, items⟩, ?_, rfl⟩
  refine List.mem_flatMap.mpr ⟨(id, n),
    Table.get?_eq_some_iff.mp hNode, ?_⟩
  refine List.mem_filterMap.mpr ⟨(v, i), ?_, ?_⟩
  · exact List.mem_zipIdx_iff_getElem?.mpr hi
  · show v.inlineItems?.map _ = _
    rw [inlineItems?_eq_some_iff.mpr hValue]
    rfl

/- The items of an inline list are of their type. -/
theorem Proper.conforms
    (h : g.Proper)
    {inline : InlineList}
    (hInline : inline ∈ g.inlineLists) :
    inline.Conforms := by
  rcases of_mem_inlineLists hInline with
    ⟨n, v, hNode, hArg, hType, hSource⟩
  have hLiteral :
      v.literal? = some (.list inline.items) := by
    unfold Value.literal?
    rw [hSource]
  have hConform :=
    (h.args hNode v hArg).literal _ hLiteral
  rw [hType] at hConform
  exact InlineList.conforms_of_conform hConform

/- Lists of fitting sizes are all expanded. -/
theorem Proper.expandEach
    (h : g.Proper)
    (hConforms : ∀ inline ∈ inlines, inline.Conforms)
    (hFits :
      ∀ inline ∈ inlines,
        fitsInline inline.items.length) :
    ∃ g', Graph.expandEach inlines g = (.ok (), g') ∧
      g'.Proper := by
  induction inlines generalizing g with
  | nil => exact ⟨g, rfl, h⟩
  | cons inline rest ih =>
      rcases h.expandList (hFits _ List.mem_cons_self)
        (hConforms _ List.mem_cons_self) with
        ⟨g₁, hStep, hProper⟩
      rcases ih hProper
        (fun i hi => hConforms i (List.mem_cons_of_mem _ hi))
        (fun i hi => hFits i (List.mem_cons_of_mem _ hi))
        with ⟨g', hRest, hProper'⟩
      refine ⟨g', ?_, hProper'⟩
      simp only [Graph.expandEach, hStep]
      exact hRest

/- The first list of another size is refused. -/
theorem expandEach_of_not_fits
    (hConforms : ∀ inline ∈ inlines, inline.Conforms)
    (hNot :
      ∃ inline ∈ inlines,
        ¬ fitsInline inline.items.length) :
    ∃ before bad after g',
      inlines = before ++ bad :: after ∧
        (∀ inline ∈ before,
          fitsInline inline.items.length) ∧
        ¬ fitsInline bad.items.length ∧
        Graph.expandEach inlines g =
          (.error ⟨sizeCause bad.items.length,
            some bad.node⟩, g') := by
  induction inlines generalizing g with
  | nil =>
      rcases hNot with ⟨inline, hMem, _⟩
      cases hMem
  | cons inline rest ih =>
      by_cases hFits : fitsInline inline.items.length
      · have hStep :=
          expandList_of_fits (g := g) hFits
            (hConforms _ List.mem_cons_self)
        have hLater :
            ∃ i ∈ rest, ¬ fitsInline i.items.length := by
          rcases hNot with ⟨i, hi, hBad⟩
          rcases List.mem_cons.mp hi with hEq | hi
          · rw [hEq] at hBad
            exact absurd hFits hBad
          · exact ⟨i, hi, hBad⟩
        rcases ih
          (fun i hi =>
            hConforms i (List.mem_cons_of_mem _ hi))
          hLater with
          ⟨before, bad, after, g', hEq, hFirst, hBad, hRest⟩
        refine ⟨inline :: before, bad, after, g', ?_, ?_,
          hBad, ?_⟩
        · rw [hEq]
          rfl
        · intro i hi
          rcases List.mem_cons.mp hi with hHead | hi
          · rw [hHead]
            exact hFits
          · exact hFirst i hi
        · simp only [Graph.expandEach, hStep]
          exact hRest
      · refine ⟨[], inline, rest, g, rfl, nofun, hFits, ?_⟩
        simp only [Graph.expandEach,
          expandList_of_not_fits hFits]

end FlowGraph.Graph

------------------------------------------------------------
-- Finishing
------------------------------------------------------------

namespace FlowGraph.Builder

variable {b : Builder}

/- Without expansion a proper graph is accepted. -/
theorem finish_of_off
    (h : b.graph.Proper)
    (hOff : b.config.expandLists = false) :
    b.finish = .ok b.graph.finished := by
  unfold finish
  rw [if_neg (by simp [hOff])]
  exact h.compile

/- With expansion it is accepted if all lists fit. -/
theorem finish_of_fits
    (h : b.graph.Proper)
    (hOn : b.config.expandLists = true)
    (hFits :
      ∀ items, b.graph.Inlines items →
        fitsInline items.length) :
    ∃ c, b.finish = .ok c := by
  have hLists :
      ∀ inline ∈ b.graph.inlineLists,
        fitsInline inline.items.length := by
    intro inline hInline
    rcases Graph.of_mem_inlineLists hInline with
      ⟨n, v, hNode, hArg, hValue⟩
    exact hFits _ ⟨inline.node, n, v, inline.element, hNode,
      hArg, hValue⟩
  rcases h.expandEach (fun _ hi => h.conforms hi) hLists with
    ⟨g', hExpand, hProper⟩
  refine ⟨g'.finished, ?_⟩
  unfold finish Graph.expandLists
  rw [if_pos hOn]
  simp only [hExpand]
  exact hProper.compile

/- Otherwise it is refused for the size of a list. -/
theorem finish_of_not_fits
    (h : b.graph.Proper)
    (hOn : b.config.expandLists = true)
    (hNot :
      ∃ items, b.graph.Inlines items ∧
        ¬ fitsInline items.length) :
    ∃ items id, b.graph.Inlines items ∧
      ¬ fitsInline items.length ∧
      b.finish =
        .error ⟨sizeCause items.length, some id⟩ := by
  have hBad :
      ∃ inline ∈ b.graph.inlineLists,
        ¬ fitsInline inline.items.length := by
    rcases hNot with ⟨items, hItems, hSize⟩
    rcases Graph.mem_inlineLists hItems with
      ⟨inline, hInline, hEq⟩
    exact ⟨inline, hInline, by rw [hEq]; exact hSize⟩
  rcases Graph.expandEach_of_not_fits (g := b.graph)
    (fun _ hi => h.conforms hi) hBad with
    ⟨before, inline, after, g', hEq, _, hSize, hExpand⟩
  have hInline : inline ∈ b.graph.inlineLists := by
    rw [hEq]
    exact List.mem_append_right _ List.mem_cons_self
  rcases Graph.of_mem_inlineLists hInline with
    ⟨n, v, hNode, hArg, hValue⟩
  refine ⟨inline.items, inline.node,
    ⟨inline.node, n, v, inline.element, hNode, hArg, hValue⟩,
    hSize, ?_⟩
  unfold finish Graph.expandLists
  rw [if_pos hOn]
  simp only [hExpand]
  rfl

end FlowGraph.Builder
