import FlowGraph.Proofs.Persistence

/-
  The bodies of loops as parts of the graph.

  The nodes that come with the body of a loop are numbered
  in a row.  No link leads out of the row, and the only one
  that leads into it comes from the first exec output of the
  loop and ends at the first node of the body that is put
  into the flow.

  Key definitions include:
    * `FlowGraph.Graph.Reaches`
    * `FlowGraph.Graph.Confines`

  Key theorems include:
    * `FlowGraph.Graph.Confines.reaches_inside`
    * `FlowGraph.Script.Unfolds.confines`
    * `FlowGraph.Script.BlockRan.tail_until`
-/

------------------------------------------------------------
-- Flow Between Nodes
------------------------------------------------------------

namespace FlowGraph.Graph

/- The flow leads from a node to another, or stays there. -/
inductive Reaches
    (g : Graph) :
    Nat → Nat → Prop
  | stays (id : Nat) :
      Reaches g id id
  | goes {e : Endpoint} {next last : Nat}
      (hLink : g.execTarget e = some next)
      (hRest : Reaches g next last) :
      Reaches g e.node last

/-
  The links that touch the nodes between two numbers, where
  the first number is that of a loop: they stay inside, and
  of all exec outputs elsewhere, before or after, only the
  first one of the loop leads there.
-/
structure Confines
    (g : Graph)
    (loop stop : Nat) :
    Prop where
  leaves :
    ∀ e t, g.execTarget e = some t →
      loop < e.node → e.node < stop → loop < t ∧ t < stop
  enters :
    ∀ e t, g.execTarget e = some t →
      loop < t → t < stop →
        ¬(loop < e.node ∧ e.node < stop) → e = ⟨loop, 0⟩

variable {g : Graph} {first last loop stop : Nat}

/- What links do not leave, the flow does not leave. -/
theorem Reaches.closed
    {S : Nat → Prop}
    (h : g.Reaches first last)
    (hClosed :
      ∀ e t, g.execTarget e = some t → S e.node → S t)
    (hFirst : S first) :
    S last := by
  induction h with
  | stays => exact hFirst
  | goes hLink _ ih => exact ih (hClosed _ _ hLink hFirst)

/- From the first exec output the flow stays in the body. -/
theorem Confines.reaches_inside
    (h : g.Confines loop stop)
    (hWf : g.Wf)
    {t : Nat}
    (hLink : g.execTarget ⟨loop, 0⟩ = some t)
    (hLt : t < stop)
    (hReaches : g.Reaches t last) :
    loop < last ∧ last < stop := by
  have hInside : loop < t ∧ t < stop :=
    ⟨hWf.ascends hLink, hLt⟩
  exact hReaches.closed
    (S := fun id => loop < id ∧ id < stop)
    (fun e t hLink hIn => h.leaves e t hLink hIn.1 hIn.2)
    hInside

/- From the second exec output the flow stays outside. -/
theorem Confines.reaches_outside
    (h : g.Confines loop stop)
    (hWf : g.Wf)
    {t : Nat}
    (hLink : g.execTarget ⟨loop, 1⟩ = some t)
    (hReaches : g.Reaches t last) :
    stop ≤ last := by
  have hAscends : loop < t := hWf.ascends hLink
  have hOutside : stop ≤ t := by
    refine Nat.not_lt.mp fun hLt => ?_
    cases h.enters _ t hLink hAscends hLt
      fun hInside => Nat.lt_irrefl _ hInside.1
  refine hReaches.closed (S := fun id => stop ≤ id) ?_ hOutside
  intro e u hNext hPast
  exact Nat.le_trans hPast (Nat.le_of_lt (hWf.ascends hNext))

end FlowGraph.Graph

------------------------------------------------------------
-- The Body Of A Loop
------------------------------------------------------------

namespace FlowGraph.Script

variable {script : List Stmt} {path : Path} {st : Stmt}
variable {s s₁ : Session} {a b : Segment → Session}
variable {r : Result} {body : List Stmt}

/-
  Links to the nodes that a statement has made lead back to
  one that was made by the statement, from the same endpoint
  if that is not older.
-/
theorem Session.Keeps.source
    {s' : Session}
    {g : Graph}
    (h : s.Keeps s' g)
    {e : Endpoint}
    {t : Nat}
    (hLink : g.execTarget e = some t)
    (hLt : t < s'.graph.nextId) :
    ∃ d : Endpoint, s'.graph.execTarget d = some t ∧
      (d = e ∨
        e.node < s.graph.nextId ∧
          d.node < s.graph.nextId) := by
  rcases h.shared e t hLink hLt with
    hMade | ⟨hOld, d, hd, hFound⟩
  · exact ⟨e, hMade, Or.inl rfl⟩
  · exact ⟨d, hFound, Or.inr ⟨hOld, hd⟩⟩

/- An older endpoint leads to the node that is entered. -/
theorem Session.Entered.target_of_old
    {s' : Session}
    {n : Node}
    (h : s.Entered n s')
    (hReady : s.Ready)
    (hGrows : s.graph.Grows s.frame.tail s'.graph)
    {e : Endpoint}
    {t : Nat}
    (hLink : s'.graph.execTarget e = some t)
    (hOld : e.node < s.graph.nextId) :
    t ≤ s.graph.nextId := by
  by_cases he : e ∈ s.frame.tail
  · rw [h.target e he] at hLink
    exact Nat.le_of_eq (Option.some.inj hLink).symm
  · rw [hGrows.apart hOld he] at hLink
    exact Nat.le_of_lt
      (hReady.builder.wf.exec_lt
        (hReady.builder.wf.target hLink))

/- The body of a loop is confined. -/
theorem Unfolds.confines
    (h : Unfolds script path s a b st r s₁)
    (hReady : s.Ready)
    (hGrows : s.graph.Grows s.frame.tail s₁.graph)
    (hBody : st.body? .loopBody = some body)
    {g : Graph}
    (hKeeps : s.Keeps s₁ g) :
    g.Confines s.graph.nextId
        (b .loopBody).graph.nextId ∧
      ∀ t, g.execTarget ⟨s.graph.nextId, 0⟩ = some t →
        (b .loopBody).graph.execTarget ⟨s.graph.nextId, 0⟩ =
          some t := by
  cases h with
  | loop hRepeats hStart hRan =>
    have hLeads := hRan.leads
    rw [hStart] at hLeads
    rcases hRepeats.body with ⟨_, hExec, hOutputs⟩
    have hAfter := (leads_rounds hReady hRepeats hLeads).ready
    have hEntered := entered_loop hReady hExec hLeads hAfter
    have hLe : s.graph.nextId + 1 ≤
        (b .loopBody).graph.nextId := hLeads.nextId_le
    have hStop :
        (b .loopBody).graph.nextId ≤
          (s.afterLoop (b .loopBody)).graph.nextId :=
      (onward_afterLoop hAfter).nextId_le
    -- Inside of the body the graph is as the body left it.
    have hSame :
        ∀ e : Endpoint, s.graph.nextId ≤ e.node →
          e.node < (b .loopBody).graph.nextId →
            e ≠ ⟨s.graph.nextId, 1⟩ →
              g.execTarget e =
                (b .loopBody).graph.execTarget e := by
      intro e hNew hLt hNe
      rw [← execTarget_afterLoop hAfter hLt hNe]
      refine hKeeps.frozen e (Or.inl hNew)
        (Nat.lt_of_lt_of_le hLt hStop) ?_
      intro hMem
      rcases mem_tail_afterLoop hAfter hMem with hEq | hLater
      · exact hNe hEq
      · omega
    refine ⟨⟨?_, ?_⟩, ?_⟩
    · intro e t hLink hNew hLt
      have hNe : e ≠ ⟨s.graph.nextId, 1⟩ := by
        rintro rfl
        exact Nat.lt_irrefl _ hNew
      have hMade := hSame e (Nat.le_of_lt hNew) hLt hNe
      rw [hLink] at hMade
      have hWf := hLeads.ready.builder.wf
      exact ⟨Nat.lt_trans hNew (hWf.ascends hMade.symm),
        hWf.exec_lt (hWf.target hMade.symm)⟩
    · intro e t hLink hNew hLt hElsewhere
      rcases hKeeps.source hLink
          (Nat.lt_of_lt_of_le hLt hStop) with
        ⟨d, hMade, hSource⟩
      have hHere : ¬d.node < s.graph.nextId := by
        intro hOlder
        have hLe :=
          hEntered.target_of_old hReady hGrows hMade hOlder
        omega
      rcases hSource with hEq | ⟨_, hOlder⟩
      · cases hEq
        have hWf := (onward_afterLoop hAfter).ready.builder.wf
        -- A link ascends, so it does not come from after.
        have hAscends : e.node < t := hWf.ascends hMade
        have hNode : e.node = s.graph.nextId := by omega
        rcases hWf.source hMade with
          ⟨m, hFound, _, hIndex⟩
        rw [hNode, hEntered.node] at hFound
        cases hFound
        rw [hOutputs] at hIndex
        rcases e with ⟨node, index⟩
        cases hNode
        rcases index with _ | index
        · rfl
        · have hSecond : index = 0 := by
            simp only at hIndex
            omega
          rw [hSecond] at hMade
          have hFresh :=
            (onward_afterLoop hAfter).fresh _
              List.mem_cons_self t hMade
          exact absurd hLt (Nat.not_lt.mpr hFresh)
      · exact absurd hOlder hHere
    · intro t hLink
      rw [← hSame ⟨s.graph.nextId, 0⟩ (Nat.le_refl _) hLe
        nofun]
      exact hLink
  | conditional hDecides => cases hDecides <;> cases hBody
  | _ => cases hBody

end FlowGraph.Script

------------------------------------------------------------
-- First Nodes
------------------------------------------------------------

namespace FlowGraph.Script

variable {script block : List Stmt} {path : Path}
variable {st : Stmt} {i : Nat} {s s' s₁ : Session}
variable {a b : Segment → Session} {r : Result}

/- What was written since shows the nodes that were there. -/
theorem Session.Onward.told_le
    (h : s.Onward s')
    {d : Entry}
    (hd : d ∈ s'.journal) :
    d ∈ s.journal ∨ s.graph.nextId ≤ d.graph.nextId :=
  (h.told d hd).imp_right fun hGrows => hGrows.nextId_le

/- What was written since is about places of `P`. -/
theorem Session.Wrote.isNew
    {P : Path → Prop}
    (h : s.Wrote P s')
    {d : Entry}
    (hd : d ∈ s'.journal)
    (hNew : d ∉ s.journal) :
    P d.path := by
  rcases h with ⟨news, hJournal, _, hPaths⟩
  rw [hJournal] at hd
  rcases List.mem_append.mp hd with hd | hd
  · exact hPaths d hd
  · exact absurd hd hNew

/- The entries of a body are about places in the body. -/
theorem BodyRan.isNew
    {a b : Session}
    (h : BodyRan script path block a b)
    {d : Entry}
    (hd : d ∈ b.journal)
    (hNew : d ∉ a.journal) :
    path <+: d.path := by
  by_cases hEntered :
      d ∈ (a.record path .entered).journal
  · rcases List.mem_cons.mp hEntered with hEq | hOld
    · exact hEq ▸ List.prefix_refl _
    · exact absurd hOld hNew
  · exact (BlockRan.wrote h).isNew hd hEntered

/-
  A statement enters its node before anything is written,
  unless it is an action or a function.
-/
theorem Unfolds.entered
    (h : Unfolds script path s a b st r s₁)
    (hReady : s.Ready)
    (hAction : ∀ bind act, st ≠ .action bind act)
    (hFunction :
      ∀ bind event body, st ≠ .function bind event body) :
    (∃ n, s.Entered n s₁) ∧
      ∀ d ∈ s₁.journal, d ∈ s.journal ∨
        s.graph.nextId < d.graph.nextId := by
  cases h with
  | @action bind act => exact absurd rfl (hAction bind act)
  | @function bind event body =>
      exact absurd rfl (hFunction bind event body)
  | conditional hDecides hFirst hThen hSecond hElseReady
      hElse =>
      have h₁ := hThen.leads
      have h₂ := hElse.leads hElseReady
      have hNext₁ := h₁.nextId_le
      rw [hFirst] at h₁ hNext₁
      rw [hSecond] at h₂
      refine ⟨⟨_, entered_conditional hReady rfl h₁ h₂
        mem_join_two⟩, ?_⟩
      intro d hd
      rcases (hElse.onward hElseReady).told_le hd with
        hEarlier | hLater
      · rw [hSecond] at hEarlier
        rcases hThen.onward.told_le hEarlier with
          hOld | hLater
        · rw [hFirst] at hOld
          exact Or.inl hOld
        · rw [hFirst] at hLater
          exact Or.inr hLater
      · rw [hSecond] at hLater
        exact Or.inr (Nat.lt_of_lt_of_le hNext₁ hLater)
  | switch hEval hAssembled hArms hBodies =>
      refine ⟨⟨_, hAssembled.entered hReady⟩, ?_⟩
      intro d hd
      rw [Session.withTail_journal, hAssembled.journal] at hd
      exact (hArms.told d hd).imp_right fun hExtends =>
        hExtends.nextId_le
  | loop hRepeats hStart hRan =>
      have hLeads := hRan.leads
      rw [hStart] at hLeads
      refine ⟨⟨_, entered_loop hReady hRepeats.body.2.1 hLeads
        (leads_rounds hReady hRepeats hLeads).ready⟩, ?_⟩
      intro d hd
      rw [journal_afterLoop] at hd
      have hTold := hRan.onward.told_le hd
      rw [hStart] at hTold
      exact hTold

/-
  As long as an endpoint of the cursor has not got its link,
  a statement is journaled with the cursor where it was.
-/
theorem StmtRan.tail_until
    (h : StmtRan script path st s s')
    {e : Endpoint}
    {t : Nat}
    (he : e ∈ s.frame.tail)
    (hGoes :
      s'.graph.execTarget e = some t ∨ e ∈ s'.frame.tail)
    {d : Entry}
    (hd : d ∈ s'.journal)
    (hNew : d ∉ s.journal)
    {below : Path}
    (hPath : d.path = path ++ below)
    (hOwn : Segment.function ∉ below)
    (hEarly : d.graph.nextId ≤ t) :
    d.frame.tail = s.frame.tail := by
  have hReady := h.ready
  have hOnward := h.onward
  have hOld : e.node < s.graph.nextId :=
    hReady.builder.tail_lt he
  rcases h.unfolds with ⟨a, b, r, s₁, hUnfolds, hEnd⟩
  rw [hEnd] at hOnward hGoes hd
  -- The node of a construct is there before it writes.
  have hConstruct :
      (∃ n, s.Entered n s₁) →
        (∀ d ∈ s₁.journal, d ∈ s.journal ∨
          s.graph.nextId < d.graph.nextId) →
          d.frame.tail = s.frame.tail := by
    rintro ⟨n, hEntered⟩ hTold
    exfalso
    have hLater : s.graph.nextId < d.graph.nextId := by
      rcases List.mem_cons.mp hd with hEq | hd
      · rw [hEq]
        exact hEntered.lt
      · exact (hTold d hd).resolve_left hNew
    rcases hGoes with hLink | hOpen
    · have hTarget : s₁.graph.execTarget e = some t := hLink
      rw [hEntered.target e he] at hTarget
      cases hTarget
      omega
    · have hNewer := hEntered.isNew e hOpen
      omega
  cases st with
  | action bind act =>
      cases hUnfolds with
      | action hActs =>
          rcases List.mem_cons.mp hd with hEq | hd
          · rw [hEq] at hEarly ⊢
            rcases hGoes with hLink | hOpen
            · have hWf := hOnward.ready.builder.wf
              have hLt := hWf.exec_lt (hWf.target hLink)
              exact absurd hLt (Nat.not_lt.mpr hEarly)
            · rcases hOnward.advance.moves with
                ⟨hSame, _⟩ | hNewer
              · exact hSame
              · have hGe := hNewer e hOpen
                omega
          · exact absurd hd hNew
      | conditional hDecides => cases hDecides
      | loop hRepeats => cases hRepeats
  | function bind event body =>
      cases hUnfolds with
      | function hStart hRan =>
          rcases List.mem_cons.mp hd with hEq | hd
          · rw [hEq]
            rfl
          · have hInside := hRan.isNew hd (hStart ▸ hNew)
            rw [hPath] at hInside
            rcases List.prefix_append_right_inj path
              |>.mp hInside with ⟨rest, hBelow⟩
            rw [← hBelow] at hOwn
            simp at hOwn
      | conditional hDecides => cases hDecides
      | loop hRepeats => cases hRepeats
  | _ =>
      rcases hUnfolds.entered hReady (by simp) (by simp) with
        ⟨hEntered, hTold⟩
      exact hConstruct hEntered hTold

/-
  The same for a block: until the endpoint gets its link, the
  cursor is journaled where it was.
-/
theorem BlockRan.tail_until
    (h : BlockRan script path i block s s')
    {e : Endpoint}
    {t : Nat}
    (he : e ∈ s.frame.tail)
    (hLink : s'.graph.execTarget e = some t)
    {d : Entry}
    (hd : d ∈ s'.journal)
    (hNew : d ∉ s.journal)
    {below : Path}
    (hPath : d.path = path ++ below)
    (hOwn : Segment.function ∉ below)
    (hEarly : d.graph.nextId ≤ t) :
    d.frame.tail = s.frame.tail := by
  induction block generalizing i s with
  | nil =>
      rw [h.nil] at hd
      exact absurd hd hNew
  | cons st rest ih =>
      rcases h.cons with ⟨s₁, hFirst, hRest⟩
      have hOld : e.node < s.graph.nextId :=
        h.ready.builder.tail_lt he
      have hOnward := hFirst.onward
      have hLater := hRest.onward
      have hLe := hOnward.nextId_le
      have hLt : e.node < s₁.graph.nextId := by omega
      have hWithin :
          d ∈ s₁.journal →
            s₁.graph.execTarget e = some t ∨
                e ∈ s₁.frame.tail →
              d.frame.tail = s.frame.tail := by
        intro hHere hGoes
        rcases hFirst.wrote.isNew hHere hNew with
          ⟨below', hBelow⟩
        refine hFirst.tail_until he hGoes hHere hNew
          hBelow.symm ?_ hEarly
        intro hMem
        rw [hPath, List.append_assoc,
          List.append_cancel_left_eq] at hBelow
        rw [← hBelow] at hOwn
        exact hOwn (List.mem_cons_of_mem _ hMem)
      by_cases hOpen : e ∈ s₁.frame.tail
      -- The first statement has left the cursor alone.
      · have hSame : s₁.frame.tail = s.frame.tail := by
          rcases hOnward.advance.moves with ⟨hSame, _⟩ | hNewer
          · exact hSame
          · have hGe := hNewer e hOpen
            omega
        by_cases hHere : d ∈ s₁.journal
        · exact hWithin hHere (Or.inr hOpen)
        · rw [← hSame]
          exact ih hRest hOpen hHere
      · have hMade :
            s'.graph.execTarget e = s₁.graph.execTarget e :=
          hLater.advance.grows.apart hLt hOpen
        rw [hLink] at hMade
        by_cases hHere : d ∈ s₁.journal
        · exact hWithin hHere (Or.inl hMade.symm)
        · have hWf := hOnward.ready.builder.wf
          have hThere : t < s₁.graph.nextId :=
            hWf.exec_lt (hWf.target hMade.symm)
          have hShown :=
            (hLater.told_le hd).resolve_left hHere
          omega

end FlowGraph.Script
