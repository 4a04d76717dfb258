import FlowGraph.Proofs.Enclosure

/-
  What a statement made is there at the end of the script.

  Between a statement and the end of the script the bodies
  around the statement are completed, one after the other.
  None of this touches the links that the statement made,
  and the nodes it made get new links only from where the
  flow came to the statement.

  Key definitions include:
    * `FlowGraph.Script.Session.Keeps`
    * `FlowGraph.Script.Inherited`
    * `FlowGraph.Script.Located`

  Key theorems include:
    * `FlowGraph.Script.Session.Keeps.body`
    * `FlowGraph.Script.runFrom_top`
    * `FlowGraph.Script.located`
-/

------------------------------------------------------------
-- Links That Stay
------------------------------------------------------------

namespace FlowGraph.Script.Session

/-
  A run has gone from `s` to `s'`.  In a later graph its
  links are as they were, except where it left the flow open.
-/
def Frozen
    (s s' : Session)
    (g : Graph) :
    Prop :=
  ∀ e, s.graph.nextId ≤ e.node ∨ e ∈ s.frame.tail →
    e.node < s'.graph.nextId → e ∉ s'.frame.tail →
      g.execTarget e = s'.graph.execTarget e

/-
  The same of the graph at the end of the script.  A link to
  one of the nodes was there or comes from outside.
-/
structure Keeps
    (s s' : Session)
    (g : Graph) :
    Prop where
  nodes :
    ∀ {id n}, s'.graph.nodes.get? id = some n →
      g.nodes.get? id = some n
  frozen : s.Frozen s' g
  shared : s.Shares s' g

variable {s s₁ s₂ s' a b z : Session} {g : Graph}

/- The graph grows where a run has left it open. -/
theorem frozen_of_grows
    (h : s'.graph.Grows s'.frame.tail g) :
    s.Frozen s' g :=
  fun _ _ hLt hNot => h.apart hLt hNot

/- The first of two runs. -/
theorem Frozen.first
    (h : s.Frozen s₂ g)
    (h₂ :
      s₁.graph.Advance s₁.frame.tail s₂.graph
        s₂.frame.tail) :
    s.Frozen s₁ g := by
  intro e hRange hLt hNot
  have hLe := h₂.grows.nextId_le
  have hKept :
      s₂.graph.execTarget e = s₁.graph.execTarget e :=
    h₂.grows.apart hLt hNot
  rw [← hKept]
  apply h e hRange (by omega)
  intro hMem
  rcases h₂.mem_or_new hMem with hOld | hNew
  · exact hNot hOld
  · omega

/- The second of two runs. -/
theorem Frozen.second
    (h : s.Frozen s₂ g)
    (h₁ :
      s.graph.Advance s.frame.tail s₁.graph
        s₁.frame.tail) :
    s₁.Frozen s₂ g := by
  intro e hRange hLt hNot
  refine h e ?_ hLt hNot
  rcases hRange with hNew | hOpen
  · exact Or.inl (Nat.le_trans h₁.grows.nextId_le hNew)
  · exact (h₁.mem_or_new hOpen).symm

/- Links of a body that the statement does not go on with. -/
theorem Frozen.inside
    (h : s.Frozen s' g)
    (hBody : Session.Encloses s s' a b)
    {e : Endpoint}
    (hRange : a.graph.nextId ≤ e.node ∨ e ∈ a.frame.tail)
    (hLt : e.node < b.graph.nextId)
    (hNot : e ∉ s'.frame.tail) :
    g.execTarget e = b.graph.execTarget e := by
  have hBefore := hBody.before
  have hAfter := hBody.after
  rw [← hBody.links e hRange hLt]
  refine h e (Or.inl ?_) (by omega) hNot
  rcases hRange with hNew | hStart
  · omega
  · exact hBody.start e hStart

/- The body of a statement. -/
theorem Frozen.body
    (h : s.Frozen s' g)
    (hBody : Session.Encloses s s' a b) :
    a.Frozen b g := by
  intro e hRange hLt hNot
  exact h.inside hBody hRange hLt
    fun hMem => hNot (hBody.listed e hRange hLt hMem)

/-
  Endpoints that a run left paired lead to the same node in
  a later graph.
-/
def Tied
    (s s' : Session)
    (g : Graph) :
    Prop :=
  ∀ e e' : Endpoint,
    s.graph.nextId ≤ e.node ∨ e ∈ s.frame.tail →
      s.graph.nextId ≤ e'.node ∨ e' ∈ s.frame.tail →
        s'.graph.Paired s'.frame.tail e e' →
          g.execTarget e = g.execTarget e'

theorem Tied.first
    (h : s.Tied s₂ g)
    (h₂ :
      s₁.graph.Advance s₁.frame.tail s₂.graph
        s₂.frame.tail) :
    s.Tied s₁ g :=
  fun e e' he he' hPaired =>
    h e e' he he' (hPaired.advance h₂)

theorem Tied.second
    (h : s.Tied s₂ g)
    (h₁ :
      s.graph.Advance s.frame.tail s₁.graph
        s₁.frame.tail) :
    s₁.Tied s₂ g := by
  have hRange :
      ∀ e : Endpoint,
        s₁.graph.nextId ≤ e.node ∨ e ∈ s₁.frame.tail →
          s.graph.nextId ≤ e.node ∨ e ∈ s.frame.tail := by
    intro e he
    rcases he with hNew | hOpen
    · exact Or.inl (Nat.le_trans h₁.grows.nextId_le hNew)
    · exact (h₁.mem_or_new hOpen).symm
  intro e e' he he' hPaired
  exact h e e' (hRange e he) (hRange e' he') hPaired

/- A statement goes on with all that a body left, or none. -/
theorem Encloses.paired
    (h : Session.Encloses s s' a b)
    {e e' : Endpoint}
    (he : a.graph.nextId ≤ e.node ∨ e ∈ a.frame.tail)
    (he' : a.graph.nextId ≤ e'.node ∨ e' ∈ a.frame.tail)
    (hPaired : b.graph.Paired b.frame.tail e e') :
    s'.graph.Paired s'.frame.tail e e' := by
  have hLe := h.after
  have hLeft := hPaired.left_lt
  have hRight := hPaired.right_lt
  refine ⟨by omega, by omega, ?_, ?_⟩
  · rw [h.links e he hLeft, h.links e' he' hRight]
    exact hPaired.target
  · rcases h.joined with hAll | hNone
    · constructor
      · intro hMem
        exact hAll e'
          (hPaired.listed.mp (h.listed e he hLeft hMem))
      · intro hMem
        exact hAll e
          (hPaired.listed.mpr (h.listed e' he' hRight hMem))
    · constructor
      · intro hMem
        exact absurd hMem
          (hNone e (h.listed e he hLeft hMem))
      · intro hMem
        exact absurd hMem
          (hNone e' (h.listed e' he' hRight hMem))

theorem Tied.body
    (h : s.Tied s' g)
    (hBody : Session.Encloses s s' a b) :
    a.Tied b g := by
  have hBefore := hBody.before
  have hRange :
      ∀ e : Endpoint,
        a.graph.nextId ≤ e.node ∨ e ∈ a.frame.tail →
          s.graph.nextId ≤ e.node := by
    intro e he
    rcases he with hNew | hStart
    · omega
    · exact hBody.start e hStart
  intro e e' he he' hPaired
  exact h e e' (Or.inl (hRange e he)) (Or.inl (hRange e' he'))
    (hBody.paired he he' hPaired)

/- What holds of the links of a run in later graphs. -/
structure Steady
    (s s' : Session)
    (g : Graph) :
    Prop where
  frozen : s.Frozen s' g
  tied : s.Tied s' g

theorem steady_of_grows
    (h : s'.graph.Grows s'.frame.tail g) :
    s.Steady s' g :=
  ⟨frozen_of_grows h, fun _ _ _ _ hPaired => hPaired.grows h⟩

theorem Steady.first
    (h : s.Steady s₂ g)
    (h₂ : s₁.Onward s₂) :
    s.Steady s₁ g :=
  ⟨h.frozen.first h₂.advance, h.tied.first h₂.advance⟩

theorem Steady.second
    (h : s.Steady s₂ g)
    (h₁ : s.Onward s₁) :
    s₁.Steady s₂ g :=
  ⟨h.frozen.second h₁.advance, h.tied.second h₁.advance⟩

theorem Steady.body
    (h : s.Steady s' g)
    (hBody : Session.Encloses s s' a b) :
    a.Steady b g :=
  ⟨h.frozen.body hBody, h.tied.body hBody⟩

/- The script goes on in the same place. -/
theorem Onward.keeps
    (h : s'.Onward z) :
    s.Keeps s' z.graph :=
  ⟨h.advance.grows.nodes, frozen_of_grows h.advance.grows,
    fun _ _ hLink hLt => Or.inl (h.old_link hLink hLt)⟩

theorem Keeps.first
    (h : s.Keeps s₂ g)
    (h₂ : s₁.Onward s₂) :
    s.Keeps s₁ g := by
  have hLe := h₂.nextId_le
  refine ⟨fun hNode => h.nodes (h₂.advance.grows.nodes hNode),
    h.frozen.first h₂.advance, ?_⟩
  intro e t hLink hLt
  rcases h.shared e t hLink (by omega) with
    hMade | ⟨hOut, d, hd, hFound⟩
  · exact Or.inl (h₂.old_link hMade hLt)
  · exact Or.inr ⟨hOut, d, hd, h₂.old_link hFound hLt⟩

theorem Keeps.second
    (h : s.Keeps s₂ g)
    (h₁ : s.Onward s₁) :
    s₁.Keeps s₂ g := by
  have hLe := h₁.nextId_le
  refine ⟨h.nodes, h.frozen.second h₁.advance, ?_⟩
  intro e t hLink hLt
  rcases h.shared e t hLink hLt with
    hMade | ⟨hOut, d, hd, hFound⟩
  · exact Or.inl hMade
  · exact Or.inr ⟨by omega, d, by omega, hFound⟩

theorem Keeps.body
    (h : s.Keeps s' g)
    (hBody : Session.Encloses s s' a b) :
    a.Keeps b g := by
  have hBefore := hBody.before
  have hAfter := hBody.after
  refine ⟨fun hNode => h.nodes (hBody.nodes hNode),
    h.frozen.body hBody, ?_⟩
  intro e t hLink hLt
  rcases h.shared e t hLink (by omega) with
    hMade | ⟨hOut, d, hd, hFound⟩
  · exact hBody.shares e t hMade hLt
  · refine Or.inr ⟨by omega, ?_⟩
    rcases hBody.shares d t hFound hLt with
      hThere | ⟨_, d', hd', hThere⟩
    · exact ⟨d, by omega, hThere⟩
    · exact ⟨d', hd', hThere⟩

end FlowGraph.Script.Session

------------------------------------------------------------
-- Statements At The Top
------------------------------------------------------------

namespace FlowGraph.Script

/- A statement at the top was run without a refusal. -/
inductive TopRan
    (script : List Stmt)
    (i : Nat) :
    Stmt → Session → Session → Prop
  | begins {bind : Binding} {event : String} {s : Session}
      (hReady : s.Ready) :
      TopRan script i (.action bind (.beginFunction event)) s
        ((s.opened event).finish [.statement i] bind
          (.node s.graph.nextId))
  | runs {st : Stmt} {s s' : Session}
      (hRan : StmtRan script [.statement i] st s s') :
      TopRan script i st s s'

variable {script block : List Stmt} {st : Stmt}
variable {i : Nat} {s s' : Session}

/- A function that begins goes on from its entry. -/
theorem Session.Onward.opened
    (hReady : s.Ready)
    (event : String)
    (path : Path)
    (bind : Binding) :
    s.Onward
      ((s.opened event).finish path bind
        (.node s.graph.nextId)) := by
  have hOpened := hReady.opened event
  have hGrows :
      s.graph.Grows [] (s.opened event).graph :=
    Graph.grows_attach hReady.builder.wf
  have hFits :
      Session.Fits (s.opened event) (s.opened event)
        (.node s.graph.nextId) :=
    ⟨entryNode event, Graph.get?_attach_self⟩
  have hKept :
      Session.Leads (fun _ => True) 0 (s.opened event)
        ((s.opened event).finish path bind
          (.node s.graph.nextId)) :=
    ((Session.Leads.refl hOpened).keep hFits).record trivial
      rfl (fun _ _ => Nat.zero_le _)
  have hAside :
      s.graph.Advance s.frame.tail (s.opened event).graph
        s.frame.tail :=
    .of_apart hGrows.nodes hGrows.nextId_le
      (fun hLt => hGrows.apart hLt (by simp))
      hReady.builder.wf hReady.builder.cursor
  refine ⟨hKept.ready, hAside.grows.advance_of_new ?_, ?_,
    List.suffix_cons _ _, ?_⟩
  · intro e he
    exact Graph.node_le_of_mem_singleton he
  · intro e he t hLink
    have hLt : e.node < s.graph.nextId :=
      hReady.builder.tail_lt he
    have hKept :
        (s.opened event).graph.execTarget e =
          s.graph.execTarget e :=
      hGrows.apart hLt (by simp)
    have hOpen : s.graph.execTarget e = none :=
      (hReady.builder.cursor.isOpen e he).2
    rw [← hKept, show (s.opened event).graph.execTarget e =
      some t from hLink] at hOpen
    cases hOpen
  · intro d hd
    rcases List.mem_cons.mp hd with hEq | hOld
    · rw [hEq]
      exact Or.inr hAside.grows
    · exact Or.inl hOld

theorem TopRan.onward
    (h : TopRan script i st s s') :
    s.Onward s' := by
  cases h with
  | begins hReady => exact .opened hReady _ _ _
  | runs hRan => exact hRan.onward

/- A statement of a structured script is run at the top. -/
theorem topRan_of_ok
    (hStmt : (st.begins || st.every Stmt.structured) = true)
    (hPlace : HoldsStmt script [.statement i] st)
    (hReady : s.Ready)
    (hRan : runStmt [.statement i] st s = (.ok (), s')) :
    TopRan script i st s s' := by
  cases hBegins : st.begins with
  | true =>
      unfold Stmt.begins at hBegins
      split at hBegins
      · rename_i bind event
        have hBegin :
            (runStmt [.statement i]
                (.action bind (.beginFunction event))).Meets s
              (fun _ s' =>
                s' = (s.opened event).finish [.statement i]
                  bind (.node s.graph.nextId))
              (fun _ _ => True) :=
          meets_begin.mpr rfl
        rw [hBegin.of_ok hRan]
        exact .begins hReady
      · cases hBegins
  | false =>
      rw [hBegins, Bool.false_or] at hStmt
      exact .runs ⟨hStmt, hPlace, hReady, hRan⟩

/-
  What statements at the top and in bodies hand on to the
  ones after and below them.
-/
structure Inherited
    (script : List Stmt)
    (z : Session)
    (I : Path → Session → Prop) :
    Prop where
  next :
    ∀ {path i st s s'},
      StmtRan script (path ++ [.statement i]) st s s' →
        I (path ++ [.statement i]) s →
          I (path ++ [.statement (i + 1)]) s'
  enters :
    ∀ {path st s a b r s₁ segment body},
      StmtRan script path st s
          (s₁.finish path st.binding r) →
        Unfolds script path s a b st r s₁ →
          (s₁.finish path st.binding r).journal <:+
              z.journal →
            st.body? segment = some body →
              I path s →
                I (path ++ [segment] ++ [.statement 0])
                  ((a segment).record (path ++ [segment])
                    .entered)
  begins :
    ∀ {i bind event} {s : Session}, s.Ready →
      I [.statement i] s →
        I [.statement (i + 1)]
          ((s.opened event).finish [.statement i] bind
            (.node s.graph.nextId))

variable {z : Session} {I : Path → Session → Prop}

theorem Inherited.top
    (hI : Inherited script z I)
    (h : TopRan script i st s s')
    (hHere : I [.statement i] s) :
    I [.statement (i + 1)] s' := by
  cases h with
  | begins hReady => exact hI.begins hReady hHere
  | runs hRan =>
      rw [← List.nil_append [Segment.statement i]]
        at hRan hHere
      exact hI.next hRan hHere

/-
  Every statement of a script that is not refused is run at
  the top, and the script goes on from there to its end.
-/
theorem runFrom_top
    (hBlock : structured block = true)
    (hPlace : Holds script [] i block)
    (hReady : s.Ready)
    (hOk :
      ∀ e ∈ (runFrom i block s).journal,
        e.event.isFailure = false)
    (hI : Inherited script z I)
    (hHere : I [.statement i] s) :
    s.Onward (runFrom i block s) ∧
      ∀ (j : Nat) st, block[j]? = some st →
        ∃ s₁ s₂,
          TopRan script (i + j) st s₁ s₂ ∧
            s₂.Onward (runFrom i block s) ∧
              I [.statement (i + j)] s₁ := by
  induction block generalizing i s with
  | nil =>
      refine ⟨.refl hReady, ?_⟩
      intro j st hj
      cases hj
  | cons st rest ih =>
      rcases Bool.and_eq_true_iff.mp hBlock with
        ⟨hStmt, hRest⟩
      unfold runFrom at hOk ⊢
      rcases hRan : runStmt [.statement i] st s with
        ⟨err | _, s'⟩
      · rw [hRan] at hOk
        rcases failed_mem_runFrom hRan rest with
          ⟨d, hd, hFailed⟩
        have hNot := hOk d hd
        rw [hFailed] at hNot
        cases hNot
      · rw [hRan] at hOk
        have hTop :=
          topRan_of_ok hStmt hPlace.head hReady hRan
        rcases ih hRest hPlace.tail hTop.onward.ready hOk
            (hI.top hTop hHere) with
          ⟨hOnward, hOthers⟩
        refine ⟨.trans hReady hTop.onward hOnward, ?_⟩
        intro j st' hj
        cases j with
        | zero =>
            cases hj
            exact ⟨s, s', hTop, hOnward, hHere⟩
        | succ j =>
            rw [show i + (j + 1) = i + 1 + j by omega]
            exact hOthers j st' hj

end FlowGraph.Script

------------------------------------------------------------
-- Statements Anywhere
------------------------------------------------------------

namespace FlowGraph.Script

/-
  What became of a run in all that was journaled later, and
  by the end of the script.
-/
structure Session.Lasts
    (s s' z : Session) :
    Prop where
  keeps : s.Keeps s' z.graph
  journal : s'.journal <:+ z.journal
  told :
    ∀ d ∈ z.journal, d ∈ s'.journal ∨ s.Steady s' d.graph
  tied : s.Tied s' z.graph

/- The run of the statement at a place. -/
structure Located
    (script : List Stmt)
    (z : Session)
    (I : Path → Session → Prop)
    (path : Path)
    (st : Stmt)
    (s s' : Session) :
    Prop where
  ran : StmtRan script path st s s'
  lasts : s.Lasts s' z
  inherits : I path s

/- The same for a block. -/
structure LocatedBlock
    (script : List Stmt)
    (z : Session)
    (I : Path → Session → Prop)
    (path : Path)
    (i : Nat)
    (block : List Stmt)
    (s s' : Session) :
    Prop where
  ran : BlockRan script path i block s s'
  lasts : s.Lasts s' z
  inherits : I (path ++ [.statement i]) s

variable {script block : List Stmt} {z : Session}
variable {I : Path → Session → Prop} {path : Path}
variable {st : Stmt} {i : Nat} {s s' : Session}

theorem Session.Onward.lasts
    (h : s'.Onward z) :
    s.Lasts s' z := by
  refine ⟨h.keeps, h.journal, ?_,
    (Session.steady_of_grows h.advance.grows).tied⟩
  intro d hd
  exact (h.told d hd).imp_right Session.steady_of_grows

theorem Session.Lasts.first
    {s₁ s₂ : Session}
    (h : s.Lasts s₂ z)
    (h₂ : s₁.Onward s₂) :
    s.Lasts s₁ z := by
  refine ⟨h.keeps.first h₂, h₂.journal.trans h.journal, ?_,
    h.tied.first h₂.advance⟩
  intro d hd
  rcases h.told d hd with hEarlier | hSteady
  · exact (h₂.told d hEarlier).imp_right
      Session.steady_of_grows
  · exact Or.inr (hSteady.first h₂)

theorem Session.Lasts.second
    {s₁ s₂ : Session}
    (h : s.Lasts s₂ z)
    (h₁ : s.Onward s₁) :
    s₁.Lasts s₂ z :=
  ⟨h.keeps.second h₁, h.journal, fun d hd =>
    (h.told d hd).imp_right fun hSteady =>
      hSteady.second h₁, h.tied.second h₁.advance⟩

theorem Session.Lasts.body
    {a b : Session}
    (h : s.Lasts s' z)
    (hBody : Session.Encloses s s' a b) :
    a.Lasts b z := by
  refine ⟨h.keeps.body hBody,
    hBody.journal.trans h.journal, ?_, h.tied.body hBody⟩
  intro d hd
  rcases h.told d hd with hEarlier | hSteady
  · rcases hBody.told d hEarlier with hOwn | hKept
    · exact Or.inl hOwn
    · refine Or.inr
        ⟨fun e hRange hLt _ => hKept e hRange hLt, ?_⟩
      intro e e' he he' hPaired
      rw [hKept e he hPaired.left_lt,
        hKept e' he' hPaired.right_lt]
      exact hPaired.target
  · exact Or.inr (hSteady.body hBody)

/- A body is journaled as entered before it is run. -/
theorem Session.Lasts.record
    {event : Event}
    (h : s.Lasts s' z) :
    (s.record path event).Lasts s' z :=
  ⟨⟨h.keeps.nodes, h.keeps.frozen, h.keeps.shared⟩,
    h.journal,
    fun d hd => (h.told d hd).imp_right fun hSteady =>
      ⟨hSteady.frozen, hSteady.tied⟩,
    h.tied⟩

/- The statements of a block. -/
theorem LocatedBlock.getElem?
    (hI : Inherited script z I)
    (h : LocatedBlock script z I path i block s s')
    {j : Nat}
    (hj : block[j]? = some st) :
    ∃ s₁ s₂,
      Located script z I (path ++ [.statement (i + j)]) st s₁
        s₂ := by
  induction block generalizing i j s with
  | nil => cases hj
  | cons first rest ih =>
      rcases h.ran.cons with ⟨s₁, hFirst, hRest⟩
      have hOnward := hRest.onward
      cases j with
      | zero =>
          cases hj
          exact ⟨s, s₁, hFirst, h.lasts.first hOnward,
            h.inherits⟩
      | succ j =>
          rw [show i + (j + 1) = i + 1 + j by omega]
          exact ih ⟨hRest, h.lasts.second hFirst.onward,
            hI.next hFirst h.inherits⟩ hj

/- The body of a statement. -/
theorem Located.body
    (hI : Inherited script z I)
    (h : Located script z I path st s s')
    {segment : Segment}
    {body : List Stmt}
    (hBody : st.body? segment = some body) :
    ∃ a b,
      LocatedBlock script z I (path ++ [segment]) 0 body a
        b := by
  have hRan := h.ran
  have hLasts := h.lasts
  rcases hRan.unfolds with ⟨a, b, r, s₁, hUnfolds, hEnd⟩
  rw [hEnd] at hRan hLasts
  have hInner :=
    hLasts.body ((hUnfolds.encloses hRan.ready hBody).finish
      path st.binding r)
  exact ⟨(a segment).record (path ++ [segment]) .entered,
    b segment, hUnfolds.body hBody, hInner.record,
    hI.enters hRan hUnfolds hLasts.journal hBody h.inherits⟩

/- The statements of a block and below. -/
theorem LocatedBlock.find?
    (hI : Inherited script z I)
    {below : Path}
    (h : LocatedBlock script z I path 0 block s s')
    (hFind : Script.find? block below = some st) :
    ∃ s₁ s₂,
      Located script z I (path ++ below) st s₁ s₂ := by
  fun_induction Script.find? block below
    generalizing path s s' with
  | case1 block i =>
      have hHere := h.getElem? hI hFind
      rw [Nat.zero_add] at hHere
      exact hHere
  | case2 block i segment rest body hBody ih =>
      rcases Option.bind_eq_some_iff.mp hBody with
        ⟨st', hSt, hBody⟩
      rcases h.getElem? hI hSt with ⟨s₁, s₂, hHere⟩
      rw [Nat.zero_add] at hHere
      rcases hHere.body hI hBody with ⟨a, b, hInner⟩
      have hBelow := ih hInner hFind
      rwa [List.append_assoc, List.append_assoc] at hBelow
  | case3 block i segment rest hNone => cases hFind
  | case4 block below hOne hMore => cases hFind

/-
  Every statement of a script that is not refused was run at
  its place, unless it begins a function.
-/
theorem located
    (hScript : structured script = true)
    {name : String}
    {config : Config}
    (hOk :
      ∀ e ∈ (run name config script).journal,
        e.event.isFailure = false)
    (hI : Inherited script (run name config script) I)
    (hNew : I [.statement 0] (.new name config))
    (hFind : find? script path = some st)
    (hRuns : st.begins = false) :
    ∃ s s',
      Located script (run name config script) I path st s
        s' := by
  have hReady : (Session.new name config).Ready :=
    (Session.Told.new (P := fun _ => True) name config).start
  have hTop :=
    (runFrom_top hScript (holds_script script) hReady hOk hI
      hNew).2
  have hHere :
      ∀ (j : Nat) st, script[j]? = some st →
        st.begins = false →
          ∃ s s',
            Located script (run name config script) I
              [.statement j] st s s' := by
    intro j st hj hRuns
    rcases hTop j st hj with ⟨s₁, s₂, hRan, hOnward, hHere⟩
    rw [Nat.zero_add] at hRan hHere
    cases hRan with
    | begins hReady => cases hRuns
    | runs hRan =>
        exact ⟨s₁, s₂, hRan, hOnward.lasts, hHere⟩
  unfold find? at hFind
  split at hFind
  · exact hHere _ st hFind hRuns
  · rename_i j segment rest
    split at hFind
    · rename_i body hBody
      rcases Option.bind_eq_some_iff.mp hBody with
        ⟨st', hSt, hBody⟩
      have hNot : st'.begins = false := by
        cases hBegins : st'.begins with
        | false => rfl
        | true =>
            unfold Stmt.begins at hBegins
            split at hBegins
            · cases hBody
            · cases hBegins
      rcases hHere j st' hSt hNot with ⟨s, s', hRan⟩
      rcases hRan.body hI hBody with ⟨a, b, hInner⟩
      exact hInner.find? hI hFind
    · cases hFind
  · cases hFind

end FlowGraph.Script

------------------------------------------------------------
-- Entries
------------------------------------------------------------

namespace FlowGraph.Script

variable {script : List Stmt} {z : Session}
variable {I : Path → Session → Prop} {path : Path}
variable {st : Stmt} {s s' : Session}

/- The last entry shows the builder. -/
def Session.Noted
    (s : Session) :
    Prop :=
  ∃ last earlier, s.journal = last :: earlier ∧
    last.builder = s.builder

theorem BlockRan.noted
    {block : List Stmt}
    {i : Nat}
    (h : BlockRan script path i block s s')
    (hNoted : s.Noted) :
    s'.Noted := by
  induction block generalizing i s with
  | nil =>
      rw [h.nil]
      exact hNoted
  | cons st rest ih =>
      rcases h.cons with ⟨s₁, hFirst, hRest⟩
      apply ih hRest
      rcases hFirst.unfolds with ⟨a, b, r, s₂, _, hEnd⟩
      rw [hEnd]
      exact ⟨_, _, rfl, rfl⟩

/- The entries of a body, from the first to the last. -/
theorem BodyRan.entries
    {block : List Stmt}
    {a b : Session}
    (h : BodyRan script path block a b) :
    ∃ during last,
      b.entries = a.entries ++ during ∧
        (∀ d ∈ during, path <+: d.path) ∧
          during.head? = some ⟨path, a.builder, .entered⟩ ∧
            during.getLast? = some last ∧
              last.builder = b.builder := by
  rcases BlockRan.wrote h with ⟨news, hJournal, _, hPaths⟩
  rcases BlockRan.noted h ⟨_, _, rfl, rfl⟩ with
    ⟨last, earlier, hNoted, hLast⟩
  refine ⟨⟨path, a.builder, .entered⟩ :: news.reverse, last,
    ?_, ?_, rfl, ?_, hLast⟩
  · rw [Session.entries, hJournal]
    simp [Session.record, Session.entries]
  · intro d hd
    rcases List.mem_cons.mp hd with hEq | hd
    · exact hEq ▸ List.prefix_refl _
    · exact hPaths d (List.mem_reverse.mp hd)
  · rw [hNoted] at hJournal
    cases news with
    | nil =>
        rw [(List.cons.inj hJournal).1]
        rfl
    | cons d news =>
        rw [(List.cons.inj hJournal).1, List.reverse_cons,
          ← List.cons_append, List.getLast?_concat]

/- The script runs from its start to its end. -/
theorem onward_run
    (hScript : structured script = true)
    {name : String}
    {config : Config}
    (hOk :
      ∀ e ∈ (run name config script).entries,
        e.event.isFailure = false) :
    (Session.new name config).Onward
        (run name config script) ∧
      ∀ (i : Nat) st, script[i]? = some st →
        ∃ s₁ s₂,
          TopRan script i st s₁ s₂ ∧
            s₂.Onward (run name config script) := by
  have hReady : (Session.new name config).Ready :=
    (Session.Told.new (P := fun _ => True) name config).start
  have hTop :=
    runFrom_top (z := run name config script)
      (I := fun _ _ => True) hScript (holds_script script)
      hReady (fun e he => hOk e (List.mem_reverse.mpr he))
      ⟨fun _ _ => trivial, fun _ _ _ _ _ => trivial,
        fun _ _ => trivial⟩
      trivial
  refine ⟨hTop.1, ?_⟩
  intro i st hi
  rcases hTop.2 i st hi with ⟨s₁, s₂, hRan, hOnward, _⟩
  rw [Nat.zero_add] at hRan
  exact ⟨s₁, s₂, hRan, hOnward⟩

/- Statements are found without anything handed on. -/
theorem located_of_ok
    (hScript : structured script = true)
    {name : String}
    {config : Config}
    (hOk :
      ∀ e ∈ (run name config script).entries,
        e.event.isFailure = false)
    (hFind : find? script path = some st)
    (hRuns : st.begins = false) :
    ∃ s s',
      Located script (run name config script)
        (fun _ _ => True) path st s s' :=
  located hScript
    (fun e he => hOk e (List.mem_reverse.mpr he))
    ⟨fun _ _ => trivial, fun _ _ _ _ _ => trivial,
      fun _ _ => trivial⟩
    trivial hFind hRuns

/- The graphs of entries, and the graph at the end. -/
def Session.graphsFrom
    (z : Session)
    (entries : List Entry) :
    List Graph :=
  entries.map Entry.graph ++ [z.graph]

/-
  The entry about a statement, the entries before it, and
  what is shown from it on.
-/
theorem Located.entry_steady
    (h : Located script z I path st s s')
    (hNodup : (z.journal.map Entry.path).Nodup) :
    ∃ a b r s₁ e after,
      Unfolds script path s a b st r s₁ ∧
        s' = s₁.finish path st.binding r ∧
          e = ⟨path, s₁.builder, .finished r⟩ ∧
            z.entries = s₁.entries ++ e :: after ∧
              ∀ g ∈ z.graphsFrom (e :: after),
                s.Steady s' g := by
  rcases h.ran.unfolds with ⟨a, b, r, s₁, hUnfolds, hEnd⟩
  have hLasts := h.lasts
  rcases hLasts.journal with ⟨news, hNews⟩
  refine ⟨a, b, r, s₁, _, news.reverse, hUnfolds, hEnd, rfl,
    ?_, ?_⟩
  · rw [Session.entries, ← hNews, hEnd]
    simp [Session.finish, Session.record, Session.entries]
  · intro g hg
    rcases List.mem_append.mp hg with hShown | hLast
    rotate_left
    · rw [List.mem_singleton.mp hLast]
      exact ⟨hLasts.keeps.frozen, hLasts.tied⟩
    rcases List.mem_map.mp hShown with ⟨d, hd, hEq⟩
    rw [← hEq]
    rcases List.mem_cons.mp hd with hSelf | hd
    · rw [hSelf, hEnd]
      exact ⟨fun _ _ _ _ => rfl,
        fun _ _ _ _ hPaired => hPaired.target⟩
    rw [List.mem_reverse] at hd
    rw [← hNews, List.map_append] at hNodup
    have hApart := (List.nodup_append.mp hNodup).2.2
    rcases hLasts.told d
        (hNews ▸ List.mem_append_left _ hd) with
      hEarlier | hSteady
    · exact absurd rfl (hApart _ (List.mem_map_of_mem hd) _
        (List.mem_map_of_mem hEarlier))
    · exact hSteady

theorem Located.entry
    (h : Located script z I path st s s')
    (hNodup : (z.journal.map Entry.path).Nodup) :
    ∃ a b r s₁ e after,
      Unfolds script path s a b st r s₁ ∧
        s' = s₁.finish path st.binding r ∧
          e = ⟨path, s₁.builder, .finished r⟩ ∧
            z.entries = s₁.entries ++ e :: after ∧
              ∀ g ∈ z.graphsFrom (e :: after),
                s.Frozen s' g := by
  rcases h.entry_steady hNodup with
    ⟨a, b, r, s₁, e, after, hUnfolds, hEnd, he, hEntries,
      hSteady⟩
  exact ⟨a, b, r, s₁, e, after, hUnfolds, hEnd, he, hEntries,
    fun g hg => (hSteady g hg).frozen⟩

end FlowGraph.Script
