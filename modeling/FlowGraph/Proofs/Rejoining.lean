import FlowGraph.Proofs.Joins
import FlowGraph.Proofs.Persistence

/-
  The flow after branches.

  The cursor after a conditional or a switch is told by the
  journal: by the last entry about each of its bodies.  The
  cursor goes on as a whole, whatever comes next.

  Key definitions include:
    * `FlowGraph.Script.leftOpen`
    * `FlowGraph.Script.Stmt.idle`

  Key theorems include:
    * `FlowGraph.Script.Unfolds.leftOpen`
    * `FlowGraph.Script.StmtRan.together`
    * `FlowGraph.Script.joins_lose_nothing`
-/

------------------------------------------------------------
-- What A Body Left Open
------------------------------------------------------------

namespace FlowGraph.Script

/-
  What the flow was left at after a body: the cursor of the
  last entry about its place or below.
-/
def leftOpen
    (entries : List Entry)
    (place : Path) :
    List Endpoint :=
  match
    (entries.filter fun d => place.isPrefixOf d.path).getLast?
  with
  | some d => d.frame.tail
  | none => []

variable {script : List Stmt} {path : Path} {st : Stmt}
variable {s s₁ : Session} {a b : Segment → Session}
variable {r : Result}
variable {segment : Segment} {body : List Stmt}

theorem leftOpen_eq
    {before after : List Entry}
    {place : Path}
    {last : Entry}
    (hLast : place <+: last.path)
    (hAfter : ∀ d ∈ after, ¬place <+: d.path) :
    leftOpen (before ++ last :: after) place =
      last.frame.tail := by
  have hNone :
      after.filter (fun d => place.isPrefixOf d.path) =
        [] := by
    rw [List.filter_eq_nil_iff]
    intro d hd hMem
    exact hAfter d hd (List.isPrefixOf_iff_prefix.mp hMem)
  have hSome : place.isPrefixOf last.path = true :=
    List.isPrefixOf_iff_prefix.mpr hLast
  unfold leftOpen
  rw [List.filter_append, List.filter_cons, if_pos hSome,
    hNone, List.getLast?_concat]

/- A body writes about places below its own. -/
theorem BodyRan.mem_journal
    {a b : Session}
    (h : BodyRan script path body a b)
    {d : Entry}
    (hd : d ∈ b.journal) :
    d ∈ a.journal ∨ path <+: d.path := by
  rcases h.entries with ⟨during, _, hEntries, hInside, _⟩
  rw [← List.mem_reverse, ← Session.entries, hEntries,
    List.mem_append] at hd
  rcases hd with hOld | hNew
  · exact Or.inl (List.mem_reverse.mp hOld)
  · exact Or.inr (hInside d hNew)

/- The other bodies write nothing about a body. -/
theorem Unfolds.mem_journal
    (h : Unfolds script path s a b st r s₁)
    (hBody : st.body? segment = some body)
    {d : Entry}
    (hd : d ∈ s₁.journal)
    (hPlace : path ++ [segment] <+: d.path) :
    d ∈ (b segment).journal := by
  cases h with
  | action hActs => cases hBody
  | function hStart hRan =>
      cases segment <;> cases hBody
      exact hd
  | loop hRepeats hStart hRan =>
      have hSegment := hRepeats.segment hBody
      rw [journal_afterLoop] at hd
      rw [hSegment]
      exact hd
  | conditional hDecides hFirst hThen hSecond hReady hElse =>
      have hSegment := hDecides.segment hBody
      rcases hSegment with hEq | hEq
      · have hFirstOnly :
            d ∈ (a .elseBody).journal →
              d ∈ (b segment).journal := by
          rw [hSecond, hEq]
          exact id
        cases hDecides with
        | ifThen hEval =>
            rw [show b .elseBody = a .elseBody from hElse]
              at hd
            exact hFirstOnly hd
        | ifElse hEval =>
            rcases BodyRan.mem_journal hElse hd with
              hOld | hNew
            · exact hFirstOnly hOld
            · rw [eq_of_common_start hPlace hNew] at hEq
              cases hEq
      · rw [hEq]
        exact hd
  | switch hEval hAssembled hArms hBodies =>
      rename_i bind control v cases default branches s₂ s₃ join
      rcases arm_of_body? path hBody with ⟨hSegment, hArm⟩
      have hTaken := hArms.bodies _ _ hArm
      rw [hSegment] at hTaken
      have hStart :
          s.journal <:+ (b segment).journal :=
        hTaken.before.journal.trans hTaken.leads.later.journal
      have hAll :=
        (hArms.induct
          (fun t => ∀ d ∈ t.journal,
            path ++ [segment] <+: d.path →
              d ∈ (b segment).journal) ?_ ?_ ?_).2
      · rcases hAssembled.same with ⟨c, _, hSame⟩
        rw [hSame] at hd
        exact hAll d hd hPlace
      · intro t tail hKept
        exact hKept
      · -- A body that writes about the place is the body.
        intro j run hRun hKept d hd hPlace
        rcases body_preparedSwitch bind control hRun rfl with
          ⟨block, hBlock, _⟩
        rcases (hBodies _ _ hBlock).mem_journal hd with
          hOld | hNew
        · exact hKept d hOld hPlace
        · rw [eq_of_common_start hPlace hNew]
          exact hd
      · intro d hd _
        exact hStart.subset hd

/- What a body left open is what its last entry shows. -/
theorem Unfolds.leftOpen
    (h : Unfolds script path s a b st r s₁)
    (hReady : s.Ready)
    (hNodup : (s₁.journal.map Entry.path).Nodup)
    (hBody : st.body? segment = some body) :
    leftOpen s₁.entries (path ++ [segment]) =
      (b segment).frame.tail := by
  rcases (h.body hBody).entries with
    ⟨during, last, hDuring, hInside, _, hFinal, hLast⟩
  rcases List.getLast?_eq_some_iff.mp hFinal with
    ⟨earlier, hEarlier⟩
  rcases (h.encloses hReady hBody).journal with ⟨news, hNews⟩
  have hEntries :
      s₁.entries =
        ((a segment).entries ++ earlier) ++
          last :: news.reverse := by
    rw [Session.entries, ← hNews, List.reverse_append,
      ← Session.entries, hDuring, hEarlier]
    simp
  have hTail : last.frame.tail = (b segment).frame.tail :=
    congrArg (fun c => c.frame.tail) hLast
  rw [hEntries, ← hTail]
  apply leftOpen_eq (hInside last (List.mem_of_getLast? hFinal))
  intro d hd hPlace
  rw [List.mem_reverse] at hd
  have hAgain :=
    h.mem_journal hBody (hNews ▸ List.mem_append_left _ hd)
      hPlace
  rw [← hNews, List.map_append] at hNodup
  exact (List.nodup_append.mp hNodup).2.2 _
    (List.mem_map_of_mem hd) _ (List.mem_map_of_mem hAgain) rfl

end FlowGraph.Script

------------------------------------------------------------
-- Bodies That Leave The Flow Alone
------------------------------------------------------------

namespace FlowGraph.Script

/- The statements that leave the flow alone. -/
def Stmt.idle : Stmt → Bool
  | .action _ .returnGate => true
  | .action _ act => act.isData
  | .function _ _ _ => true
  | _ => false

variable {script block : List Stmt} {path : Path}
variable {st : Stmt} {i : Nat} {s s' : Session}

theorem StmtRan.idle
    (h : StmtRan script path st s s')
    (hIdle : st.idle = true) :
    s'.frame.tail = s.frame.tail := by
  rcases h.unfolds with ⟨a, b, r, s₁, hUnfolds, hEnd⟩
  rw [hEnd]
  change s₁.frame.tail = s.frame.tail
  cases hUnfolds with
  | action hActs =>
      cases hActs with
      | rests hData => rfl
      | adds hData => rfl
      | declares => exact Builder.gated_tail
      | places hCall hExec hShows =>
          rename_i act n
          cases act <;>
            simp_all [Stmt.idle, Action.isData, Action.isCall]
      | _ => cases hIdle
  | function hStart hBody => rfl
  | conditional hDecides => cases hDecides <;> cases hIdle
  | switch hEval => cases hIdle
  | loop hRepeats => cases hRepeats <;> cases hIdle

theorem BlockRan.idle
    (h : BlockRan script path i block s s')
    (hIdle : block.all Stmt.idle = true) :
    s'.frame.tail = s.frame.tail := by
  induction block generalizing i s with
  | nil => rw [h.nil]
  | cons st rest ih =>
      rcases h.cons with ⟨s₁, hFirst, hRest⟩
      rw [List.all_cons, Bool.and_eq_true] at hIdle
      rw [ih hRest hIdle.2, hFirst.idle hIdle.1]

theorem BodyRan.idle
    {a b : Session}
    (h : BodyRan script path block a b)
    (hIdle : block.all Stmt.idle = true) :
    b.frame.tail = a.frame.tail := by
  have hTail := BlockRan.idle h hIdle
  exact hTail

end FlowGraph.Script

------------------------------------------------------------
-- What Comes Next
------------------------------------------------------------

namespace FlowGraph.Script

variable {script : List Stmt} {path : Path} {st : Stmt}
variable {s s' : Session}

/- The cursor goes on to one node, as a whole. -/
theorem StmtRan.together
    (h : StmtRan script path st s s')
    {g : Graph}
    (hSteady : s.Steady s' g) :
    ∃ t, ∀ e ∈ s'.frame.tail, g.execTarget e = t := by
  have hLeads := h.leads
  have hSame :
      ∀ e ∈ s'.frame.tail, ∀ d ∈ s'.frame.tail,
        g.execTarget e = g.execTarget d := by
    intro e he d hd
    have hLeft := hLeads.mem_tail he
    have hRight := hLeads.mem_tail hd
    have hOpen :
        ∀ x ∈ s'.frame.tail, s'.graph.execTarget x = none :=
      fun x hx => (hLeads.ready.builder.cursor.isOpen x hx).2
    exact hSteady.tied e d hLeft.1 hRight.1
      ⟨hLeft.2, hRight.2, by rw [hOpen e he, hOpen d hd],
        iff_of_true he hd⟩
  cases hTail : s'.frame.tail with
  | nil => exact ⟨none, List.forall_mem_nil _⟩
  | cons first rest =>
      rw [hTail] at hSame
      exact ⟨g.execTarget first, fun e he =>
        hSame e he first List.mem_cons_self⟩

/- The next exec node is linked to the whole cursor. -/
theorem place_links_tail
    {b : Builder}
    (hReady : b.Ready)
    {n : Node}
    (hExec : n.nodeClass = .exec) :
    (Builder.place n b).1 = .ok b.graph.nextId ∧
      ∀ e ∈ b.frame.tail,
        (Builder.place n b).2.graph.execTarget e =
          some b.graph.nextId := by
  rw [Builder.place_eq hReady hExec]
  exact ⟨rfl, fun e he => Graph.execTarget_attach_of_mem he⟩

end FlowGraph.Script

------------------------------------------------------------
-- Complete Joins
------------------------------------------------------------

namespace FlowGraph.Script

/-
  Branch joins lose nothing.  After a conditional the cursor
  is what its bodies left open, one after the other; after a
  switch, what the default and the cases left open themselves,
  in order, and then the exec outputs of the aliases whose
  targets left their own open.  No endpoint of this is
  repeated.  A body in which nothing is put into the flow or
  ends it leaves open the exec output that it started from.
  The next exec node becomes the target of the whole cursor,
  and no endpoint of the cursor is ever linked without the
  others.
-/
theorem joins_lose_nothing
    (name : String)
    (config : Config)
    (script : List Stmt)
    (hScript : structured script = true)
    (hOk :
      ∀ e ∈ (run name config script).entries,
        e.event.isFailure = false)
    (path : Path)
    (st : Stmt)
    (hFind : find? script path = some st)
    (hJoins : st.joins = true) :
    ∃ before e after node,
      (run name config script).entries =
          before ++ e :: after ∧
        e.path = path ∧
        e.event = .finished (.node node) ∧
        e.frame.tail =
          st.joined node
            (fun segment =>
              leftOpen before (path ++ [segment])) ∧
        e.frame.tail.Nodup ∧
        (∀ segment body, st.body? segment = some body →
          body.all Stmt.idle = true →
            leftOpen before (path ++ [segment]) =
              [⟨node, segment.output⟩]) ∧
        (∀ n : Node, n.nodeClass = .exec →
          (Builder.place n e.builder).1 =
              .ok e.graph.nextId ∧
            ∀ x ∈ e.frame.tail,
              (Builder.place n e.builder).2.graph.execTarget
                  x =
                some e.graph.nextId) ∧
        ∀ g ∈ (run name config script).graphsFrom
            (e :: after),
          ∃ t, ∀ x ∈ e.frame.tail, g.execTarget x = t := by
  have hRuns : st.begins = false := by
    cases st with
    | action bind act => cases hJoins
    | _ => rfl
  have hNodup := nodup_journal name config script
  rcases located_of_ok hScript hOk hFind hRuns with
    ⟨s, s', hLocated⟩
  rcases hLocated.entry_steady hNodup with
    ⟨a, b, r, s₁, e, after, hUnfolds, hEnd, hEntry, hEntries,
      hSteady⟩
  have hRan := hLocated.ran
  have hReady := hRan.leads.ready
  have hLast : s'.builder = e.builder := by
    rw [hEnd, hEntry]
    rfl
  have hSuffix :
      s₁.journal <:+ (run name config script).journal := by
    refine List.IsSuffix.trans ?_ hLocated.lasts.journal
    rw [hEnd]
    exact List.suffix_cons _ _
  have hLeft :
      ∀ segment body, st.body? segment = some body →
        leftOpen s₁.entries (path ++ [segment]) =
          (b segment).frame.tail :=
    fun segment body hBody =>
      hUnfolds.leftOpen hRan.ready
        ((hSuffix.sublist.map _).nodup hNodup) hBody
  rcases hUnfolds.joined hJoins hLeft with ⟨hResult, hTail⟩
  refine ⟨s₁.entries, e, after, s.graph.nextId, hEntries,
    by rw [hEntry], by rw [hEntry, hResult], ?_, ?_, ?_, ?_,
    ?_⟩
  · rw [hEntry]
    exact hTail
  · have hCursor := hReady.builder.cursor.nodup
    rw [hLast] at hCursor
    exact hCursor
  · intro segment body hBody hIdle
    rw [hLeft segment body hBody,
      (hUnfolds.body hBody).idle hIdle]
    exact (hUnfolds.start hBody).2.2
  · intro n hExec
    have hBuilder := hReady.builder
    rw [hLast] at hBuilder
    exact place_links_tail hBuilder hExec
  · intro g hg
    rcases hRan.together (hSteady g hg) with ⟨t, ht⟩
    refine ⟨t, ?_⟩
    rw [show e.frame = s'.frame from
      congrArg Builder.frame hLast.symm]
    exact ht

/-
  A switch after a conditional.  Its first case makes a
  variable, and two aliases share it; of the others one
  prints and one does nothing.
-/
def reunion : List Stmt :=
  [.action .none (.beginFunction "start"),
    .ifThen .none (.value (.bool true))
      [.action .none (.print (.literal (.str "a")))],
    .switch .none (.value (.int 1))
      [(.int 1, .body
          [.action .none (.declare (.value (.int 0)))]),
        (.int 2, .alias (.label (.int 1))),
        (.int 3, .body
          [.action .none (.print (.literal (.str "b")))]),
        (.int 4, .empty)]
      (.alias (.label (.int 2))),
    .action .none (.print (.literal (.str "c")))]

/- Both aliases are at the end of the join of the switch. -/
theorem reunion_joins_aliases :
    structured reunion = true ∧
      (∀ e ∈ (run "demo" .default reunion).entries,
        e.event.isFailure = false) ∧
      ∃ before e after node,
        (run "demo" .default reunion).entries =
            before ++ e :: after ∧
          e.path = [.statement 2] ∧
          e.event = .finished (.node node) ∧
          e.frame.tail =
            [⟨4, 1⟩, ⟨6, 0⟩, ⟨4, 4⟩, ⟨4, 0⟩, ⟨4, 2⟩] ∧
          leftOpen before [.statement 2, .case 0] =
            [⟨node, 1⟩] ∧
          ∀ g ∈ (run "demo" .default reunion).graphsFrom
              (e :: after),
            ∃ t, ∀ x ∈ e.frame.tail, g.execTarget x = t := by
  have hScript : structured reunion = true := by
    decide
  have hOk :
      ∀ e ∈ (run "demo" .default reunion).entries,
        e.event.isFailure = false := by
    decide +kernel
  have hCursor :
      ∀ e ∈ (run "demo" .default reunion).entries,
        e.path = [.statement 2] →
          e.frame.tail =
            [⟨4, 1⟩, ⟨6, 0⟩, ⟨4, 4⟩, ⟨4, 0⟩, ⟨4, 2⟩] := by
    decide +kernel
  rcases joins_lose_nothing "demo" .default reunion hScript
      hOk [.statement 2] _ rfl rfl with
    ⟨before, e, after, node, hEntries, hPath, hEvent, _, _,
      hIdle, _, hTogether⟩
  have he : e ∈ (run "demo" .default reunion).entries := by
    rw [hEntries]
    exact List.mem_append_right _ List.mem_cons_self
  exact ⟨hScript, hOk, before, e, after, node, hEntries,
    hPath, hEvent, hCursor e he hPath,
    hIdle (.case 0) _ rfl rfl, hTogether⟩

end FlowGraph.Script
