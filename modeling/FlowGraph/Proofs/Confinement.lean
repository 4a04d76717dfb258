import FlowGraph.Proofs.Regions

/-
  Links stay in their loops and functions.

  A function spans the nodes from its entry to its end.  A
  function inside of another one spans a part of the same
  nodes, and a node belongs to the innermost one.  Links do
  not cross the borders of functions, so what the flow
  reaches from one entry is not reached from another.

  Key definitions include:
    * `FlowGraph.Script.Entry.spans`
    * `FlowGraph.Script.functionOf`

  Key theorems include:
    * `FlowGraph.Script.spans_of_link`
    * `FlowGraph.Script.links_confined`
-/

------------------------------------------------------------
-- Functions
------------------------------------------------------------

namespace FlowGraph.Script

/- Whether a statement starts a function. -/
def Stmt.isFunction : Stmt → Bool
  | .function _ _ _ => true
  | st => st.begins

/-
  Whether an entry is about a function that spans a node.  A
  function with a body ends where its entry is written.  One
  that begins at the top goes on to the end, except where a
  later one takes over.
-/
def Entry.spans
    (script : List Stmt)
    (e : Entry)
    (id : Nat) :
    Bool :=
  match e.node?, find? script e.path with
  | some first, some (.function _ _ _) =>
      decide (first ≤ id ∧ id < e.graph.nextId)
  | some first, some (.action _ (.beginFunction _)) =>
      decide (first ≤ id)
  | _, _ => false

/-
  The function that a node belongs to, known by its entry:
  the latest one of those that span the node.
-/
def functionOf
    (script : List Stmt)
    (entries : List Entry)
    (id : Nat) :
    Option Nat :=
  ((entries.filter fun e => e.spans script id).filterMap
    Entry.node?).max?

variable {script : List Stmt} {path : Path} {st : Stmt}
variable {s s' s₁ z : Session} {a b : Segment → Session}
variable {r : Result}

/- No links lead into or out of a function with a body. -/
theorem Located.function_confined
    {I : Path → Session → Prop}
    {bind : Binding}
    {event : String}
    {body : List Stmt}
    (h :
      Located script z I path (.function bind event body) s
        s')
    (hWf : z.graph.Wf)
    {e : Endpoint}
    {t : Nat}
    (hLink : z.graph.execTarget e = some t) :
    (s.graph.nextId ≤ e.node ∧ e.node < s'.graph.nextId) ↔
      (s.graph.nextId ≤ t ∧ t < s'.graph.nextId) := by
  have hReady := h.ran.ready
  have hOnward := h.ran.onward
  have hAscends : e.node < t := hWf.ascends hLink
  have hCursor : s'.frame.tail = s.frame.tail := by
    rcases h.ran.unfolds with ⟨a, b, r, s₁, hUnfolds, hEnd⟩
    rw [hEnd]
    cases hUnfolds with
    | function hStart hRan => rfl
    | conditional hDecides => cases hDecides
    | loop hRepeats => cases hRepeats
  constructor
  · rintro ⟨hNew, hLt⟩
    have hMade :
        z.graph.execTarget e = s'.graph.execTarget e := by
      refine h.lasts.keeps.frozen e (Or.inl hNew) hLt ?_
      rw [hCursor]
      intro hMem
      have hOld : e.node < s.graph.nextId :=
        hReady.builder.tail_lt hMem
      omega
    rw [hLink] at hMade
    have hWf := hOnward.ready.builder.wf
    exact ⟨by omega, hWf.exec_lt (hWf.target hMade.symm)⟩
  · rintro ⟨hNew, hLt⟩
    refine ⟨?_, by omega⟩
    refine Nat.not_lt.mp fun hOutside => ?_
    rcases h.lasts.keeps.source hLink hLt with
      ⟨d, hMade, hSource⟩
    have hOld : d.node < s.graph.nextId := by
      rcases hSource with hEq | ⟨_, hOlder⟩
      · rw [hEq]
        exact hOutside
      · exact hOlder
    -- The cursor is where it was, so the link is an old one.
    by_cases hMem : d ∈ s.frame.tail
    · rw [← hCursor] at hMem
      have hOpen : s'.graph.execTarget d = none :=
        (hOnward.ready.builder.cursor.isOpen d hMem).2
      rw [hOpen] at hMade
      cases hMade
    · have hKept :
          s'.graph.execTarget d = s.graph.execTarget d :=
        hOnward.advance.grows.apart hOld hMem
      rw [hKept] at hMade
      have hWf := hReady.builder.wf
      have hThere : t < s.graph.nextId :=
        hWf.exec_lt (hWf.target hMade)
      omega

/- No links lead over the beginning of a function. -/
theorem begin_confined
    (hReady : s.Ready)
    {event : String}
    {bind : Binding}
    (hOnward :
      ((s.opened event).finish path bind
        (.node s.graph.nextId)).Onward z)
    {e : Endpoint}
    {t : Nat}
    (hLink : z.graph.execTarget e = some t) :
    s.graph.nextId ≤ e.node ↔ s.graph.nextId ≤ t := by
  have hAscends : e.node < t :=
    hOnward.ready.builder.wf.ascends hLink
  refine ⟨fun hNew => by omega, fun hNew => ?_⟩
  refine Nat.not_lt.mp fun hOld => ?_
  have hLt : e.node < s.graph.nextId + 1 := by omega
  have hApart : e ∉ [(⟨s.graph.nextId, 0⟩ : Endpoint)] := by
    intro hMem
    rw [List.mem_singleton.mp hMem] at hOld
    exact Nat.lt_irrefl _ hOld
  have hKept :
      z.graph.execTarget e =
        (s.graph.attach (entryNode event) []).execTarget e :=
    hOnward.advance.grows.apart hLt hApart
  rw [hLink, Graph.execTarget_attach_of_not_mem (by simp)]
    at hKept
  have hWf := hReady.builder.wf
  have hThere : t < s.graph.nextId :=
    hWf.exec_lt (hWf.target hKept.symm)
  omega

end FlowGraph.Script

------------------------------------------------------------
-- The Function Of A Node
------------------------------------------------------------

namespace FlowGraph.Script

variable {name : String} {config : Config}
variable {script : List Stmt} {d : Entry}

/- What an entry about a function with a body spans. -/
theorem spans_function
    (hScript : structured script = true)
    (hOk :
      ∀ e ∈ (run name config script).entries,
        e.event.isFailure = false)
    {bind : Binding}
    {event : String}
    {body : List Stmt}
    (hd : d ∈ (run name config script).journal)
    (hFind :
      find? script d.path = some (.function bind event body)) :
    ∃ first, d.node? = some first ∧
      first < d.graph.nextId ∧
        ∀ e t,
          (run name config script).graph.execTarget e =
              some t →
            ((first ≤ e.node ∧ e.node < d.graph.nextId) ↔
              (first ≤ t ∧ t < d.graph.nextId)) := by
  have hNodup := nodup_journal name config script
  have hWf := (onward_run hScript hOk).1.ready.builder.wf
  rcases located_of_ok hScript hOk hFind rfl with
    ⟨s, s', hLocated⟩
  have hRan := hLocated.ran
  rcases hRan.unfolds with ⟨a, b, r, s₁, hUnfolds, hEnd⟩
  have hEntry :
      d = ⟨d.path, s₁.builder, .finished r⟩ := by
    refine eq_of_path_eq hNodup hd ?_ rfl
    apply hLocated.lasts.journal.subset
    rw [hEnd]
    exact List.mem_cons_self
  have hBody :
      (Stmt.function bind event body).body? .function =
        some body := rfl
  rcases hUnfolds.start hBody with ⟨hResult, hLt, _⟩
  have hLe : (a .function).graph.nextId ≤
      (b .function).graph.nextId :=
    (hUnfolds.body hBody).leads.nextId_le
  have hEnds :=
    (hUnfolds.encloses hRan.ready hBody).after
  have hGraph : d.graph = s'.graph := by
    rw [hEntry, hEnd]
    rfl
  refine ⟨s.graph.nextId, ?_, ?_, ?_⟩
  · rw [hEntry, hResult]
    rfl
  · rw [hEntry]
    exact Nat.lt_of_lt_of_le hLt (Nat.le_trans hLe hEnds)
  · intro e t hLink
    rw [hGraph]
    exact hLocated.function_confined hWf hLink

/- What an entry about a function that begins spans. -/
theorem spans_begin
    (hScript : structured script = true)
    (hOk :
      ∀ e ∈ (run name config script).entries,
        e.event.isFailure = false)
    {bind : Binding}
    {event : String}
    (hd : d ∈ (run name config script).journal)
    (hFind :
      find? script d.path =
        some (.action bind (.beginFunction event))) :
    ∃ first, d.node? = some first ∧
      ∀ e t,
        (run name config script).graph.execTarget e =
            some t →
          (first ≤ e.node ↔ first ≤ t) := by
  have hNodup := nodup_journal name config script
  rcases begins_at_top hScript hFind rfl with ⟨i, hPath, hi⟩
  rcases (onward_run hScript hOk).2 i _ hi with
    ⟨s, s', hRan, hOnward⟩
  cases hRan with
  | begins hReady =>
      have hEntry :
          d = ⟨[.statement i], (s.opened event).builder,
            .finished (.node s.graph.nextId)⟩ :=
        eq_of_path_eq hNodup hd
          (hOnward.journal.subset List.mem_cons_self) hPath
      refine ⟨s.graph.nextId, ?_, ?_⟩
      · rw [hEntry]
        rfl
      · intro e t hLink
        exact begin_confined hReady hOnward hLink
  | runs hRan => cases hRan.structured

/-
  A function spans its entry node and what comes after it,
  and no link crosses its border.
-/
theorem function_spans
    (hScript : structured script = true)
    (hOk :
      ∀ e ∈ (run name config script).entries,
        e.event.isFailure = false)
    {st : Stmt}
    (hd : d ∈ (run name config script).journal)
    (hFind : find? script d.path = some st)
    (hFunction : st.isFunction = true) :
    ∃ first, d.node? = some first ∧
      d.spans script first = true ∧
        (∀ id, d.spans script id = true → first ≤ id) ∧
          ∀ e t,
            (run name config script).graph.execTarget e =
                some t →
              d.spans script e.node = d.spans script t := by
  unfold Stmt.isFunction at hFunction
  split at hFunction
  · rcases spans_function hScript hOk hd hFind with
      ⟨first, hNode, hLt, hLinks⟩
    have hSpans :
        ∀ id, d.spans script id =
          decide (first ≤ id ∧ id < d.graph.nextId) := by
      intro id
      unfold Entry.spans
      rw [hNode, hFind]
    refine ⟨first, hNode, ?_, ?_, ?_⟩
    · rw [hSpans]
      simp [hLt]
    · intro id hid
      rw [hSpans, decide_eq_true_iff] at hid
      exact hid.1
    · intro e t hLink
      rw [hSpans, hSpans]
      exact decide_eq_decide.mpr (hLinks e t hLink)
  · unfold Stmt.begins at hFunction
    split at hFunction
    · rcases spans_begin hScript hOk hd hFind with
        ⟨first, hNode, hLinks⟩
      have hSpans :
          ∀ id, d.spans script id = decide (first ≤ id) := by
        intro id
        unfold Entry.spans
        rw [hNode, hFind]
      refine ⟨first, hNode, ?_, ?_, ?_⟩
      · rw [hSpans]
        simp
      · intro id hid
        rw [hSpans, decide_eq_true_iff] at hid
        exact hid
      · intro e t hLink
        rw [hSpans, hSpans]
        exact decide_eq_decide.mpr (hLinks e t hLink)
    · cases hFunction

/- Links stay inside of what a function spans. -/
theorem spans_of_link
    (hScript : structured script = true)
    (hOk :
      ∀ e ∈ (run name config script).entries,
        e.event.isFailure = false)
    (hd : d ∈ (run name config script).entries)
    {e : Endpoint}
    {t : Nat}
    (hLink :
      (run name config script).graph.execTarget e = some t) :
    d.spans script e.node = d.spans script t := by
  rw [Session.entries, List.mem_reverse] at hd
  by_cases hFunction :
      ∃ st, find? script d.path = some st ∧
        st.isFunction = true
  · rcases hFunction with ⟨st, hFind, hFunction⟩
    rcases function_spans hScript hOk hd hFind hFunction with
      ⟨_, _, _, _, hLinks⟩
    exact hLinks e t hLink
  · have hOther : ∀ id, d.spans script id = false := by
      intro id
      unfold Entry.spans
      split
      · rename_i hFind
        exact absurd ⟨_, hFind, rfl⟩ hFunction
      · rename_i hFind
        exact absurd ⟨_, hFind, rfl⟩ hFunction
      · rfl
    rw [hOther, hOther]

end FlowGraph.Script

------------------------------------------------------------
-- Confined Links
------------------------------------------------------------

namespace FlowGraph.Script

/-
  The entries that were written while the body of a loop was
  built, and the numbers between which its nodes are.
-/
structure LoopBody
    (z : Session)
    (path : Path)
    (during : List Entry)
    (loop stop : Nat) :
    Prop where
  written :
    ∃ before e after,
      z.entries = before ++ during ++ e :: after ∧
        e.path = path ∧ e.event = .finished (.node loop)
  inside : ∀ d ∈ during, path ++ [.loopBody] <+: d.path
  first :
    (during.head?.map fun d => d.graph.nextId) =
      some (loop + 1)
  last :
    (during.getLast?.map fun d => d.graph.nextId) = some stop

variable {name : String} {config : Config}
variable {script : List Stmt}

/- No place is written about twice. -/
theorem not_mem_of_entries
    {a : Session}
    {during after : List Entry}
    (hSplit :
      (run name config script).entries =
        a.entries ++ during ++ after)
    {d : Entry}
    (hd : d ∈ during) :
    d ∉ a.journal := by
  intro hOld
  have hNodup :
      ((run name config script).entries.map
        Entry.path).Nodup := by
    rw [Session.entries, List.map_reverse]
    exact (List.reverse_perm _).nodup_iff.mpr
      (nodup_journal name config script)
  rw [hSplit, List.map_append, List.map_append] at hNodup
  have hLeft := (List.nodup_append.mp hNodup).1
  exact (List.nodup_append.mp hLeft).2.2 d.path
    (List.mem_map_of_mem (List.mem_reverse.mpr hOld)) d.path
    (List.mem_map_of_mem hd) rfl

/- The body of a loop is confined, and so is its start. -/
theorem loop_confined
    (hScript : structured script = true)
    (hOk :
      ∀ e ∈ (run name config script).entries,
        e.event.isFailure = false)
    {path : Path}
    {st : Stmt}
    {body : List Stmt}
    (hFind : find? script path = some st)
    (hBody : st.body? .loopBody = some body) :
    ∃ during loop stop,
      LoopBody (run name config script) path during loop
          stop ∧
        (run name config script).graph.Confines loop stop ∧
          ∀ t,
            (run name config script).graph.execTarget
                ⟨loop, 0⟩ = some t →
              t < stop ∧
                ∀ d ∈ during, ∀ below,
                  d.path = path ++ [.loopBody] ++ below →
                    Segment.function ∉ below →
                      d.graph.nextId ≤ t →
                        d.frame.tail = [⟨loop, 0⟩] := by
  have hRuns : st.begins = false := by
    cases st with
    | action bind act => cases hBody
    | _ => rfl
  rcases located_of_ok hScript hOk hFind hRuns with
    ⟨s, s', hLocated⟩
  rcases hLocated.entry (nodup_journal name config script) with
    ⟨a, b, r, s₁, e, after, hUnfolds, hEnd, hEntry, hEntries,
      _⟩
  have hReady := hLocated.ran.ready
  have hOnward := hLocated.ran.onward
  have hKeeps := hLocated.lasts.keeps
  rw [hEnd] at hOnward hKeeps
  have hRan := hUnfolds.body hBody
  rcases hUnfolds.afterLoop hBody with
    ⟨_, n, _, hRepeats, hStart, hResult, hAfterLoop⟩
  rcases hRan.entries with
    ⟨during, last, hDuring, hInside, hFirst, hFinal, hLast⟩
  rcases hUnfolds.confines hReady hOnward.advance.grows hBody
      ⟨hKeeps.nodes, hKeeps.frozen, hKeeps.shared⟩ with
    ⟨hConfines, hLinked⟩
  have hSplit :
      (run name config script).entries =
        (a .loopBody).entries ++ during ++ e :: after := by
    rw [hEntries, ← hDuring, Session.entries, hAfterLoop,
      journal_afterLoop]
    rfl
  refine ⟨during, s.graph.nextId,
    (b .loopBody).graph.nextId,
    ⟨⟨(a .loopBody).entries, e, after, hSplit, ?_, ?_⟩,
      hInside, ?_, ?_⟩, hConfines, ?_⟩
  · rw [hEntry]
  · rw [hEntry, hResult]
  · rw [hFirst, hStart]
    rfl
  · rw [hFinal]
    exact congrArg (fun b : Builder => some b.graph.nextId)
      hLast
  · intro t hLink
    have hMade := hLinked t hLink
    have hWf := hRan.leads.ready.builder.wf
    refine ⟨hWf.exec_lt (hWf.target hMade), ?_⟩
    intro d hd below hPath hOwn hEarly
    have hTail :
        (a .loopBody).frame.tail = [⟨s.graph.nextId, 0⟩] := by
      rw [hStart]
      rfl
    rw [← hTail]
    by_cases hEarlier :
        d ∈ ((a .loopBody).record (path ++ [.loopBody])
          .entered).journal
    · rcases List.mem_cons.mp hEarlier with hEq | hOld
      · rw [hEq]
        rfl
      · exact absurd hOld (not_mem_of_entries hSplit hd)
    · refine BlockRan.tail_until hRan
        (e := ⟨s.graph.nextId, 0⟩) ?_ hMade ?_ hEarlier hPath
        hOwn hEarly
      · show _ ∈ (a .loopBody).frame.tail
        rw [hTail]
        exact List.mem_cons_self
      · rw [← List.mem_reverse, ← Session.entries, hDuring]
        exact List.mem_append_right _ hd

variable {path : Path} {st : Stmt}

/- The entry node of a function is not linked. -/
theorem not_link_entry
    (hScript : structured script = true)
    (hOk :
      ∀ e ∈ (run name config script).entries,
        e.event.isFailure = false)
    (hFind : find? script path = some st)
    (hFunction : st.isFunction = true)
    {e : Endpoint}
    {t : Nat}
    (hLink :
      (run name config script).graph.execTarget e = some t) :
    (run name config script).nodeAt path ≠ some t := by
  intro hNode
  rcases Session.mem_of_nodeAt hNode with
    ⟨d, hd, hPath, hEntry⟩
  rw [← hPath] at hFind
  rcases function_spans hScript hOk hd hFind hFunction with
    ⟨first, hFirst, hSelf, hLe, hLinks⟩
  rw [hEntry] at hFirst
  cases hFirst
  have hSource := hLinks e t hLink
  rw [hSelf] at hSource
  have hGe := hLe e.node hSource
  have hAscends :=
    (onward_run hScript hOk).1.ready.builder.wf.ascends hLink
  omega

/- What a later entry reaches, an earlier one does not. -/
theorem reaches_apart
    (hScript : structured script = true)
    (hOk :
      ∀ e ∈ (run name config script).entries,
        e.event.isFailure = false)
    (hFind : find? script path = some st)
    (hFunction : st.isFunction = true)
    {entry earlier id : Nat}
    (hNode :
      (run name config script).nodeAt path = some entry)
    (hLt : earlier < entry)
    (hReaches :
      (run name config script).graph.Reaches entry id) :
    ¬(run name config script).graph.Reaches earlier id := by
  intro hOther
  rcases Session.mem_of_nodeAt hNode with
    ⟨d, hd, hPath, hEntry⟩
  rw [← hPath] at hFind
  rcases function_spans hScript hOk hd hFind hFunction with
    ⟨first, hFirst, hSelf, hLe, hLinks⟩
  rw [hEntry] at hFirst
  cases hFirst
  have hOutside : d.spans script earlier = false := by
    refine Bool.eq_false_iff.mpr fun hIn => ?_
    have hGe := hLe earlier hIn
    omega
  have hThere : d.spans script id = true :=
    hReaches.closed (S := fun id => d.spans script id = true)
      (fun e t hLink hIn => hLinks e t hLink ▸ hIn) hSelf
  have hNotThere : d.spans script id = false :=
    hOther.closed (S := fun id => d.spans script id = false)
      (fun e t hLink hOut => hLinks e t hLink ▸ hOut) hOutside
  rw [hThere] at hNotThere
  cases hNotThere

/-
  In a structured script that is never refused, the nodes of
  the body of a loop are linked among themselves only, and
  are entered only from the first exec output of the loop,
  at the first node that is put into the flow.  A link joins
  nodes of one function and never leads to an entry, so the
  entries of two functions reach different nodes.
-/
theorem links_confined
    (name : String)
    (config : Config)
    (script : List Stmt)
    (hScript : structured script = true)
    (hOk :
      ∀ e ∈ (run name config script).entries,
        e.event.isFailure = false) :
    (∀ path st body,
      find? script path = some st →
        st.body? .loopBody = some body →
          ∃ during loop stop,
            LoopBody (run name config script) path during loop
                stop ∧
              (run name config script).graph.Confines loop
                stop ∧
              (∀ t,
                (run name config script).graph.execTarget
                    ⟨loop, 0⟩ = some t →
                  (∀ d ∈ during, ∀ below,
                    d.path = path ++ [.loopBody] ++ below →
                      Segment.function ∉ below →
                        d.graph.nextId ≤ t →
                          d.frame.tail = [⟨loop, 0⟩]) ∧
                    ∀ id,
                      (run name config script).graph.Reaches t
                          id →
                        loop < id ∧ id < stop) ∧
              ∀ t,
                (run name config script).graph.execTarget
                    ⟨loop, 1⟩ = some t →
                  ∀ id,
                    (run name config script).graph.Reaches t
                        id →
                      stop ≤ id) ∧
      (∀ e t,
        (run name config script).graph.execTarget e =
            some t →
          functionOf script (run name config script).entries
                e.node =
              functionOf script
                (run name config script).entries t ∧
            ∀ path st, find? script path = some st →
              st.isFunction = true →
                (run name config script).nodeAt path ≠
                  some t) ∧
      ∀ path path' st st' entry entry',
        find? script path = some st →
          st.isFunction = true →
            (run name config script).nodeAt path =
                some entry →
              find? script path' = some st' →
                st'.isFunction = true →
                  (run name config script).nodeAt path' =
                      some entry' →
                    entry ≠ entry' →
                      ∀ id,
                        (run name config script).graph.Reaches
                            entry id →
                          ¬(run name config script).graph.Reaches
                            entry' id := by
  have hWf := (onward_run hScript hOk).1.ready.builder.wf
  refine ⟨?_, ?_, ?_⟩
  · intro path st body hFind hBody
    rcases loop_confined hScript hOk hFind hBody with
      ⟨during, loop, stop, hLoop, hConfines, hStart⟩
    refine ⟨during, loop, stop, hLoop, hConfines, ?_, ?_⟩
    · intro t hLink
      rcases hStart t hLink with ⟨hLt, hFirst⟩
      exact ⟨hFirst, fun id hReaches =>
        hConfines.reaches_inside hWf hLink hLt hReaches⟩
    · intro t hLink id hReaches
      exact hConfines.reaches_outside hWf hLink hReaches
  · intro e t hLink
    refine ⟨?_, fun path st hFind hFunction =>
      not_link_entry hScript hOk hFind hFunction hLink⟩
    unfold functionOf
    rw [List.filter_congr fun d hd =>
      spans_of_link hScript hOk hd hLink]
  · intro path path' st st' entry entry' hFind hFunction hNode
      hFind' hFunction' hNode' hNe id hReaches hReaches'
    rcases Nat.lt_or_gt_of_ne hNe with hLt | hLt
    · exact reaches_apart hScript hOk hFind' hFunction' hNode'
        hLt hReaches' hReaches
    · exact reaches_apart hScript hOk hFind hFunction hNode
        hLt hReaches hReaches'

/- A loop in whose body another function is built. -/
def functionInLoop : List Stmt :=
  [.action .none (.beginFunction "start"),
    .forRange .none (.literal (.int 0)) (.literal (.int 3))
      [.function .none "helper"
          [.action .none (.print (.literal (.str "a")))],
        .action .none (.print (.literal (.str "b")))],
    .action .none (.print (.literal (.str "c")))]

/- The loop confines its body, and the functions are apart. -/
theorem function_in_loop_confined :
    structured functionInLoop = true ∧
      (∀ e ∈ (run "demo" .default functionInLoop).entries,
        e.event.isFailure = false) ∧
      (∃ during loop stop,
        LoopBody (run "demo" .default functionInLoop)
            [.statement 1] during loop stop ∧
          (run "demo" .default functionInLoop).graph.Confines
            loop stop) ∧
      ∀ id,
        (run "demo" .default functionInLoop).graph.Reaches 1
            id →
          ¬(run "demo" .default functionInLoop).graph.Reaches 3
            id := by
  have hScript : structured functionInLoop = true := by
    decide
  have hOk :
      ∀ e ∈ (run "demo" .default functionInLoop).entries,
        e.event.isFailure = false := by
    decide +kernel
  rcases links_confined "demo" .default functionInLoop hScript
      hOk with
    ⟨hLoops, _, hFunctions⟩
  rcases hLoops [.statement 1] _ _ rfl rfl with
    ⟨during, loop, stop, hLoop, hConfines, _⟩
  refine ⟨hScript, hOk,
    ⟨during, loop, stop, hLoop, hConfines⟩, ?_⟩
  exact hFunctions [.statement 0]
    [.statement 1, .loopBody, .statement 0] _ _ 1 3 rfl rfl
    (by decide +kernel) rfl rfl (by decide +kernel) (by decide)

end FlowGraph.Script
