import FlowGraph.Proofs.Persistence

/-
  Loops that are stopped.

  The frame lists the loops around the current place.  They
  are the loops of the same function in whose bodies the
  place lies, so a return stops all of these and a break
  stops none but these.

  Key definitions include:
    * `FlowGraph.Script.loopsAround`
    * `FlowGraph.Script.Entry.breaksSince`

  Key theorems include:
    * `FlowGraph.Script.inherited_loops`
    * `FlowGraph.Script.break_names_loops_around`
-/

------------------------------------------------------------
-- Loops Around A Place
------------------------------------------------------------

namespace FlowGraph.Script

/-
  The loops around the body to which a segment leads, if the
  statement is `here` and has loops around itself.
-/
def Segment.loops
    {α : Type}
    (segment : Segment)
    (here : α)
    (around : List α) :
    List α :=
  match segment with
  | .loopBody => here :: around
  | .function => []
  | _ => around

/- The loops around, given the segments from the inside out. -/
def loopsOutside : Path → List Path
  | [] => []
  | segment :: outer =>
      segment.loops outer.reverse (loopsOutside outer)

/-
  The places of the loops in whose bodies a place lies, from
  the inside out.  Loops around a function do not count
  inside of it.
-/
def loopsAround
    (path : Path) :
    List Path :=
  loopsOutside path.reverse

/- What a segment adds to the loops around a place. -/
theorem loopsAround_append
    (path : Path)
    (segment : Segment) :
    loopsAround (path ++ [segment]) =
      segment.loops path (loopsAround path) := by
  simp [loopsAround, loopsOutside]

theorem Segment.map_loops
    {α β : Type}
    (segment : Segment)
    (f : α → β)
    (here : α)
    (around : List α) :
    (segment.loops here around).map f =
      segment.loops (f here) (around.map f) := by
  cases segment <;> rfl

/- A loop in the body is the statement or was around it. -/
theorem Segment.mem_loops
    {α : Type}
    {segment : Segment}
    {here x : α}
    {around : List α}
    (h : x ∈ segment.loops here around) :
    x = here ∨ x ∈ around := by
  cases segment with
  | loopBody => exact List.mem_cons.mp h
  | function => cases h
  | _ => exact Or.inr h

theorem Segment.pairwise_loops
    {α : Type}
    {R : α → α → Prop}
    (segment : Segment)
    {here : α}
    {around : List α}
    (h : around.Pairwise R)
    (hHere : ∀ x ∈ around, R here x) :
    (segment.loops here around).Pairwise R := by
  cases segment with
  | loopBody => exact List.pairwise_cons.mpr ⟨hHere, h⟩
  | function => exact List.Pairwise.nil
  | _ => exact h

/- The number of the next node; the first one has number 1. -/
def nextNumber
    (last : Option Entry) :
    Nat :=
  (last.map fun e => e.graph.nextId).getD 1

/-
  The frame knows the loops around a place by the numbers of
  their nodes, and the last entry is up to date.
-/
structure Session.InLoops
    (z : Session)
    (path : Path)
    (s : Session) :
    Prop where
  loops :
    (loopsAround path).map z.nodeAt = s.frame.loops.map some
  ordered : s.frame.loops.Pairwise (· > ·)
  lt : ∀ id ∈ s.frame.loops, id < s.graph.nextId
  latest : nextNumber s.journal.head? = s.graph.nextId

variable {script : List Stmt} {path : Path} {st : Stmt}
variable {z s s₁ : Session} {a b : Segment → Session}
variable {r : Result}

/- The loops around at the start of a body. -/
theorem Unfolds.loops_body
    (h : Unfolds script path s a b st r s₁)
    {segment : Segment}
    {body : List Stmt}
    (hBody : st.body? segment = some body) :
    (a segment).frame.loops =
      segment.loops s.graph.nextId s.frame.loops := by
  cases h with
  | action hActs => cases hBody
  | function hStart hRan =>
      cases segment <;> cases hBody
      rw [hStart]
      rfl
  | conditional hDecides hFirst hThen hSecond hReady hElse =>
      have hCases := hDecides.segment hBody
      rcases hCases with hEq | hEq
      · rw [hEq, hFirst]
        rfl
      · have hKept := hThen.leads.builder.loops
        rw [hEq, hSecond]
        rw [hFirst] at hKept
        exact hKept
  | switch hEval hAssembled hArms hBodies =>
      rcases arm_of_body? path hBody with ⟨hSegment, hArm⟩
      have hLoops := (hArms.bodies _ _ hArm).loops
      rw [hSegment] at hLoops
      rw [hLoops, ← hSegment]
      cases armIndex segment <;> rfl
  | loop hRepeats hStart hRan =>
      have hCases := hRepeats.segment hBody
      rw [hCases, hStart]
      rfl

/- The loops around a place are known everywhere. -/
theorem inherited_loops
    (hNodup : (z.journal.map Entry.path).Nodup) :
    Inherited script z z.InLoops := by
  constructor
  · intro path i st s s' hRan h
    have hLeads := hRan.leads
    have hLoops : s'.frame.loops = s.frame.loops :=
      hLeads.builder.loops
    have hLe : s.graph.nextId ≤ s'.graph.nextId :=
      hLeads.nextId_le
    refine ⟨?_, hLoops ▸ h.ordered, ?_, ?_⟩
    · have hSame := h.loops
      rw [loopsAround_append] at hSame
      rw [hLoops, loopsAround_append]
      exact hSame
    · intro id hid
      rw [hLoops] at hid
      exact Nat.lt_of_lt_of_le (h.lt id hid) hLe
    · rcases hRan.unfolds with ⟨a, b, r, s₁, _, hEnd⟩
      rw [hEnd]
      rfl
  · intro path st s a b r s₁ segment body hRan hUnfolds
      hJournal hBody h
    have hLoops := hUnfolds.loops_body hBody
    rcases hUnfolds.start hBody with ⟨hResult, hLt, _⟩
    have hNode : z.nodeAt path = some s.graph.nextId := by
      have hMem := hJournal.subset List.mem_cons_self
      rw [Session.nodeAt_of_mem hNodup hMem, hResult]
      rfl
    refine ⟨?_, ?_, ?_, rfl⟩
    · rw [loopsAround_append, loopsAround_append]
      show (segment.loops path (loopsAround path)).map
        z.nodeAt = (a segment).frame.loops.map some
      rw [hLoops, Segment.map_loops, Segment.map_loops, hNode,
        h.loops]
    · show (a segment).frame.loops.Pairwise (· > ·)
      rw [hLoops]
      exact segment.pairwise_loops h.ordered h.lt
    · intro id hid
      show id < (a segment).graph.nextId
      rw [show ((a segment).record (path ++ [segment])
        .entered).frame.loops = _ from hLoops] at hid
      rcases Segment.mem_loops hid with hHere | hAround
      · rw [hHere]
        exact hLt
      · exact Nat.lt_trans (h.lt id hAround) hLt
  · intro i bind event s hReady h
    exact ⟨rfl, List.Pairwise.nil, nofun, rfl⟩

end FlowGraph.Script

------------------------------------------------------------
-- New Nodes
------------------------------------------------------------

namespace FlowGraph

/- The nodes of a graph from a number on. -/
def Graph.nodesFrom
    (g : Graph)
    (first : Nat) :
    List Node :=
  ((List.range' first (g.nextId - first)).map
    g.nodes.get?).filterMap id

/- Whether a node stops loops. -/
def Node.isBreak
    (n : Node) :
    Bool :=
  n.nodeType = "break_loop"

variable {g : Graph} {n : Node} {tail : List Endpoint}

@[simp] theorem Graph.nodesFrom_self :
    g.nodesFrom g.nextId = [] := by
  simp [nodesFrom]

/- A node that is attached is the last one. -/
theorem Graph.nodesFrom_attach
    {first : Nat}
    (h : first ≤ g.nextId) :
    (g.attach n tail).nodesFrom first =
      g.nodesFrom first ++ [n] := by
  have hOld :
      (List.range' first (g.nextId - first)).map
          (g.attach n tail).nodes.get? =
        (List.range' first (g.nextId - first)).map
          g.nodes.get? := by
    apply List.map_congr_left
    intro id hid
    rw [List.mem_range'_1] at hid
    exact get?_attach_of_ne (by omega)
  unfold nodesFrom
  rw [attach_nextId, Nat.succ_sub h, List.range'_1_concat,
    List.map_append, hOld, List.filterMap_append]
  simp [Nat.add_sub_cancel' h]

namespace Builder

variable {b : Builder}

/- What comes with the gate: its declaration, if any. -/
theorem nodesFrom_gated :
    b.graph.nextId ≤ b.gated.graph.nextId ∧
      b.gated.graph.nodesFrom b.graph.nextId =
        if b.frame.gate = none then
          [variableNode (.bool false)]
        else
          [] := by
  unfold gated
  cases hGate : b.frame.gate with
  | some v => exact ⟨Nat.le_refl _, Graph.nodesFrom_self⟩
  | none =>
      refine ⟨Nat.le_succ _, ?_⟩
      show (b.graph.attach (variableNode (.bool false))
        []).nodesFrom b.graph.nextId = _
      rw [Graph.nodesFrom_attach (Nat.le_refl _),
        Graph.nodesFrom_self]
      rfl

/- What comes with a return. -/
theorem nodesFrom_returned :
    b.returned.graph.nodesFrom b.graph.nextId =
      b.gated.graph.nodesFrom b.graph.nextId ++
        raiseNode b.gateOf ::
          if b.frame.loops = [] then []
          else [breakNode b.frame.loops] := by
  have hLe := (nodesFrom_gated (b := b)).1
  have hLoops : b.raised.frame.loops = b.frame.loops :=
    gated_loops
  have hRaised :
      b.raised.graph.nodesFrom b.graph.nextId =
        b.gated.graph.nodesFrom b.graph.nextId ++
          [raiseNode b.gateOf] :=
    Graph.nodesFrom_attach hLe
  show b.raised.stopped.graph.nodesFrom b.graph.nextId = _
  unfold stopped Frame.inLoop
  rw [hLoops]
  cases hEmpty : b.frame.loops with
  | nil => exact hRaised
  | cons inner outer =>
      show (b.raised.graph.attach (breakNode (inner :: outer))
        b.raised.frame.tail).nodesFrom b.graph.nextId = _
      rw [Graph.nodesFrom_attach (Nat.le_succ_of_le hLe),
        hRaised, List.append_assoc]
      rfl

/- Of the nodes of a return, one stops the loops around. -/
theorem breaks_returned :
    (b.returned.graph.nodesFrom b.graph.nextId).filter
        Node.isBreak =
      if b.frame.loops = [] then []
      else [breakNode b.frame.loops] := by
  rw [nodesFrom_returned, nodesFrom_gated.2,
    List.filter_append]
  cases b.frame.gate <;> cases b.frame.loops <;> rfl

/- The loops that a break stops are around it. -/
theorem mem_of_breakTargets
    {f : Frame}
    {loops targets : List Nat}
    (h : breakTargets f loops = .ok targets) :
    (∀ id ∈ targets, id ∈ f.loops) ∧
      (loops = [] →
        ∃ inner outer,
          f.loops = inner :: outer ∧ targets = [inner]) := by
  unfold breakTargets at h
  split at h
  · split at h
    · cases h
    · rename_i inner outer hLoops
      cases h
      exact ⟨by simp [hLoops],
        fun _ => ⟨inner, outer, hLoops, rfl⟩⟩
  · rename_i hSome
    split at h
    · cases h
    · rename_i hFound
      cases h
      refine ⟨?_, fun hNone => absurd (by rw [hNone]; rfl) hSome⟩
      intro id hid
      have hInside := List.find?_eq_none.mp hFound id hid
      simpa [Frame.isInside] using hInside

end Builder

namespace Script.Action.Acts

variable {names : Names} {r : Result} {b b' : Builder}

/- A return stops all of the loops around it. -/
theorem breaks_of_return
    (h : Action.returnNow.Acts names b r b') :
    (b'.graph.nodesFrom b.graph.nextId).filter Node.isBreak =
      if b.frame.loops = [] then []
      else [Builder.breakNode b.frame.loops] := by
  cases h with
  | returns => exact Builder.breaks_returned
  | rests hData => cases hData
  | adds hData => cases hData
  | places hCall hExec hShows => cases hCall

/- A break stops some of them, by default the innermost. -/
theorem breaks_of_break
    {refs : List NodeRef}
    (h : (Action.breakLoop refs).Acts names b r b') :
    ∃ targets,
      (b'.graph.nodesFrom b.graph.nextId).filter
            Node.isBreak =
          [Builder.breakNode targets] ∧
        (∀ id ∈ targets, id ∈ b.frame.loops) ∧
        (refs = [] →
          ∃ inner outer,
            b.frame.loops = inner :: outer ∧
              targets = [inner]) := by
  cases h with
  | @breaks _ _ targets hLoops hTargets =>
      rcases Builder.mem_of_breakTargets hTargets with
        ⟨hInside, hInner⟩
      refine ⟨targets, ?_, hInside, ?_⟩
      · show ((b.graph.attach (Builder.breakNode targets)
          b.frame.tail).nodesFrom
            b.graph.nextId).filter Node.isBreak = _
        rw [Graph.nodesFrom_attach (Nat.le_refl _),
          Graph.nodesFrom_self]
        rfl
      · intro hNone
        rw [hNone] at hLoops
        cases hLoops
        exact hInner rfl
  | rests hData => cases hData
  | adds hData => cases hData
  | places hCall hExec hShows => cases hCall

end Script.Action.Acts

end FlowGraph

------------------------------------------------------------
-- Breaks And Returns
------------------------------------------------------------

namespace FlowGraph.Script

/- The nodes that stop loops, new since the entries before. -/
def Entry.breaksSince
    (e : Entry)
    (before : List Entry) :
    List Node :=
  (e.graph.nodesFrom (nextNumber before.getLast?)).filter
    Node.isBreak

/-
  The loops around a return or a break are known by their
  nodes, from the inside out, the inner ones being newer.  A
  return makes one node that stops them all, or none if there
  are no loops.  A break makes one node, which stops some of
  them and by default the innermost.
-/
theorem break_names_loops_around
    (name : String)
    (config : Config)
    (script : List Stmt)
    (hScript : structured script = true)
    (hOk :
      ∀ e ∈ (run name config script).entries,
        e.event.isFailure = false)
    (path : Path)
    (bind : Binding)
    (act : Action)
    (refs : List NodeRef)
    (hAct : act = .returnNow ∨ act = .breakLoop refs)
    (hFind : find? script path = some (.action bind act)) :
    ∃ before e after loops,
      (run name config script).entries =
          before ++ e :: after ∧
        e.path = path ∧
        (loopsAround path).map (run name config script).nodeAt =
          loops.map some ∧
        loops.Pairwise (· > ·) ∧
        (act = .returnNow →
          e.breaksSince before =
            if loops = [] then []
            else [Builder.breakNode loops]) ∧
        (act = .breakLoop refs →
          ∃ targets,
            e.breaksSince before =
                [Builder.breakNode targets] ∧
              (∀ id ∈ targets, id ∈ loops) ∧
              (refs = [] →
                ∃ inner outer,
                  loops = inner :: outer ∧
                    targets = [inner])) := by
  have hNodup := nodup_journal name config script
  have hRuns : (Stmt.action bind act).begins = false := by
    rcases hAct with hEq | hEq
    · rw [hEq]
      rfl
    · rw [hEq]
      rfl
  rcases located hScript
      (fun e he => hOk e (List.mem_reverse.mpr he))
      (inherited_loops hNodup)
      ⟨rfl, List.Pairwise.nil, nofun, rfl⟩ hFind hRuns with
    ⟨s, s', hLocated⟩
  rcases hLocated.entry hNodup with
    ⟨a, b, r, s₁, e, after, hUnfolds, _, hEntry, hEntries, _⟩
  have hInLoops := hLocated.inherits
  cases hUnfolds with
  | @action _ _ _ done hActs =>
    have hSince :
        e.breaksSince (s.withBuilder done).entries =
          (done.graph.nodesFrom s.graph.nextId).filter
            Node.isBreak := by
      rw [Entry.breaksSince, Session.entries,
        List.getLast?_reverse, Session.withBuilder_journal,
        hInLoops.latest, hEntry]
      rfl
    refine ⟨_, e, after, s.frame.loops, hEntries,
      by rw [hEntry], hInLoops.loops, hInLoops.ordered, ?_, ?_⟩
    · intro hReturn
      rw [hReturn] at hActs
      rw [hSince]
      exact hActs.breaks_of_return
    · intro hBreak
      rw [hBreak] at hActs
      rw [hSince]
      exact hActs.breaks_of_break
  | conditional hDecides => cases hDecides
  | loop hRepeats => cases hRepeats

/- Two loops, and a return in a branch of the inner one. -/
def nestedReturn : List Stmt :=
  [.action .none (.beginFunction "start"),
    .forRange .none (.literal (.int 0)) (.literal (.int 3))
      [.forRange .none (.literal (.int 0)) (.literal (.int 3))
        [.ifThen .none (.value (.bool true))
          [.action .none .returnNow]]]]

/- The return stops the inner loop, then the outer one. -/
theorem return_stops_nested_loops :
    structured nestedReturn = true ∧
      (∀ e ∈ (run "demo" .default nestedReturn).entries,
        e.event.isFailure = false) ∧
      ∃ before e after,
        (run "demo" .default nestedReturn).entries =
            before ++ e :: after ∧
          e.path =
            [.statement 1, .loopBody, .statement 0, .loopBody,
              .statement 0, .thenBody, .statement 0] ∧
          e.breaksSince before =
            [Builder.breakNode [3, 2]] := by
  have hScript : structured nestedReturn = true := by
    decide
  have hOk :
      ∀ e ∈ (run "demo" .default nestedReturn).entries,
        e.event.isFailure = false := by
    decide +kernel
  have hNodes :
      (loopsAround
          [.statement 1, .loopBody, .statement 0, .loopBody,
            .statement 0, .thenBody, .statement 0]).map
          (run "demo" .default nestedReturn).nodeAt =
        [some 3, some 2] := by
    decide +kernel
  rcases break_names_loops_around "demo" .default nestedReturn
      hScript hOk _ .none .returnNow [] (Or.inl rfl)
      (show find? nestedReturn
        [.statement 1, .loopBody, .statement 0, .loopBody,
          .statement 0, .thenBody, .statement 0] = _
        from rfl) with
    ⟨before, e, after, loops, hEntries, hPath, hLoops, _,
      hReturn, _⟩
  have hEq : loops = [3, 2] := by
    rw [hNodes] at hLoops
    exact (List.map_inj_right fun _ _ => Option.some.inj).mp
      hLoops.symm
  rw [hEq] at hReturn
  exact ⟨hScript, hOk, before, e, after, hEntries, hPath,
    hReturn rfl⟩

end FlowGraph.Script
