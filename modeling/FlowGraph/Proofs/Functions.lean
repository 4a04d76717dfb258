import FlowGraph.Proofs.Confinement
import FlowGraph.Proofs.Numbering
import FlowGraph.Proofs.Preservation

/-
  Running a function does what its body means.

  The machine starts at the entry of a function of the graph
  that a script has built.  It stops after finitely many
  steps, and the nodes it has entered are those of the
  statements that the body visits, in the same order.

  Key definitions include:
    * `FlowGraph.Script.functionBody?`
    * `FlowGraph.Script.Session.gateOf`
    * `FlowGraph.Script.Session.machine`

  Key theorems include:
    * `FlowGraph.Script.FunctionBody.Built.reaches_end`
    * `FlowGraph.Script.function_runs_as_meant`
-/

------------------------------------------------------------
-- Functions Of A Script
------------------------------------------------------------

namespace FlowGraph.Script

/-
  The body of a function: the place of the block, the number
  of its first statement, and the statements.
-/
structure FunctionBody where
  place : Path
  first : Nat
  block : List Stmt

/-
  The body of the function at a place.  A function that
  begins at the top goes on until the next one begins.
-/
def functionBody?
    (script : List Stmt)
    (path : Path) :
    Option FunctionBody :=
  match find? script path, path with
  | some (.function _ _ body), _ =>
      some ⟨path ++ [.function], 0, body⟩
  | some (.action _ (.beginFunction _)), [.statement i] =>
      some ⟨[], i + 1,
        (script.drop (i + 1)).takeWhile fun st => !st.begins⟩
  | _, _ => none

/-
  The meaning of the body of a function is known: all of its
  statements are plain, and its breaks leave the innermost
  loops.
-/
def FunctionBody.Plain
    (z : Session)
    (f : FunctionBody) :
    Prop :=
  PlainBlock z.graph z.nodeAt f.place f.first f.block

/- What the body of a function means. -/
def FunctionBody.meaning
    (f : FunctionBody)
    (answer : Nat → Nat) :
    Meaning :=
  blockMeaning answer f.place f.first f.block

/- The gate as the entry about a place shows it. -/
def Session.gateAt
    (s : Session)
    (path : Path) :
    Option Variable :=
  (s.journal.find? fun e => e.path = path).bind
    fun e => e.frame.gate

/-
  The gate of a function, as the entry about the last
  statement of the body shows it.
-/
def Session.gateOf
    (s : Session)
    (f : FunctionBody) :
    Option Variable :=
  match f.block with
  | [] => none
  | _ :: rest =>
      s.gateAt
        (f.place ++ [.statement (f.first + rest.length)])

/- The machine that runs a function of a script. -/
def Session.machine
    (s : Session)
    (f : FunctionBody)
    (answer : Nat → Nat) :
    Machine :=
  ⟨s.graph, s.gateOf f, answer⟩

end FlowGraph.Script

------------------------------------------------------------
-- Complete Functions
------------------------------------------------------------

namespace FlowGraph.Script

open Machine

/-
  The body of a function has run from `a` to `b`, and nothing
  was added to it until the end of the script.
-/
structure Session.Completed
    (a b z : Session) :
    Prop where
  nodes :
    ∀ {id n}, b.graph.nodes.get? id = some n →
      z.graph.nodes.get? id = some n
  frozen : a.Frozen b z.graph
  ended : ∀ e ∈ b.frame.tail, z.graph.execTarget e = none
  journal : b.journal <:+ z.journal

variable {H : Nat → Prop} {script block : List Stmt}
variable {place : Path} {first : Nat} {a b z : Session}

/- A complete function is settled for its machine. -/
theorem Session.Completed.settled
    (h : a.Completed b z)
    (hNodup : (z.journal.map Entry.path).Nodup)
    (hSane : b.Sane H)
    (answer : Nat → Nat) :
    Session.Settled ⟨z.graph, b.frame.gate, answer⟩ z.nodeAt
      a b := by
  refine ⟨⟨h.nodes, fun _ hv => hv, fun _ hv => Or.inl hv,
    ?_, ?_⟩, h.frozen, none, h.ended⟩
  · intro v hv
    exact (hSane.builder.gate v hv).mono
      fun _ _ hNode => h.nodes hNode
  · intro e he id hNode
    rw [Session.nodeAt_of_mem hNodup (h.journal.subset he)]
    exact hNode

/- The entry about the last statement shows the builder. -/
theorem BlockRan.last_entry
    {st : Stmt}
    {rest : List Stmt}
    (h : BlockRan script place first (st :: rest) a b) :
    ∃ e ∈ b.journal,
      e.path =
          place ++ [.statement (first + rest.length)] ∧
        e.builder = b.builder := by
  induction rest generalizing st first a with
  | nil =>
      rcases h.cons with ⟨s₁, hStmt, hRest⟩
      rcases hStmt.unfolds with ⟨_, _, r, s₂, _, hEnd⟩
      rw [hRest.nil, hEnd]
      exact ⟨_, List.mem_cons_self, rfl, rfl⟩
  | cons next rest ih =>
      rcases h.cons with ⟨s₁, _, hRest⟩
      have hLast := ih hRest
      rw [show first + 1 + rest.length =
        first + (next :: rest).length by
          rw [List.length_cons]; omega] at hLast
      exact hLast

/- The gate of a function is that at the end of its body. -/
theorem BlockRan.gateOf_eq
    (h : BlockRan script place first block a b)
    (hNone : a.frame.gate = none)
    (hJournal : b.journal <:+ z.journal)
    (hNodup : (z.journal.map Entry.path).Nodup) :
    z.gateOf ⟨place, first, block⟩ = b.frame.gate := by
  cases block with
  | nil =>
      rw [h.nil, hNone]
      rfl
  | cons st rest =>
      rcases h.last_entry with ⟨e, he, hPath, hBuilder⟩
      have hGate :
          z.gateOf ⟨place, first, st :: rest⟩ =
            z.gateAt
              (place ++ [.statement (first + rest.length)]) :=
        rfl
      rw [hGate, Session.gateAt, ← hPath,
        find?_path_of_mem hNodup (hJournal.subset he)]
      exact congrArg (fun b => b.frame.gate) hBuilder

/-
  A function of a graph: an entry, and a body that starts
  there and is complete.
-/
structure FunctionBody.Built
    (f : FunctionBody)
    (script : List Stmt)
    (entry : Nat)
    (a b z : Session) :
    Prop where
  ran : BlockRan script f.place f.first f.block a b
  operands : everyIn Stmt.closed f.block = true
  sane : ∃ H, a.Sane H
  frame : a.frame = .rootedAt ⟨entry, 0⟩
  entry_lt : entry < a.graph.nextId
  node :
    ∃ event,
      z.graph.nodes.get? entry = some (entryNode event)
  completed : a.Completed b z

/- A function that was built is settled for its machine. -/
theorem FunctionBody.Built.settled
    {f : FunctionBody}
    {entry : Nat}
    (h : f.Built script entry a b z)
    (hNodup : (z.journal.map Entry.path).Nodup)
    (answer : Nat → Nat) :
    Session.Settled (z.machine f answer) z.nodeAt a b := by
  rcases h.sane with ⟨H, hSane⟩
  have hGate :
      z.gateOf f = b.frame.gate :=
    h.ran.gateOf_eq (by rw [h.frame]; rfl) h.completed.journal
      hNodup
  rw [Session.machine, hGate]
  exact h.completed.settled hNodup
    (h.ran.sane h.operands hSane) answer

/-
  The machine runs from the entry of a function to the end,
  and does what the body means.
-/
theorem FunctionBody.Built.reaches_end
    {f : FunctionBody}
    {entry : Nat}
    (h : f.Built script entry a b z)
    (hPlain : f.Plain z)
    (hPlace : loopsAround f.place = [])
    (hNodup : (z.journal.map Entry.path).Nodup)
    (answer : Nat → Nat) :
    ∃ m,
      (z.machine f answer).Reaches (.start (some entry)) m ∧
        m.next = none ∧ m.stack = [] ∧
          m.asked = (f.meaning answer 0).asked ∧
          m.trace.map some =
            some entry ::
              (f.meaning answer 0).trace.map z.nodeAt ∧
          (f.meaning answer 0).ending =
            if m.raised then .returned else .done := by
  rcases h.sane with ⟨H, hSane⟩
  rcases h.node with ⟨event, hEntry⟩
  have hSettled := h.settled hNodup answer
  have hReach :=
    reaches_enter (M := z.machine f answer)
      (m := .start (some entry)) rfl hEntry
  have hEnter :
      (z.machine f answer).enter (.start (some entry)) entry
          (entryNode event) =
        ((State.start (some entry)).visit entry).goto
          ((z.machine f answer).follow entry 0) := rfl
  rw [hEnter] at hReach
  have hPoised :
      a.Poised (z.machine f answer)
        (((State.start (some entry)).visit entry).goto
          ((z.machine f answer).follow entry 0)) := by
    refine ⟨⟨⟨entry, 0⟩, ?_, rfl⟩, ?_, rfl⟩
    · rw [h.frame]
      exact List.mem_singleton_self _
    · rw [h.frame]
      rfl
  have hLoops :
      (loopsAround f.place).map z.nodeAt =
        a.frame.loops.map some := by
    rw [hPlace, h.frame]
    rfl
  rcases (executes_ran script (z.machine f answer)
      z.nodeAt).2 _ _ _ _ _ h.ran hPlain hLoops h.operands H
      hSane hSettled _ hPoised with
    ⟨m, hReach', hAsked, hTrace, hLands⟩
  refine ⟨m, hReach.trans hReach', ?_⟩
  change m.asked = (f.meaning answer 0).asked at hAsked
  change m.trace.map some =
    some entry :: (f.meaning answer 0).trace.map z.nodeAt
      at hTrace
  change Lands _ a b _ m (f.meaning answer 0).ending at hLands
  -- Outside of loops there is nothing to break or continue.
  cases hEnding : (f.meaning answer 0).ending with
  | done =>
      rw [hEnding] at hLands
      rcases hLands with ⟨⟨e, he, hNext⟩, hStack, hDown⟩
      refine ⟨hNext.trans (h.completed.ended e he), hStack,
        hAsked, hTrace, ?_⟩
      rw [hDown]
      rfl
  | continued =>
      rw [hEnding] at hLands
      exact absurd rfl hLands.2.2.2
  | broken =>
      rw [hEnding] at hLands
      exact absurd rfl hLands.2.2.2
  | returned =>
      rw [hEnding] at hLands
      rcases hLands with ⟨hNext, hStack, hRaised, _⟩
      refine ⟨hNext, hStack, hAsked, hTrace, ?_⟩
      rw [hRaised]
      rfl

/- The gate is declared in the function, and is down there. -/
theorem FunctionBody.Built.gate
    {f : FunctionBody}
    {entry : Nat}
    (h : f.Built script entry a b z)
    (hNodup : (z.journal.map Entry.path).Nodup)
    {v : Variable}
    (hv : z.gateOf f = some v) :
    entry < v.node ∧ v.IsGate z.graph := by
  rcases h.sane with ⟨H, hSane⟩
  have hNone : a.frame.gate = none := by
    rw [h.frame]
    rfl
  rw [h.ran.gateOf_eq hNone h.completed.journal hNodup] at hv
  have hEnd := h.ran.sane h.operands hSane
  refine ⟨?_, (hEnd.builder.gate v hv).mono
    fun _ _ hNode => h.completed.nodes hNode⟩
  rcases h.ran.leads.later.gateNew v hv with hOld | hNew
  · rw [hNone] at hOld
    cases hOld
  · exact Nat.lt_of_lt_of_le h.entry_lt hNew

end FlowGraph.Script

------------------------------------------------------------
-- Functions With A Body
------------------------------------------------------------

namespace FlowGraph.Script

variable {H : Nat → Prop} {script block : List Stmt}
variable {path : Path} {bind : Binding} {event : String}
variable {s s' z : Session}

/- A function that begins at the top finds usable names. -/
theorem Session.Sane.begins
    (h : s.Sane H)
    (event : String)
    (path : Path)
    (bind : Binding) :
    ((s.opened event).finish path bind
      (.node s.graph.nextId)).Sane H := by
  have hStmt :
      ((Stmt.action bind (.beginFunction event)).begins ||
        (Stmt.action bind (.beginFunction event)).every
          Stmt.structured) = true := rfl
  exact (meets_begin.mp (h.meets_runStmt hStmt rfl path)).1

/- All statements of a closed script find usable names. -/
theorem inherited_sane
    (hClosed : closed script = true)
    (z : Session) :
    Inherited script z fun _ s => ∃ H, s.Sane H := by
  refine ⟨?_, ?_, ?_⟩
  · rintro path i st s s' hRan ⟨H, hSane⟩
    exact ⟨H, hRan.sane
      (every_of_find? hClosed hRan.place.self) hSane⟩
  · rintro path st s a b r s₁ segment body hRan hUnfolds _
      hBody ⟨H, hSane⟩
    have hOperands := every_of_find? hClosed hRan.place.self
    have hStart : ∃ H, (a segment).Sane H := by
      by_cases hSame : segment = .function
      · rw [hSame] at hBody ⊢
        cases hUnfolds with
        | function hStart hInner =>
            rw [hStart]
            exact ⟨_, hSane.opened _⟩
        | conditional hDecides =>
            cases hDecides <;> cases hBody
        | loop hRepeats => cases hRepeats <;> cases hBody
        | _ => cases hBody
      · exact ⟨H, hUnfolds.sane hRan.ready hOperands hSane
          hBody hSame⟩
    rcases hStart with ⟨H', hStart⟩
    exact ⟨H', (Session.follows_record hStart _ _).sane⟩
  · rintro i bind event s hReady ⟨H, hSane⟩
    exact ⟨H, hSane.begins event _ bind⟩

/- A function with a body is built where its statement is. -/
theorem Located.built
    (h :
      Located script z (fun _ s => ∃ H, s.Sane H) path
        (.function bind event block) s s')
    (hClosed : closed script = true)
    (hNodup : (z.journal.map Entry.path).Nodup) :
    ∃ entry a b,
      z.nodeAt path = some entry ∧
        FunctionBody.Built ⟨path ++ [.function], 0, block⟩
          script entry a b z := by
  have hReady := h.ran.ready
  have hOperands :=
    (Stmt.every_iff _).mp
      (every_of_find? hClosed h.ran.place.self)
  rcases h.inherits with ⟨H, hSane⟩
  rcases h.ran.unfolds with ⟨a, b, r, s₁, hUnfolds, hEnd⟩
  have hLasts := h.lasts
  rw [hEnd] at hLasts
  have hBodyOf :
      (Stmt.function bind event block).body? .function =
        some block := rfl
  have hEncloses :=
    (hUnfolds.encloses hReady hBodyOf).finish path bind r
  cases hUnfolds with
  | function hStart hBody =>
      have hInner := hLasts.body hEncloses
      have hLeads := hBody.leads
      refine ⟨s.graph.nextId,
        (a .function).record (path ++ [Segment.function])
          .entered,
        b .function, ?_, hBody, ?_, ?_, ?_, ?_, ?_, ?_⟩
      · exact Session.nodeAt_of_mem hNodup
          (hLasts.journal.subset List.mem_cons_self)
      · exact hOperands.2 block (Stmt.mem_bodies hBodyOf)
      · rw [hStart]
        exact ⟨_, (Session.follows_record
          (hSane.opened event) _ _).sane⟩
      · rw [hStart]
        rfl
      · rw [hStart]
        exact Nat.lt_succ_self _
      · have hEntry :
            (a .function).graph.nodes.get? s.graph.nextId =
              some (entryNode event) := by
          rw [hStart]
          exact Graph.get?_attach_self
        exact ⟨event, hInner.keeps.nodes
          (hLeads.builder.advance.grows.nodes hEntry)⟩
      · refine ⟨hInner.keeps.nodes, hInner.keeps.frozen, ?_,
          hInner.journal⟩
        -- What the body leaves open is not open around it.
        intro e he
        have hMem := hLeads.mem_tail he
        have hNew : s.graph.nextId ≤ e.node := by
          rcases hMem.1 with hNew | hOpen
          · exact Nat.le_trans hEncloses.before hNew
          · exact hEncloses.start e hOpen
        rw [hLasts.keeps.frozen.inside hEncloses hMem.1
          hMem.2 ?_]
        · exact (hLeads.ready.builder.cursor.isOpen e he).2
        · intro hOuter
          have hOld : e.node < s.graph.nextId :=
            hReady.builder.tail_lt hOuter
          omega
  | conditional hDecides => cases hDecides
  | loop hRepeats => cases hRepeats

end FlowGraph.Script

------------------------------------------------------------
-- Functions At The Top
------------------------------------------------------------

namespace FlowGraph.Script

variable {script block rest : List Stmt} {path : Path}
variable {i : Nat} {s z : Session}

/- The later ones of some statements are at their places. -/
theorem Holds.append
    (h : Holds script path i (block ++ rest)) :
    Holds script path (i + block.length) rest := by
  induction block generalizing i with
  | nil => exact h
  | cons st others ih =>
      have hRest := ih h.tail
      rw [show i + 1 + others.length =
        i + (st :: others).length by
          rw [List.length_cons]; omega] at hRest
      exact hRest

/- Statements that are not refused are run as a block. -/
theorem runBlock_of_ok
    (hOk :
      ∀ e ∈ (runFrom i block s).journal,
        e.event.isFailure = false) :
    runBlock [] i block s = (.ok (), runFrom i block s) := by
  induction block generalizing i s with
  | nil =>
      rw [runBlock, runFrom]
      rfl
  | cons st others ih =>
      rw [runFrom] at hOk ⊢
      rcases hRan : runStmt [.statement i] st s with
        ⟨err | _, s'⟩
      · rw [hRan] at hOk
        rcases failed_mem_runFrom hRan others with
          ⟨d, hd, hFailed⟩
        have hNot := hOk d hd
        rw [hFailed] at hNot
        cases hNot
      · rw [hRan] at hOk
        rw [runBlock, Process.bind_eq_ok_iff]
        exact ⟨(), s', hRan, ih hOk⟩

/- A part of a script that is not refused goes on. -/
theorem onward_runFrom
    (hBlock : structured block = true)
    (hPlace : Holds script [] i block)
    (hReady : s.Ready)
    (hOk :
      ∀ e ∈ (runFrom i block s).journal,
        e.event.isFailure = false) :
    s.Onward (runFrom i block s) :=
  (runFrom_top (z := s) (I := fun _ _ => True) hBlock hPlace
    hReady hOk
    ⟨fun _ _ => trivial, fun _ _ _ _ _ => trivial,
      fun _ _ => trivial⟩ trivial).1

/- A function begins without a refusal. -/
theorem runStmt_begin
    (path : Path)
    (bind : Binding)
    (event : String)
    (s : Session) :
    runStmt path (.action bind (.beginFunction event)) s =
      (.ok (), (s.opened event).finish path bind
        (.node s.graph.nextId)) := by
  have hBegin :
      (runStmt path
          (.action bind (.beginFunction event))).Meets s
        (fun _ s' =>
          s' = (s.opened event).finish path bind
            (.node s.graph.nextId))
        (fun _ _ => False) :=
    meets_begin.mpr rfl
  rcases hRan :
      runStmt path (.action bind (.beginFunction event)) s
    with ⟨err | _, s'⟩
  · exact (hBegin.of_error hRan).elim
  · rw [hBegin.of_ok hRan]

/- Where a function ends at the top, nothing is linked on. -/
theorem ended_runFrom
    (hRest : structured rest = true)
    (hPlace : Holds script [] i rest)
    (hReady : s.Ready)
    (hOk :
      ∀ e ∈ (runFrom i rest s).journal,
        e.event.isFailure = false)
    (hNext : ∀ st, rest.head? = some st → st.begins = true)
    {e : Endpoint}
    (he : e ∈ s.frame.tail) :
    (runFrom i rest s).graph.execTarget e = none := by
  have hOpen : s.graph.execTarget e = none :=
    (hReady.builder.cursor.isOpen e he).2
  have hLt : e.node < s.graph.nextId :=
    hReady.builder.tail_lt he
  cases rest with
  | nil => exact hOpen
  | cons st others =>
      have hBegins := hNext st rfl
      have hOthers := (Bool.and_eq_true_iff.mp hRest).2
      have hOnward :=
        onward_runFrom hRest hPlace hReady hOk
      unfold Stmt.begins at hBegins
      split at hBegins
      · rename_i bind event
        rw [runFrom, runStmt_begin] at hOk hOnward ⊢
        have hAfter :=
          onward_runFrom hOthers hPlace.tail
            (Session.Onward.opened hReady event _ bind).ready
            hOk
        -- A link would lead to an older node and be older.
        cases hLink : (runFrom (i + 1) others _).graph.execTarget
            e with
        | none => rfl
        | some t =>
            have hSide := begin_confined hReady hAfter hLink
            have hOld := hOnward.old_link hLink (by omega)
            rw [hOpen] at hOld
            cases hOld
      · cases hBegins

/- Parts of a structured script are structured. -/
theorem structured_append :
    structured (block ++ rest) = true ↔
      structured block = true ∧ structured rest = true := by
  rw [structured, List.all_append, Bool.and_eq_true_iff]
  rfl

/- Statements that begin no function make up a block. -/
theorem structured_block
    (hBlock : structured block = true)
    (hRuns : ∀ st ∈ block, st.begins = false) :
    everyIn Stmt.structured block = true := by
  rw [everyIn_iff]
  intro st hst
  have hStmt := List.all_eq_true.mp hBlock st hst
  rw [hRuns st hst, Bool.false_or] at hStmt
  exact hStmt

/-
  A function that begins at the top is built there.  It goes
  on until the next function begins.
-/
theorem begin_built
    {script' : List Stmt}
    {H : Nat → Prop}
    (hReady : s.Ready)
    (hSane : s.Sane H)
    (event : String)
    (bind : Binding)
    (hBlock : everyIn Stmt.structured block = true)
    (hClosed : everyIn Stmt.closed block = true)
    (hRest : structured rest = true)
    (hNext : ∀ st, rest.head? = some st → st.begins = true)
    (hPlace : Holds script' [] (i + 1) block)
    (hAfter :
      Holds script [] (i + 1 + block.length) rest)
    (hEnd :
      z =
        runFrom (i + 1) (block ++ rest)
          ((s.opened event).finish [.statement i] bind
            (.node s.graph.nextId)))
    (hOk : ∀ e ∈ z.journal, e.event.isFailure = false)
    (hNodup : (z.journal.map Entry.path).Nodup) :
    ∃ entry a b,
      z.nodeAt [.statement i] = some entry ∧
        FunctionBody.Built ⟨[], i + 1, block⟩ script' entry a
          b z := by
  have hOpened :=
    Session.Onward.opened hReady event [.statement i] bind
  have hStart := hSane.begins event [.statement i] bind
  have hEntry :
      ((s.opened event).finish [.statement i] bind
          (.node s.graph.nextId)).graph.nodes.get?
            s.graph.nextId = some (entryNode event) :=
    Graph.get?_attach_self
  have hNoted :
      (⟨[.statement i], (s.opened event).builder,
          .finished (.node s.graph.nextId)⟩ : Entry) ∈
        ((s.opened event).finish [.statement i] bind
          (.node s.graph.nextId)).journal :=
    List.mem_cons_self
  have hFrame :
      ((s.opened event).finish [.statement i] bind
          (.node s.graph.nextId)).frame =
        .rootedAt ⟨s.graph.nextId, 0⟩ := rfl
  have hLt :
      s.graph.nextId <
        ((s.opened event).finish [.statement i] bind
          (.node s.graph.nextId)).graph.nextId :=
    Nat.lt_succ_self _
  generalize (s.opened event).finish [.statement i] bind
    (.node s.graph.nextId) = s₁ at *
  rw [runFrom_append] at hEnd
  have hFirst := (wrote_runFrom block (i + 1) s₁).suffix
  have hLast :
      (runFrom (i + 1) block s₁).journal <:+ z.journal := by
    rw [hEnd]
    exact (wrote_runFrom _ _ _).suffix
  have hBody :
      BlockRan script' [] (i + 1) block s₁
        (runFrom (i + 1) block s₁) :=
    ⟨hBlock, hPlace, hOpened.ready, runBlock_of_ok
      fun e he => hOk e (hLast.subset he)⟩
  generalize runFrom (i + 1) block s₁ = s₂ at *
  rw [hEnd] at hOk
  have hOnward :=
    onward_runFrom hRest hAfter hBody.onward.ready hOk
  rw [← hEnd] at hOnward
  refine ⟨s.graph.nextId, s₁, s₂, ?_, hBody, hClosed,
    ⟨H, hStart⟩, hFrame, hLt, ⟨event, ?_⟩, ?_⟩
  · exact Session.nodeAt_of_mem hNodup
      (hLast.subset (hFirst.subset hNoted))
  · exact hOnward.advance.grows.nodes
      (hBody.onward.advance.grows.nodes hEntry)
  · refine ⟨hOnward.advance.grows.nodes,
      Session.frozen_of_grows hOnward.advance.grows, ?_,
      hLast⟩
    intro e he
    rw [hEnd]
    exact ended_runFrom hRest hAfter hBody.onward.ready hOk
      hNext he

/- A script around a statement at the top. -/
theorem split_at_top
    {st : Stmt}
    (h : script[i]? = some st) :
    ∃ before rest,
      script =
          before ++ st ::
            ((script.drop (i + 1)).takeWhile
              (fun st => !st.begins) ++ rest) ∧
        before.length = i ∧
          (∀ st ∈ (script.drop (i + 1)).takeWhile
              (fun st => !st.begins), st.begins = false) ∧
            ∀ st, rest.head? = some st →
              st.begins = true := by
  rcases List.getElem?_eq_some_iff.mp h with ⟨hLt, hAt⟩
  refine ⟨script.take i,
    (script.drop (i + 1)).dropWhile fun st => !st.begins,
    ?_, List.length_take_of_le (Nat.le_of_lt hLt), ?_, ?_⟩
  · rw [List.takeWhile_append_dropWhile, ← hAt,
      List.getElem_cons_drop, List.take_append_drop]
  · intro st hst
    have hTest := List.all_eq_true.mp List.all_takeWhile st hst
    simpa using hTest
  · intro st hst
    have hTest :=
      List.head?_dropWhile_not (fun st : Stmt => !st.begins)
        (script.drop (i + 1))
    rw [hst] at hTest
    simpa using hTest

end FlowGraph.Script

------------------------------------------------------------
-- What A Function Does
------------------------------------------------------------

namespace FlowGraph.Script

variable {name : String} {config : Config}
variable {script : List Stmt} {path : Path}
variable {f : FunctionBody}

/- There are no loops around the body of a function. -/
theorem loopsAround_functionBody?
    (h : functionBody? script path = some f) :
    loopsAround f.place = [] := by
  unfold functionBody? at h
  split at h
  · cases h
    exact loopsAround_append _ .function
  · cases h
    rfl
  · cases h

/- The function that begins at a place at the top. -/
theorem top_built
    (hScript : structured script = true)
    (hClosed : closed script = true)
    (hOk :
      ∀ e ∈ (run name config script).journal,
        e.event.isFailure = false)
    {i : Nat}
    {bind : Binding}
    {event : String}
    (hBegin :
      script[i]? = some (.action bind (.beginFunction event))) :
    ∃ script' entry a b,
      (run name config script).nodeAt [.statement i] =
          some entry ∧
        FunctionBody.Built
          ⟨[], i + 1,
            (script.drop (i + 1)).takeWhile fun st =>
              !st.begins⟩
          script' entry a b (run name config script) := by
  rcases split_at_top hBegin with
    ⟨before, rest, hSplit, hLength, hRuns, hNext⟩
  generalize (script.drop (i + 1)).takeWhile
    (fun st => !st.begins) = block at *
  have hEnd :
      run name config script =
        runFrom (i + 1) (block ++ rest)
          (((run name config before).opened event).finish
            [.statement i] bind
            (.node (run name config before).graph.nextId)) := by
    rw [hSplit, run, runFrom_append, runFrom, Nat.zero_add,
      hLength, runStmt_begin]
    rfl
  have hJournal :
      (run name config before).journal <:+
        (run name config script).journal := by
    rw [hEnd]
    refine List.IsSuffix.trans ?_
      (wrote_runFrom _ _ _).suffix
    exact List.suffix_cons _ _
  have hOkBefore :
      ∀ e ∈ (run name config before).journal,
        e.event.isFailure = false :=
    fun e he => hOk e (hJournal.subset he)
  -- The parts of the script are structured and closed.
  have hParts := hScript
  rw [hSplit, ← List.singleton_append, structured_append,
    structured_append, structured_append] at hParts
  rcases hParts with ⟨hBefore, _, hBlock, hRest⟩
  have hInside : ∀ st ∈ before ++ block, st ∈ script := by
    rw [hSplit]
    intro st hst
    rcases List.mem_append.mp hst with hst | hst
    · exact List.mem_append_left _ hst
    · exact List.mem_append_right _ (List.mem_cons_of_mem _
        (List.mem_append_left _ hst))
  have hOperands :
      ∀ st ∈ before ++ block, st.every Stmt.closed = true :=
    fun st hst => everyIn_iff.mp hClosed st (hInside st hst)
  have hReady :=
    (onward_runFrom hBefore (holds_script before)
      (Session.Told.new (P := fun _ => True) name
        config).start hOkBefore).ready
  have hSane :=
    ((sane_new name config).runFrom hBefore
      (everyIn_iff.mpr fun st hst =>
        hOperands st (List.mem_append_left _ hst))
      hOkBefore).1
  have hPlace :
      Holds
        (before ++ .action bind (.beginFunction event) ::
          block) [] (i + 1) block := by
    have hHolds :=
      (holds_script
        (before ++ .action bind (.beginFunction event) ::
          block)).append.tail
    rw [Nat.zero_add, hLength] at hHolds
    exact hHolds
  have hAfter :
      Holds script [] (i + 1 + block.length) rest := by
    have hHolds := holds_script script
    rw [hSplit] at hHolds
    have hTail := hHolds.append.tail.append
    rw [Nat.zero_add, hLength, ← hSplit] at hTail
    exact hTail
  rcases begin_built hReady hSane event bind
      (structured_block hBlock hRuns)
      (everyIn_iff.mpr fun st hst =>
        hOperands st (List.mem_append_right _ hst))
      hRest hNext hPlace hAfter hEnd hOk
      (nodup_journal name config script) with
    ⟨entry, a, b, hNode, hBuilt⟩
  exact ⟨_, entry, a, b, hNode, hBuilt⟩

/- Every function of a script is built. -/
theorem function_built
    (hScript : structured script = true)
    (hClosed : closed script = true)
    (hOk :
      ∀ e ∈ (run name config script).entries,
        e.event.isFailure = false)
    (hBody : functionBody? script path = some f) :
    ∃ script' entry a b,
      (run name config script).nodeAt path = some entry ∧
        f.Built script' entry a b
          (run name config script) := by
  have hJournal :
      ∀ e ∈ (run name config script).journal,
        e.event.isFailure = false :=
    fun e he => hOk e (List.mem_reverse.mpr he)
  unfold functionBody? at hBody
  split at hBody
  · rename_i hFind
    cases hBody
    rcases located hScript hJournal (inherited_sane hClosed _)
        ⟨_, sane_new name config⟩ hFind rfl with
      ⟨s, s', hLocated⟩
    exact ⟨script, hLocated.built hClosed
      (nodup_journal name config script)⟩
  · rename_i hFind
    cases hBody
    exact top_built hScript hClosed hJournal hFind
  · cases hBody

/-
  Running a function does what its body means.  From the
  entry of the function the machine gets to a state in which
  it stops.  By then it has used up as many answers as the
  body asks for, it has entered the nodes of the statements
  that the body visits, one after the other, and the gate is
  raised exactly if the body has returned.  A node tells its
  statement.  The gate is declared in the function itself,
  and is down at first.
-/
theorem function_runs_as_meant
    (name : String)
    (config : Config)
    (script : List Stmt)
    (hScript : structured script = true)
    (hClosed : closed script = true)
    (hOk :
      ∀ e ∈ (run name config script).entries,
        e.event.isFailure = false)
    (path : Path)
    (f : FunctionBody)
    (hBody : functionBody? script path = some f)
    (hPlain : f.Plain (run name config script))
    (answer : Nat → Nat) :
    ∃ entry m,
      (run name config script).nodeAt path = some entry ∧
        (∀ place place' id,
          (run name config script).nodeAt place = some id →
            (run name config script).nodeAt place' =
                some id →
              place = place') ∧
        (∀ v, (run name config script).gateOf f = some v →
          entry < v.node ∧
            v.IsGate (run name config script).graph) ∧
        ((run name config script).machine f answer).Reaches
          (.start (some entry)) m ∧
        ((run name config script).machine f answer).step m =
          none ∧
        m.asked = (f.meaning answer 0).asked ∧
        m.trace.map some =
          (path :: (f.meaning answer 0).trace).map
            (run name config script).nodeAt ∧
        (f.meaning answer 0).ending =
          if m.raised then .returned else .done := by
  have hNodup := nodup_journal name config script
  rcases function_built hScript hClosed hOk hBody with
    ⟨script', entry, a, b, hNode, hBuilt⟩
  rcases hBuilt.reaches_end hPlain
      (loopsAround_functionBody? hBody) hNodup answer with
    ⟨m, hReach, hNext, hStack, hAsked, hTrace, hEnding⟩
  refine ⟨entry, m, hNode,
    fun _ _ _ => place_of_node hScript hOk,
    fun v hv => hBuilt.gate hNodup hv, hReach, ?_, hAsked, ?_,
    hEnding⟩
  · simp only [Machine.step, hNext, hStack]
  · rw [List.map_cons, hNode]
    exact hTrace

/-
  Two loops, the inner one under a name and left by it.  The
  outer one then goes to a switch whose only body returns and
  is shared by two aliases.
-/
def leaveAndReturn : List Stmt :=
  [.action .none (.beginFunction "start"),
    .forRange .none (.literal (.int 0)) (.literal (.int 3))
      [.forRange ⟨none, some "inner"⟩
          (.literal (.int 0)) (.literal (.int 3))
        [.action .none (.breakLoop [.name "inner"]),
          .action .none (.print (.literal (.str "never")))],
        .switch .none (.value (.int 1))
          [(.int 1, .body
              [.action .none (.print (.literal (.str "a"))),
                .action .none .returnNow]),
            (.int 2, .alias (.label (.int 1)))]
          (.alias (.label (.int 2))),
        .action .none (.print (.literal (.str "b")))],
    .action .none (.print (.literal (.str "c")))]

/- Both loops have rounds, and the switch takes an alias. -/
def leavingAnswers
    (k : Nat) :
    Nat :=
  if k < 2 then 3 else 2

/- The loop that the break names is the one around it. -/
theorem plain_leaveAndReturn :
    FunctionBody.Plain
      (run "demo" .default leaveAndReturn)
      ⟨[], 1, leaveAndReturn.drop 1⟩ := by
  have hBreak :
      StopsInnermost
        (run "demo" .default leaveAndReturn).graph
        (run "demo" .default leaveAndReturn).nodeAt
        [.statement 1, .loopBody, .statement 0, .loopBody,
          .statement 0] := by
    refine ⟨4, [.statement 1, .loopBody, .statement 0],
      [[.statement 1]], 3, ?_⟩
    decide +kernel
  -- Only the first statement of each block holds the break.
  apply PlainBlock.cons _ (plainBlock_of_unnamed rfl rfl) rfl
  apply plainStmt_forRange
  apply PlainBlock.cons _ (plainBlock_of_unnamed rfl rfl) rfl
  apply plainStmt_forRange
  apply PlainBlock.cons _ (plainBlock_of_unnamed rfl rfl) rfl
  exact plainStmt_breakLoop hBreak

/-
  The break leads to the switch of the same round.  The alias
  leads to the body that returns, which is in the outer loop,
  so the machine stops after the first print.
-/
theorem break_by_name_then_return :
    structured leaveAndReturn = true ∧
      closed leaveAndReturn = true ∧
      (∀ e ∈ (run "demo" .default leaveAndReturn).entries,
        e.event.isFailure = false) ∧
      functionBody? leaveAndReturn [.statement 0] =
        some ⟨[], 1, leaveAndReturn.drop 1⟩ ∧
      FunctionBody.Plain
        (run "demo" .default leaveAndReturn)
        ⟨[], 1, leaveAndReturn.drop 1⟩ ∧
      ∃ entry m,
        (run "demo" .default leaveAndReturn).nodeAt
            [.statement 0] = some entry ∧
          ((run "demo" .default leaveAndReturn).machine
              ⟨[], 1, leaveAndReturn.drop 1⟩
              leavingAnswers).Reaches
            (.start (some entry)) m ∧
          ((run "demo" .default leaveAndReturn).machine
              ⟨[], 1, leaveAndReturn.drop 1⟩
              leavingAnswers).step m = none ∧
          m.asked = 3 ∧
          m.trace.map some =
            [[.statement 0], [.statement 1],
              [.statement 1, .loopBody, .statement 0],
              [.statement 1, .loopBody, .statement 0,
                .loopBody, .statement 0],
              [.statement 1, .loopBody, .statement 1],
              [.statement 1, .loopBody, .statement 1, .case 0,
                .statement 0]].map
              (run "demo" .default leaveAndReturn).nodeAt ∧
          m.raised = true := by
  have hScript : structured leaveAndReturn = true := by
    decide
  have hClosed : closed leaveAndReturn = true := by
    decide
  have hOk :
      ∀ e ∈ (run "demo" .default leaveAndReturn).entries,
        e.event.isFailure = false := by
    decide +kernel
  have hMeaning :
      FunctionBody.meaning ⟨[], 1, leaveAndReturn.drop 1⟩
          leavingAnswers 0 =
        ⟨.returned, 3,
          [[.statement 1],
            [.statement 1, .loopBody, .statement 0],
            [.statement 1, .loopBody, .statement 0, .loopBody,
              .statement 0],
            [.statement 1, .loopBody, .statement 1],
            [.statement 1, .loopBody, .statement 1, .case 0,
              .statement 0]]⟩ := by
    decide +kernel
  rcases function_runs_as_meant "demo" .default leaveAndReturn
      hScript hClosed hOk [.statement 0]
      ⟨[], 1, leaveAndReturn.drop 1⟩ rfl plain_leaveAndReturn
      leavingAnswers with
    ⟨entry, m, hNode, _, _, hReach, hStop, hAsked, hTrace,
      hEnding⟩
  rw [hMeaning] at hAsked hTrace hEnding
  refine ⟨hScript, hClosed, hOk, rfl, plain_leaveAndReturn,
    entry, m, hNode, hReach, hStop, hAsked, hTrace, ?_⟩
  cases hRaised : m.raised with
  | true => rfl
  | false =>
      rw [hRaised] at hEnding
      cases hEnding

end FlowGraph.Script
