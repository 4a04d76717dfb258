import FlowGraph.Proofs.Arms
import FlowGraph.Proofs.Cursor

/-
  What a statement did, part by part.

  A statement of a structured script that was not refused has
  run its bodies one after the other, each from a session of
  its own.  These sessions are known by the segments that
  lead to the bodies.

  Key definitions include:
    * `FlowGraph.Script.StmtRan`
    * `FlowGraph.Script.BlockRan`
    * `FlowGraph.Script.Unfolds`

  Key theorems include:
    * `FlowGraph.Script.BlockRan.cons`
    * `FlowGraph.Script.StmtRan.unfolds`
    * `FlowGraph.Script.ran_induction`
-/

------------------------------------------------------------
-- Runs Of Statements And Blocks
------------------------------------------------------------

namespace FlowGraph.Script

/- A statement was run at its place, without a refusal. -/
structure StmtRan
    (script : List Stmt)
    (path : Path)
    (st : Stmt)
    (s s' : Session) :
    Prop where
  structured : st.every Stmt.structured = true
  place : HoldsStmt script path st
  ready : s.Ready
  ran : runStmt path st s = (.ok (), s')

/- A block was run at its place, without a refusal. -/
structure BlockRan
    (script : List Stmt)
    (path : Path)
    (i : Nat)
    (block : List Stmt)
    (s s' : Session) :
    Prop where
  structured : everyIn Stmt.structured block = true
  place : Holds script path i block
  ready : s.Ready
  ran : runBlock path i block s = (.ok (), s')

/- A body was run after it was journaled as entered. -/
def BodyRan
    (script : List Stmt)
    (path : Path)
    (body : List Stmt)
    (a b : Session) :
    Prop :=
  BlockRan script path 0 body (a.record path .entered) b

/- A body was run, or there was none. -/
def BranchRan
    (script : List Stmt)
    (path : Path) :
    Option (List Stmt) → Session → Session → Prop
  | some body, a, b => BodyRan script path body a b
  | none, a, b => b = a

variable {script block rest : List Stmt} {path : Path}
variable {st : Stmt} {i : Nat} {s s' a b : Session}

theorem StmtRan.leads
    (h : StmtRan script path st s s') :
    Session.Leads (Entry.Complete script) s.graph.nextId s
      s' :=
  ((sound_runStmt script).1 st h.structured path h.place s
    h.ready).of_ok h.ran

theorem BlockRan.leads
    (h : BlockRan script path i block s s') :
    Session.Leads (Entry.Complete script) s.graph.nextId s
      s' :=
  ((sound_runStmt script).2 block h.structured path i
    h.place s h.ready).of_ok h.ran

/- An empty block does nothing. -/
theorem BlockRan.nil
    (h : BlockRan script path i [] s s') :
    s' = s := by
  have hRan := h.ran
  rw [runBlock] at hRan
  cases hRan
  rfl

/- A block runs its first statement, then the others. -/
theorem BlockRan.cons
    (h : BlockRan script path i (st :: rest) s s') :
    ∃ s₁,
      StmtRan script (path ++ [.statement i]) st s s₁ ∧
        BlockRan script path (i + 1) rest s₁ s' := by
  rcases everyIn_cons.mp h.structured with ⟨hFirst, hRest⟩
  have hRan := h.ran
  rw [runBlock, Process.bind_eq_ok_iff] at hRan
  rcases hRan with ⟨_, s₁, hRan₁, hRan₂⟩
  have hStmt :
      StmtRan script (path ++ [.statement i]) st s s₁ :=
    ⟨hFirst, h.place.head, h.ready, hRan₁⟩
  exact ⟨s₁, hStmt, hRest, h.place.tail, hStmt.leads.ready,
    hRan₂⟩

/- A session stays ready when it writes an entry. -/
theorem Session.Ready.record
    (h : s.Ready)
    (path : Path)
    (event : Event) :
    (s.record path event).Ready :=
  ⟨h.builder, h.nodes, h.locals, h.gate⟩

theorem Session.Ready.of_record
    {event : Event}
    (h : (s.record path event).Ready) :
    s.Ready :=
  ⟨h.builder, h.nodes, h.locals, h.gate⟩

theorem BodyRan.leads
    (h : BodyRan script path block a b) :
    Session.Leads (Entry.Complete script) a.graph.nextId a
      b := by
  have hReady := h.ready.of_record
  have hEntered :
      Session.Leads (Entry.Complete script) a.graph.nextId a
        (a.record path .entered) := by
    refine (Session.Leads.refl hReady).record ?_ rfl (by simp)
    intro _ _ _ _ _ hEvent
    cases hEvent
  exact .trans hReady hEntered (BlockRan.leads h)

theorem BranchRan.leads
    {body? : Option (List Stmt)}
    (h : BranchRan script path body? a b)
    (hReady : a.Ready) :
    Session.Leads (Entry.Complete script) a.graph.nextId a
      b := by
  cases body? with
  | none =>
      cases h
      exact .refl hReady
  | some body => exact BodyRan.leads h

/- A statement writes about the places that it leads to. -/
theorem StmtRan.wrote
    (h : StmtRan script path st s s') :
    s.Wrote (path <+: ·) s' :=
  (writes_runStmt.1 st path s).of_ok h.ran

theorem BlockRan.wrote
    (h : BlockRan script path i block s s') :
    s.Wrote (path <+: ·) s' := by
  refine Session.Wrote.mono
    ((writes_runStmt.2 block path i s).of_ok h.ran) ?_
  rintro p ⟨j, _, hj⟩
  exact (List.prefix_append _ _).trans hj

/- What the run of a body comes to. -/
theorem meets_body
    (hStructured : everyIn Stmt.structured block = true)
    (hPlace : Holds script path 0 block)
    (hReady : a.Ready) :
    (entered path (runBlock path 0 block)).Meets a
      (fun _ b => BodyRan script path block a b)
      (fun _ _ => True) := by
  rw [meets_entered]
  refine (Process.meets_self _ _).mono ?_ fun _ _ _ => trivial
  intro _ b hRan
  exact ⟨hStructured, hPlace, hReady.record path .entered,
    hRan⟩

end FlowGraph.Script

------------------------------------------------------------
-- Parts Of A Statement
------------------------------------------------------------

namespace FlowGraph.Script

/- The names under which the result of a statement is kept. -/
def Stmt.binding : Stmt → Binding
  | .action bind _ => bind
  | .function bind _ _ => bind
  | .ifThen bind _ _ => bind
  | .ifElse bind _ _ _ => bind
  | .switch bind _ _ _ => bind
  | _ => .none

/- The condition and the bodies of a conditional. -/
inductive Stmt.Decides
    (names : Names) :
    Stmt → Value → List Stmt → Option (List Stmt) → Prop
  | ifThen {bind : Binding} {c : Operand} {v : Value}
      {thenBody : List Stmt}
      (hEval : c.eval names = .ok v) :
      Decides names (.ifThen bind c thenBody) v thenBody none
  | ifElse {bind : Binding} {c : Operand} {v : Value}
      {thenBody elseBody : List Stmt}
      (hEval : c.eval names = .ok v) :
      Decides names (.ifElse bind c thenBody elseBody) v
        thenBody (some elseBody)

/-
  What a loop names, its body, its node, and the value of a
  round for a given number of the node.
-/
inductive Stmt.Repeats
    (names : Names) :
    Stmt → Binding → List Stmt → Node → (Nat → Value) → Prop
  | range {bind : Binding} {start stop : Argument}
      {body : List Stmt} {x y : Input} {first last : Value}
      (hStart : start.eval names = .ok x)
      (hStop : stop.eval names = .ok y)
      (hFirst : x.read .int = .ok first)
      (hLast : y.read .int = .ok last) :
      Repeats names (.forRange bind start stop body) bind body
        (rangeNode first last)
        (fun id => .pin .int ⟨id, "current_loop_value", 0⟩)
  | items {bind : Binding} {list : Operand}
      {body : List Stmt} {v : Value} {t : ValueType}
      (hList : list.eval names = .ok v)
      (hItem : itemType v = .ok t) :
      Repeats names (.forEach bind list body) bind body
        (itemsNode v t)
        (fun id => .pin t ⟨id, "iteration_value", 0⟩)

/- Where a loop goes on: after a guard if a round returns. -/
def Session.afterLoop
    (s b : Session) :
    Session :=
  if s.frame.returns < b.frame.returns then
    (b.afterRounds s.graph.nextId).withBuilder
      (b.afterRounds s.graph.nextId).builder.guarded
  else
    b.afterRounds s.graph.nextId

/-
  What a statement did from `s` on, before it was journaled:
  its result and the session it came to.  The body to which a
  segment leads ran from `a segment` to `b segment`.
-/
inductive Unfolds
    (script : List Stmt)
    (path : Path)
    (s : Session)
    (a b : Segment → Session) :
    Stmt → Result → Session → Prop
  | action {bind : Binding} {act : Action} {r : Result}
      {after : Builder}
      (hActs : act.Acts s.names s.builder r after) :
      Unfolds script path s a b (.action bind act) r
        (s.withBuilder after)
  | function {bind : Binding} {event : String}
      {body : List Stmt}
      (hStart : a .function = s.opened event)
      (hBody :
        BodyRan script (path ++ [.function]) body
          (a .function) (b .function)) :
      Unfolds script path s a b (.function bind event body)
        (.node s.graph.nextId)
        ((b .function).onFrame fun _ => s.frame)
  | conditional {st : Stmt} {v : Value}
      {thenBody : List Stmt} {elseBody : Option (List Stmt)}
      (hDecides : st.Decides s.names v thenBody elseBody)
      (hFirst :
        a .thenBody =
          (s.placed (branchNode v)).withTail
            [⟨s.graph.nextId, 0⟩])
      (hThen :
        BodyRan script (path ++ [.thenBody]) thenBody
          (a .thenBody) (b .thenBody))
      (hSecond :
        a .elseBody =
          (b .thenBody).withTail [⟨s.graph.nextId, 1⟩])
      (hReady : (a .elseBody).Ready)
      (hElse :
        BranchRan script (path ++ [.elseBody]) elseBody
          (a .elseBody) (b .elseBody)) :
      Unfolds script path s a b st (.node s.graph.nextId)
        ((b .elseBody).withTail
          (joinTails
            [(b .thenBody).frame.tail,
              (b .elseBody).frame.tail]))
  | switch {bind : Binding} {control : Operand} {v : Value}
      {cases : List (Label × Arm (List Stmt))}
      {default : Arm (List Stmt)}
      {branches : List (Option Branch)} {s₁ s₂ : Session}
      {join : List Endpoint}
      (hEval : control.eval s.names = .ok v)
      (hAssembled :
        Assembled (Entry.Complete script) v
          (preparedSwitch path cases default) s branches s₁
          join s₂)
      (hArms :
        ArmsTaken (Entry.Complete script) s.graph.nextId 0
          (preparedSwitch path cases default).arms
          (s.placed
            (switchNode v (preparedSwitch path cases default)))
          branches s₁ (fun j => a (armSegment j))
          (fun j => b (armSegment j)))
      (hBodies :
        ∀ segment body,
          (Stmt.switch bind control cases default).body?
              segment = some body →
            BodyRan script (path ++ [segment]) body
              (a segment) (b segment)) :
      Unfolds script path s a b
        (.switch bind control cases default)
        (.node s.graph.nextId) (s₂.withTail join)
  | loop {st : Stmt} {bind : Binding} {body : List Stmt}
      {n : Node} {value : Nat → Value}
      (hRepeats : st.Repeats s.names bind body n value)
      (hStart :
        a .loopBody =
          ((s.placed n).inRound s.graph.nextId).withNames
            ((s.names.keep bind
              (.value (value s.graph.nextId))).keep bind
                (.node s.graph.nextId)))
      (hBody :
        BodyRan script (path ++ [.loopBody]) body
          (a .loopBody) (b .loopBody)) :
      Unfolds script path s a b st (.node s.graph.nextId)
        (s.afterLoop (b .loopBody))

end FlowGraph.Script

------------------------------------------------------------
-- Conditionals And Loops
------------------------------------------------------------

namespace FlowGraph.Script

variable {script : List Stmt} {path : Path} {st : Stmt}
variable {names : Names} {s s' : Session}

/- The bodies of a conditional. -/
theorem Stmt.Decides.bodies
    {v : Value}
    {thenBody : List Stmt}
    {elseBody : Option (List Stmt)}
    (h : st.Decides names v thenBody elseBody) :
    st.body? .thenBody = some thenBody ∧
      st.body? .elseBody = elseBody := by
  cases h with
  | ifThen hEval => exact ⟨rfl, rfl⟩
  | ifElse hEval => exact ⟨rfl, rfl⟩

theorem Stmt.Decides.segment
    {v : Value}
    {thenBody body : List Stmt}
    {elseBody : Option (List Stmt)}
    {segment : Segment}
    (h : st.Decides names v thenBody elseBody)
    (hBody : st.body? segment = some body) :
    segment = .thenBody ∨ segment = .elseBody := by
  cases h <;> cases segment <;> simp_all [Stmt.body?]

/- The body of a loop, and the two exec outputs of its node. -/
theorem Stmt.Repeats.body
    {bind : Binding}
    {body : List Stmt}
    {n : Node}
    {value : Nat → Value}
    (h : st.Repeats names bind body n value) :
    st.body? .loopBody = some body ∧
      n.nodeClass = .exec ∧ n.execOutputs = 2 := by
  cases h with
  | range _ _ _ _ => exact ⟨rfl, rfl, rfl⟩
  | items _ _ => exact ⟨rfl, rfl, rfl⟩

theorem Stmt.Repeats.segment
    {bind : Binding}
    {body inner : List Stmt}
    {n : Node}
    {value : Nat → Value}
    {segment : Segment}
    (h : st.Repeats names bind body n value)
    (hBody : st.body? segment = some inner) :
    segment = .loopBody := by
  cases h <;> cases segment <;> simp_all [Stmt.body?]

/- What belongs to the first of two bodies, or the second. -/
def byThen
    {α : Type}
    (first second : α) :
    Segment → α
  | .thenBody => first
  | _ => second

/- What a conditional did. -/
theorem meets_conditional_unfolds
    {v : Value}
    {thenBody : List Stmt}
    {elseBody : Option (List Stmt)}
    {onFalse : Run Unit}
    (hStructured : st.every Stmt.structured = true)
    (hPlace : HoldsStmt script path st)
    (hReady : s.Ready)
    (hDecides : st.Decides s.names v thenBody elseBody)
    (hElse :
      ∀ a : Session, a.Ready →
        onFalse.Meets a
          (fun _ b =>
            BranchRan script (path ++ [.elseBody]) elseBody a
              b)
          (fun _ _ => True)) :
    (conditional v
        (entered (path ++ [.thenBody])
          (runBlock (path ++ [.thenBody]) 0 thenBody))
        onFalse).Meets s
      (fun id s₁ =>
        ∃ a b, Unfolds script path s a b st (.node id) s₁)
      (fun _ _ => True) := by
  have hBody := hDecides.bodies.1
  have hInner :=
    ((Stmt.every_iff st).mp hStructured).2 thenBody
      (Stmt.mem_bodies hBody)
  have hPlaced :
      Session.Spread (Entry.Complete script)
        (s.graph.nextId + 1) s (s.placed (branchNode v))
        [⟨s.graph.nextId, 0⟩, ⟨s.graph.nextId, 1⟩] :=
    spread_placed hReady rfl
  have hStart :
      (⟨s.graph.nextId, 0⟩ : Endpoint) ∈
        [⟨s.graph.nextId, 0⟩, ⟨s.graph.nextId, 1⟩] :=
    List.mem_cons_self
  rw [meets_conditional hReady.builder]
  refine ⟨?_, fun _ _ => trivial⟩
  intro _ _
  rw [meets_inBranch]
  refine (meets_body hInner (hPlace.below _ _ hBody)
    (hPlaced.ready hStart)).mono ?_ fun _ _ _ => trivial
  intro _ s₁ hThen
  have hSpread :=
    hPlaced.focus hStart (Nat.lt_succ_self s.graph.nextId)
      hThen.leads
  have hReady₁ :
      (s₁.withTail [⟨s.graph.nextId, 1⟩]).Ready :=
    hSpread.ready (by simp)
  rw [meets_inBranch]
  refine (hElse _ hReady₁).mono ?_ fun _ _ _ => trivial
  intro _ s₂ hOther
  exact ⟨
    byThen
      ((s.placed (branchNode v)).withTail
        [⟨s.graph.nextId, 0⟩])
      (s₁.withTail [⟨s.graph.nextId, 1⟩]),
    byThen s₁ s₂,
    .conditional hDecides rfl hThen rfl hReady₁ hOther⟩

/- The rounds of a loop lead on to its second exec output. -/
theorem leads_rounds
    {P : Entry → Prop}
    {bind : Binding}
    {body : List Stmt}
    {n : Node}
    {value : Nat → Value}
    {b : Session}
    (hReady : s.Ready)
    (hRepeats : st.Repeats s.names bind body n value)
    (hBody :
      Session.Leads P (s.graph.nextId + 1)
        (((s.placed n).inRound s.graph.nextId).withNames
          ((s.names.keep bind
            (.value (value s.graph.nextId))).keep bind
              (.node s.graph.nextId))) b) :
    Session.Leads P s.graph.nextId s
      (b.afterRounds s.graph.nextId) := by
  rcases hRepeats.body with ⟨_, hExec, hOutputs⟩
  have hRound := ready_inRound hReady hExec hOutputs
  have hKept :=
    leads_keepLoop (P := P) hRound
      ⟨n, Graph.get?_attach_self⟩ bind
      (value s.graph.nextId)
  exact leads_afterRounds hReady hExec hOutputs
    (.trans hRound hKept hBody)

/- What a loop did, once its node was placed. -/
theorem meets_loop_unfolds
    {bind : Binding}
    {body : List Stmt}
    {n : Node}
    {value : Nat → Value}
    (hStructured : st.every Stmt.structured = true)
    (hPlace : HoldsStmt script path st)
    (hReady : s.Ready)
    (hRepeats : st.Repeats s.names bind body n value) :
    (loopBody s.graph.nextId
        (keepLoop bind s.graph.nextId
            (value s.graph.nextId) >>= fun _ =>
          entered (path ++ [.loopBody])
            (runBlock (path ++ [.loopBody]) 0 body))).Meets
      (s.placed n)
      (fun _ s₁ =>
        ∃ a b, Unfolds script path s a b st
          (.node s.graph.nextId) s₁)
      (fun _ _ => True) := by
  rcases hRepeats.body with ⟨hBody, hExec, hOutputs⟩
  have hInner :=
    ((Stmt.every_iff st).mp hStructured).2 body
      (Stmt.mem_bodies hBody)
  have hRound := ready_inRound hReady hExec hOutputs
  have hKept :=
    leads_keepLoop (P := Entry.Complete script) hRound
      ⟨n, Graph.get?_attach_self⟩ bind
      (value s.graph.nextId)
  rw [meets_loopBody, Process.meets_bind, meets_keepLoop]
  refine (meets_body hInner (hPlace.below _ _ hBody)
    hKept.ready).mono ?_ fun _ _ _ => trivial
  intro _ b hRan
  have hAfter := leads_rounds hReady hRepeats hRan.leads
  have hUnfolds :
      Unfolds script path s
        (fun _ =>
          ((s.placed n).inRound s.graph.nextId).withNames
            ((s.names.keep bind
              (.value (value s.graph.nextId))).keep bind
                (.node s.graph.nextId)))
        (fun _ => b) st (.node s.graph.nextId)
        (s.afterLoop b) :=
    .loop hRepeats rfl hRan
  unfold Session.afterLoop at hUnfolds
  split
  · rename_i hMore
    have hReturns : s.frame.returns < b.frame.returns := hMore
    rw [if_pos hReturns] at hUnfolds
    rw [meets_returnGuard hAfter.ready.builder]
    exact ⟨_, _, hUnfolds⟩
  · rename_i hSame
    have hReturns : ¬s.frame.returns < b.frame.returns :=
      hSame
    rw [if_neg hReturns] at hUnfolds
    exact ⟨_, _, hUnfolds⟩

end FlowGraph.Script

------------------------------------------------------------
-- Switches
------------------------------------------------------------

namespace FlowGraph.Script

variable {script : List Stmt} {path : Path}
variable {s : Session} {bind : Binding} {control : Operand}
variable {cases : List (Label × Arm (List Stmt))}
variable {default : Arm (List Stmt)}

/- The exec output to whose body a segment leads. -/
def armIndex : Segment → Nat
  | .case j => j + 1
  | _ => 0

theorem armIndex_armSegment
    (j : Nat) :
    armIndex (armSegment j) = j := by
  cases j <;> rfl

/- The exec output that a body starts from. -/
def Segment.output : Segment → Nat
  | .elseBody => 1
  | segment => armIndex segment

/- The bodies of a switch are run in its branches. -/
theorem arm_of_body?
    (path : Path)
    {segment : Segment}
    {body : List Stmt}
    (h :
      (Stmt.switch bind control cases default).body? segment =
        some body) :
    armSegment (armIndex segment) = segment ∧
      (preparedSwitch path cases default).arms[armIndex
          segment]? =
        some (.body (entered (path ++ [segment])
          (runBlock (path ++ [segment]) 0 body))) := by
  have hArm :
      armSegment (armIndex segment) = segment ∧
        ∃ arm, (Switch.mk cases default).arms[armIndex
            segment]? = some arm ∧ arm.body? = some body := by
    cases segment with
    | default => exact ⟨rfl, default, rfl, h⟩
    | case j =>
        rcases Option.bind_eq_some_iff.mp h with ⟨c, hc, hb⟩
        refine ⟨rfl, c.2, ?_, hb⟩
        rw [armIndex, Switch.arms, List.getElem?_cons_succ,
          List.getElem?_map, hc]
        rfl
    | _ => cases h
  rcases hArm with ⟨hSegment, arm, hArm, hBody⟩
  refine ⟨hSegment, ?_⟩
  rw [preparedSwitch_eq, arms_mapArms, hArm, hSegment]
  cases arm with
  | body block =>
      cases hBody
      rfl
  | «alias» k => cases hBody
  | empty => cases hBody

/- The bodies of a switch are sound. -/
theorem sound_arms
    (hStructured :
      (Stmt.switch bind control cases default).every
        Stmt.structured = true)
    (hPlace :
      HoldsStmt script path
        (.switch bind control cases default)) :
    ∀ arm ∈ (preparedSwitch path cases default).arms,
      ∀ body, arm.body? = some body →
        Sound (Entry.Complete script) body := by
  intro arm hArm body hEq
  have hBodies := ((Stmt.every_iff _).mp hStructured).2
  rcases List.mem_iff_getElem?.mp hArm with ⟨j, hj⟩
  rcases body_preparedSwitch bind control hj hEq with
    ⟨b, hb, hRun⟩
  rw [hRun]
  apply ((sound_runStmt script).2 b
    (hBodies b (Stmt.mem_bodies hb)) _ 0
    (hPlace.below (armSegment j) b hb)).entered
  intro _ r _ _ _ _ hEvent
  cases hEvent

/- What a switch did. -/
theorem meets_dispatch_unfolds
    {v : Value}
    (hStructured :
      (Stmt.switch bind control cases default).every
        Stmt.structured = true)
    (hPlace :
      HoldsStmt script path
        (.switch bind control cases default))
    (hReady : s.Ready)
    (hEval : control.eval s.names = .ok v) :
    (dispatch v (preparedSwitch path cases default)).Meets s
      (fun id s₁ =>
        ∃ a b,
          Unfolds script path s a b
            (.switch bind control cases default) (.node id)
            s₁)
      (fun _ _ => True) := by
  have hSound := sound_arms hStructured hPlace
  have hArms :=
    meets_runArms_taken hSound (Nat.lt_succ_self _)
      (spread_switch hReady v
        (preparedSwitch path cases default))
  refine (meets_dispatch_assembled hReady hSound
    hArms).mono ?_ fun _ _ _ => trivial
  intro id s' hParts
  rcases hParts with
    ⟨hId, branches, s₁, join, s₂, hAssembled, hTaken, hEnd⟩
  rcases hTaken with ⟨a, b, hTaken⟩
  rw [hId, hEnd]
  refine ⟨fun segment => a (armIndex segment),
    fun segment => b (armIndex segment),
    .switch hEval hAssembled ?_ ?_⟩
  · simpa only [armIndex_armSegment] using hTaken
  · intro segment body hBody
    have hRan :=
      hTaken.bodies _ _ (arm_of_body? path hBody).2
    exact ⟨((Stmt.every_iff _).mp hStructured).2 body
      (Stmt.mem_bodies hBody), hPlace.below _ _ hBody,
      hRan.ready.record _ _, hRan.ran⟩

end FlowGraph.Script

------------------------------------------------------------
-- Statements
------------------------------------------------------------

namespace FlowGraph.Script

variable {script : List Stmt} {path : Path} {st : Stmt}
variable {s s' : Session}

/- The operands of a construct are evaluated before it. -/
theorem meets_resolved_unfolds
    {α β : Type}
    {f : Names → Except Error α}
    {k : α → Run β}
    {Q : β → Session → Prop}
    (h :
      ∀ x, f s.names = .ok x →
        (k x).Meets s Q (fun _ _ => True)) :
    (resolved f >>= k).Meets s Q (fun _ _ => True) := by
  rw [Process.meets_bind, meets_resolved]
  exact ⟨h, fun _ _ => trivial⟩

/- What a statement did, and how it was journaled. -/
theorem StmtRan.unfolds
    (h : StmtRan script path st s s') :
    ∃ a b r s₁,
      Unfolds script path s a b st r s₁ ∧
        s' = s₁.finish path st.binding r := by
  have hReady := h.ready
  rcases (Stmt.every_iff st).mp h.structured with
    ⟨hSelf, hInner⟩
  have hBody :
      ∀ segment block, st.body? segment = some block →
        ∀ a : Session, a.Ready →
          (entered (path ++ [segment])
              (runBlock (path ++ [segment]) 0 block)).Meets a
            (fun _ b =>
              BodyRan script (path ++ [segment]) block a b)
            (fun _ _ => True) := by
    intro segment block hBlock a hReady
    exact meets_body (hInner block (Stmt.mem_bodies hBlock))
      (h.place.below segment block hBlock) hReady
  -- It is enough to look at what is journaled.
  have hJournaled :
      ∀ m : Run Result,
        runStmt path st = journaled path st.binding m →
          m.Meets s
            (fun r s₁ =>
              ∃ a b, Unfolds script path s a b st r s₁)
            (fun _ _ => True) →
            ∃ a b r s₁,
              Unfolds script path s a b st r s₁ ∧
                s' = s₁.finish path st.binding r := by
    intro m hEq hMeets
    have hRan := h.ran
    rw [hEq] at hRan
    refine Process.Meets.of_ok (m := journaled path st.binding m)
      (Q := fun _ s' => ∃ a b r s₁,
        Unfolds script path s a b st r s₁ ∧
          s' = s₁.finish path st.binding r)
      (E := fun _ _ => True) ?_ hRan
    rw [meets_journaled]
    refine hMeets.mono ?_ fun _ _ _ => trivial
    intro r s₁ hUnfolds
    rcases hUnfolds with ⟨a, b, hUnfolds⟩
    exact ⟨a, b, r, s₁, hUnfolds, rfl⟩
  cases st with
  | action bind act =>
      apply hJournaled act.run rfl
      apply meets_resolved_unfolds
      intro step hStep
      rw [meets_build]
      refine (actsBy_prepare hReady.builder hSelf hStep).mono ?_
        fun _ _ _ => trivial
      intro r after hActs
      exact ⟨fun _ => s, fun _ => s, .action hActs⟩
  | function bind event body =>
      apply hJournaled _ rfl
      rw [Process.meets_bind, meets_inFunction]
      refine (hBody .function body rfl _
        (hReady.opened event)).mono ?_ fun _ _ _ => trivial
      intro _ b hRan
      exact ⟨fun _ => s.opened event, fun _ => b,
        .function rfl hRan⟩
  | ifThen bind c thenBody =>
      apply hJournaled _ rfl
      apply meets_resolved_unfolds
      intro v hv
      rw [Process.meets_bind]
      exact meets_conditional_unfolds h.structured h.place
        hReady (.ifThen hv) fun _ _ => rfl
  | ifElse bind c thenBody elseBody =>
      apply hJournaled _ rfl
      apply meets_resolved_unfolds
      intro v hv
      rw [Process.meets_bind]
      exact meets_conditional_unfolds h.structured h.place
        hReady (.ifElse hv) (hBody .elseBody elseBody rfl)
  | switch bind control cases default =>
      apply hJournaled _ rfl
      apply meets_resolved_unfolds
      intro v hv
      rw [Process.meets_bind]
      exact meets_dispatch_unfolds h.structured h.place hReady
        hv
  | forRange bind start stop body =>
      apply hJournaled _ rfl
      apply meets_resolved_unfolds
      intro x hx
      apply meets_resolved_unfolds
      intro y hy
      rw [Process.meets_bind, meets_countingLoop hReady.builder]
      refine ⟨?_, fun _ _ => trivial⟩
      intro first hFirst
      refine ⟨?_, fun _ _ => trivial⟩
      intro last hLast
      have hLoop :=
        meets_loop_unfolds h.structured h.place hReady
          (.range hx hy hFirst hLast)
      exact hLoop
  | forEach bind list body =>
      apply hJournaled _ rfl
      apply meets_resolved_unfolds
      intro v hv
      rw [Process.meets_bind, meets_itemLoop hReady.builder]
      refine ⟨?_, fun _ _ => trivial⟩
      intro t ht
      have hLoop :=
        meets_loop_unfolds h.structured h.place hReady
          (.items hv ht)
      exact hLoop
  | branch node index body => cases hSelf
  | loop node body => cases hSelf
  | attempt body => cases hSelf

/-
  The body to which a segment leads was run between the
  sessions of the segment.
-/
theorem Unfolds.body
    {a b : Segment → Session}
    {r : Result}
    {s₁ : Session}
    (h : Unfolds script path s a b st r s₁)
    {segment : Segment}
    {body : List Stmt}
    (hBody : st.body? segment = some body) :
    BodyRan script (path ++ [segment]) body (a segment)
      (b segment) := by
  cases h with
  | action hActs => cases hBody
  | function hStart hRan =>
      cases segment <;> cases hBody
      exact hRan
  | conditional hDecides hFirst hThen hSecond hReady hElse =>
      cases hDecides with
      | ifThen hEval =>
          cases segment <;> cases hBody
          exact hThen
      | ifElse hEval =>
          cases segment <;> cases hBody
          · exact hThen
          · exact hElse
  | switch hEval hAssembled hArms hBodies =>
      exact hBodies segment body hBody
  | loop hRepeats hStart hRan =>
      cases hRepeats with
      | range _ _ _ _ =>
          cases segment <;> cases hBody
          exact hRan
      | items _ _ =>
          cases segment <;> cases hBody
          exact hRan

/-
  A statement with bodies yields a node, and its bodies start
  at exec outputs of the node.
-/
theorem Unfolds.start
    {a b : Segment → Session}
    {r : Result}
    {s₁ : Session}
    (h : Unfolds script path s a b st r s₁)
    {segment : Segment}
    {body : List Stmt}
    (hBody : st.body? segment = some body) :
    r = .node s.graph.nextId ∧
      s.graph.nextId < (a segment).graph.nextId ∧
        (a segment).frame.tail =
          [⟨s.graph.nextId, segment.output⟩] := by
  have hReady := (h.body hBody).ready
  suffices hStart :
      r = .node s.graph.nextId ∧
        (a segment).frame.tail =
          [⟨s.graph.nextId, segment.output⟩] by
    rcases hStart with ⟨hResult, hTail⟩
    refine ⟨hResult,
      hReady.builder.tail_lt (e := ⟨_, segment.output⟩) ?_,
      hTail⟩
    rw [show ((a segment).record (path ++ [segment])
      .entered).builder.frame.tail = _ from hTail]
    exact List.mem_cons_self
  cases h with
  | action hActs => cases hBody
  | function hStart hRan =>
      cases segment <;> cases hBody
      exact ⟨rfl, by rw [hStart]; rfl⟩
  | conditional hDecides hFirst hThen hSecond hReady hElse =>
      have hCases := hDecides.segment hBody
      rcases hCases with hEq | hEq
      · exact ⟨rfl, by rw [hEq, hFirst]; rfl⟩
      · exact ⟨rfl, by rw [hEq, hSecond]; rfl⟩
  | switch hEval hAssembled hArms hBodies =>
      rcases arm_of_body? path hBody with ⟨hSegment, hArm⟩
      have hTail := (hArms.bodies _ _ hArm).tail
      rw [hSegment, Nat.zero_add] at hTail
      refine ⟨rfl, hTail.trans ?_⟩
      cases segment with
      | elseBody => cases hBody
      | _ => rfl
  | loop hRepeats hStart hRan =>
      have hCases := hRepeats.segment hBody
      exact ⟨rfl, by rw [hCases, hStart]; rfl⟩

/-
  Induction on runs: a statement is reached through the runs
  of its bodies, a block through those of its statements.
-/
theorem ran_induction
    (script : List Stmt)
    {P : Path → Stmt → Session → Session → Prop}
    {Q : Path → Nat → List Stmt → Session → Session → Prop}
    (hStmt :
      ∀ path st s a b r s₁,
        StmtRan script path st s
            (s₁.finish path st.binding r) →
          Unfolds script path s a b st r s₁ →
            (∀ segment body, st.body? segment = some body →
              Q (path ++ [segment]) 0 body
                ((a segment).record (path ++ [segment])
                  .entered)
                (b segment)) →
              P path st s (s₁.finish path st.binding r))
    (hNil : ∀ path i s, s.Ready → Q path i [] s s)
    (hCons :
      ∀ path i st rest s s₁ s₂,
        StmtRan script (path ++ [.statement i]) st s s₁ →
          BlockRan script path (i + 1) rest s₁ s₂ →
            P (path ++ [.statement i]) st s s₁ →
              Q path (i + 1) rest s₁ s₂ →
                Q path i (st :: rest) s s₂) :
    (∀ st path s s', StmtRan script path st s s' →
      P path st s s') ∧
      ∀ block path i s s',
        BlockRan script path i block s s' →
          Q path i block s s' := by
  apply Stmt.induction
  · intro st hBodies path s s' hRan
    rcases hRan.unfolds with ⟨a, b, r, s₁, hUnfolds, hEnd⟩
    rw [hEnd] at hRan ⊢
    apply hStmt path st s a b r s₁ hRan hUnfolds
    intro segment body hBody
    exact hBodies body (Stmt.mem_bodies hBody) _ 0 _ _
      (hUnfolds.body hBody)
  · intro path i s s' hRan
    rw [hRan.nil]
    exact hNil path i s hRan.ready
  · intro st rest hFirst hRest path i s s' hRan
    rcases hRan.cons with ⟨s₁, hStmt, hBlock⟩
    exact hCons path i st rest s s₁ s' hStmt hBlock
      (hFirst _ s s₁ hStmt) (hRest path (i + 1) s₁ s' hBlock)

end FlowGraph.Script
