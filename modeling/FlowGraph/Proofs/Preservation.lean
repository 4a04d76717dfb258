import FlowGraph.Proofs.Choices

/-
  The machine does what statements mean.

  What a script names is never the gate of a function, from
  one statement to the next and into the bodies.  So by
  induction on runs the machine does from the cursor before a
  statement what the statement means.

  Key theorems include:
    * `FlowGraph.Script.Unfolds.sane`
    * `FlowGraph.Script.executes_ran`
-/

------------------------------------------------------------
-- Names In Bodies
------------------------------------------------------------

namespace FlowGraph.Script

variable {H : Nat → Prop}
variable {script block : List Stmt} {path : Path}
variable {st : Stmt} {i : Nat} {s s' s₁ : Session}

theorem StmtRan.sane
    (h : StmtRan script path st s s')
    (hClosed : st.every Stmt.closed = true)
    (hSane : s.Sane H) :
    s'.Sane H :=
  ((tidy_runStmt.1 st h.structured hClosed path H s
    hSane).of_ok h.ran).sane

theorem BlockRan.sane
    (h : BlockRan script path i block s s')
    (hClosed : everyIn Stmt.closed block = true)
    (hSane : s.Sane H) :
    s'.Sane H :=
  ((tidy_runStmt.2 block h.structured hClosed path i H s
    hSane).of_ok h.ran).sane

theorem BodyRan.sane
    {a b : Session}
    (h : BodyRan script path block a b)
    (hClosed : everyIn Stmt.closed block = true)
    (hSane : a.Sane H) :
    b.Sane H :=
  BlockRan.sane h hClosed
    (Session.follows_record hSane path .entered).sane

/- A node with usable arguments is placed. -/
theorem Session.follows_placed
    {n : Node}
    (hReady : s.Ready)
    (hSane : s.Sane H)
    (hExec : n.nodeClass = .exec)
    (hArgs :
      ∀ v ∈ n.args,
        v.Usable s.builder.graph (s.builder.Hidden H)) :
    s.Follows H (s.placed n) ∧
      Result.Usable H (s.placed n).builder
        (.node s.graph.nextId) := by
  have hPlace :=
    Builder.meets_place_usable hSane.builder hArgs
  rw [Builder.meets_place hReady.builder hExec] at hPlace
  exact ⟨Session.follows_withBuilder hSane hPlace.1,
    hPlace.2⟩

/- The condition of a conditional is usable. -/
theorem Stmt.Decides.usable
    {v : Value}
    {thenBody : List Stmt}
    {elseBody : Option (List Stmt)}
    (h : st.Decides s.names v thenBody elseBody)
    (hClosed : st.closed = true)
    (hSane : s.Sane H) :
    v.Usable s.builder.graph (s.builder.Hidden H) := by
  cases h with
  | ifThen hEval =>
      exact usable_eval hSane.names hClosed hEval
  | ifElse hEval =>
      exact usable_eval hSane.names hClosed hEval

/- A loop is placed, and the value of a round is usable. -/
theorem Stmt.Repeats.follows
    {bind : Binding}
    {n : Node}
    {value : Nat → Value}
    (h : st.Repeats s.names bind block n value)
    (hReady : s.Ready)
    (hClosed : st.closed = true)
    (hSane : s.Sane H) :
    s.Follows H (s.placed n) ∧
      Result.Usable H (s.placed n).builder
        (.node s.graph.nextId) ∧
        Result.Usable H (s.placed n).builder
          (.value (value s.graph.nextId)) := by
  cases h with
  | @range bind start stop body x y first last hStart hStop
      hFirst hLast =>
      rcases Bool.and_eq_true_iff.mp hClosed with
        ⟨hStartClosed, hStopClosed⟩
      have hArgs :
          ∀ v ∈ (rangeNode first last).args,
            v.Usable s.builder.graph (s.builder.Hidden H) :=
        List.forall_mem_cons.mpr
          ⟨usable_read
            (usable_argument hSane.names hStartClosed hStart)
            hFirst,
          List.forall_mem_singleton.mpr (usable_read
            (usable_argument hSane.names hStopClosed hStop)
            hLast)⟩
      have hOutput :
          (rangeNode first last).output? "current_loop_value"
              0 =
            some ⟨"current_loop_value", .int⟩ := rfl
      have hPlaced :=
        Session.follows_placed hReady hSane rfl hArgs
      exact ⟨hPlaced.1, hPlaced.2,
        usable_pin hPlaced.2.1 Graph.get?_attach_self
          hOutput⟩
  | @items bind list body v t hList hItem =>
      have hArgs :
          ∀ w ∈ (itemsNode v t).args,
            w.Usable s.builder.graph (s.builder.Hidden H) :=
        List.forall_mem_singleton.mpr
          (usable_eval hSane.names hClosed hList)
      have hOutput :
          (itemsNode v t).output? "iteration_value" 0 =
            some ⟨"iteration_value", t⟩ := rfl
      have hPlaced :=
        Session.follows_placed hReady hSane rfl hArgs
      exact ⟨hPlaced.1, hPlaced.2,
        usable_pin hPlaced.2.1 Graph.get?_attach_self
          hOutput⟩

variable {a b : Segment → Session} {r : Result}

/- A body of the same function finds usable names. -/
theorem Unfolds.sane
    (h : Unfolds script path s a b st r s₁)
    (hReady : s.Ready)
    (hClosed : st.every Stmt.closed = true)
    (hSane : s.Sane H)
    {segment : Segment}
    {body : List Stmt}
    (hBody : st.body? segment = some body)
    (hSame : segment ≠ .function) :
    (a segment).Sane H := by
  rcases (Stmt.every_iff st).mp hClosed with
    ⟨hSelf, hInner⟩
  cases h with
  | action hActs => cases hBody
  | function hStart hRan =>
      cases segment <;> cases hBody
      exact absurd rfl hSame
  | @conditional st v thenBody elseBody hDecides hFirst hThen
      hSecond hElseReady hElse =>
      have hPlaced :=
        Session.follows_placed (n := branchNode v) hReady
          hSane rfl (List.forall_mem_singleton.mpr
            (hDecides.usable hSelf hSane))
      have hStart : (a .thenBody).Sane H := by
        rw [hFirst]
        exact (Session.follows_withTail hPlaced.1.sane _).sane
      have hCases := hDecides.segment hBody
      rcases hCases with hEq | hEq
      · rw [hEq]
        exact hStart
      · have hEnd :=
          hThen.sane (hInner thenBody
            (Stmt.mem_bodies hDecides.bodies.1)) hStart
        rw [hEq, hSecond]
        exact (Session.follows_withTail hEnd _).sane
  | @switch bind control v cases default branches s₂ s₃ join
      hEval hAssembled hArms hBodies =>
      have hPlaced :=
        Session.follows_placed
          (n := switchNode v (preparedSwitch path cases default))
          hReady hSane rfl
          (usable_switchArgs
            (usable_eval hSane.names hSelf hEval)
            (preparedSwitch path cases default).labels)
      rcases arm_of_body? path hBody with ⟨hSegment, hArm⟩
      have hStart :=
        (hArms.induct (fun s => s.Sane H)
          (fun s tail hSane =>
            (Session.follows_withTail hSane tail).sane)
          ?_ hPlaced.1.sane).1 _ _ hArm
      · rw [hSegment] at hStart
        exact hStart
      · intro j run hRun hStart
        rcases body_preparedSwitch bind control hRun rfl with
          ⟨block, hBlock, _⟩
        exact (hBodies _ _ hBlock).sane
          (hInner block (Stmt.mem_bodies hBlock)) hStart
  | @loop st bind body n value hRepeats hStart hRan =>
      have hCases := hRepeats.segment hBody
      rcases hRepeats.follows hReady hSelf hSane with
        ⟨hPlaced, hNode, hValue⟩
      have hTail :=
        Session.follows_withTail hPlaced.sane
          [⟨s.graph.nextId, 0⟩]
      have hRound :
          (s.placed n).Follows H
            ((s.placed n).inRound s.graph.nextId) :=
        hTail.trans (Session.follows_onFrame hTail.sane rfl)
      rw [hCases, hStart]
      exact (follows_keepLoop hRound.sane
        (hNode.follows hPlaced.builder.sane hRound.builder)
        (hValue.follows hPlaced.builder.sane hRound.builder)
        bind).sane

end FlowGraph.Script

------------------------------------------------------------
-- Statements
------------------------------------------------------------

namespace FlowGraph.Script

open Machine

/- What a body means that may be missing. -/
def branchMeaning
    (answer : Nat → Nat)
    (path : Path) :
    Option (List Stmt) → Meaning
  | some body => blockMeaning answer path 0 body
  | none => .ends .done

variable {names : Names} {answer : Nat → Nat}
variable {path : Path} {st : Stmt}

theorem Stmt.Decides.meaning_eq
    {v : Value}
    {thenBody : List Stmt}
    {elseBody : Option (List Stmt)}
    (h : st.Decides names v thenBody elseBody) :
    meaning answer path st =
      (Meaning.asks answer fun k =>
        if k = 0 then
          branchMeaning answer (path ++ [.elseBody]) elseBody
        else
          blockMeaning answer (path ++ [.thenBody]) 0
            thenBody).visits path := by
  cases h with
  | ifThen hEval => rw [meaning, branchMeaning]
  | ifElse hEval => rw [meaning, branchMeaning]

theorem Stmt.Repeats.meaning_eq
    {bind : Binding}
    {body : List Stmt}
    {n : Node}
    {value : Nat → Value}
    (h : st.Repeats names bind body n value) :
    meaning answer path st =
      (Meaning.asks answer
        (blockMeaning answer (path ++ [.loopBody]) 0
          body).rounds).visits path := by
  cases h with
  | range _ _ _ _ => rw [meaning]
  | items _ _ => rw [meaning]

/- A branch without a body means nothing. -/
theorem ofArm_of_empty
    {cases : List (Label × Arm (List Stmt))}
    {default : Arm (List Stmt)}
    {j : Nat}
    (h :
      (preparedSwitch path cases default).arms[j]? =
        some .empty) :
    Meaning.ofArm
        (meantSwitch answer path cases default).arms[j]? =
      .ends .done := by
  rw [preparedSwitch_eq, arms_mapArms] at h
  rcases Option.map_eq_some_iff.mp h with ⟨arm, hArm, hEq⟩
  rw [meantSwitch_eq, arms_mapArms, hArm]
  cases arm with
  | body block => cases hEq
  | «alias» k => cases hEq
  | empty => rfl

/- A branch with a body means what its body means. -/
theorem ofArm_of_body
    {cases : List (Label × Arm (List Stmt))}
    {default : Arm (List Stmt)}
    {j : Nat}
    {run : Run Unit}
    (bind : Binding)
    (control : Operand)
    (h :
      (preparedSwitch path cases default).arms[j]? =
        some (.body run)) :
    ∃ body,
      (Stmt.switch bind control cases default).body?
          (armSegment j) = some body ∧
        Meaning.ofArm
            (meantSwitch answer path cases
              default).arms[j]? =
          blockMeaning answer (path ++ [armSegment j]) 0
            body := by
  rw [preparedSwitch_eq, arms_mapArms] at h
  rcases Option.map_eq_some_iff.mp h with ⟨arm, hArm, hEq⟩
  cases arm with
  | body block =>
      refine ⟨block, body?_of_arms bind control hArm, ?_⟩
      rw [meantSwitch_eq, arms_mapArms, hArm]
      rfl
  | «alias» k => cases hEq
  | empty => cases hEq

variable {H : Nat → Prop} {script : List Stmt}
variable {M : Machine} {N : Path → Option Nat}
variable {s s₁ : Session} {a b : Segment → Session}
variable {r : Result}

/- The loops around a body, by the places of their statements. -/
theorem Unfolds.map_loops
    (h : Unfolds script path s a b st r s₁)
    (hLoops :
      (loopsAround path).map N = s.frame.loops.map some)
    (hNode : ∀ id, r = .node id → N path = some id)
    {segment : Segment}
    {body : List Stmt}
    (hBody : st.body? segment = some body) :
    (loopsAround (path ++ [segment])).map N =
      (a segment).frame.loops.map some := by
  rw [loopsAround_append, h.loops_body hBody,
    Segment.map_loops, Segment.map_loops, hLoops,
    hNode _ (h.start hBody).1]

/-
  The machine does what a statement means if it does what the
  bodies of the statement mean.
-/
theorem Unfolds.executes
    (h : Unfolds script path s a b st r s₁)
    (hReady : s.Ready)
    (hSane : s.Sane H)
    (hPlain : PlainStmt M.graph N path st)
    (hLoops :
      (loopsAround path).map N = s.frame.loops.map some)
    (hClosed : st.closed = true)
    (hBodies :
      ∀ segment body, st.body? segment = some body →
        segment ≠ .function →
          Executes M N
            (blockMeaning M.answer (path ++ [segment]) 0 body)
            (a segment) (b segment))
    (hNode : ∀ id, r = .node id → N path = some id) :
    Executes M N (meaning M.answer path st) s s₁ := by
  cases h with
  | action hActs =>
      rw [meaning]
      exact executes_action hReady hPlain hLoops hActs hNode
  | function hStart hRan =>
      rw [meaning]
      exact executes_ends rfl
  | @conditional st v thenBody elseBody hDecides hFirst hThen
      hSecond hElseReady hElse =>
      have hBodies₁ :=
        hBodies .thenBody thenBody hDecides.bodies.1 (by simp)
      have hBodies₂ :
          Executes M N
            (branchMeaning M.answer (path ++ [.elseBody])
              elseBody)
            (a .elseBody) (b .elseBody) := by
        cases elseBody with
        | none =>
            rw [show b .elseBody = a .elseBody from hElse]
            exact executes_ends rfl
        | some body =>
            exact hBodies .elseBody body hDecides.bodies.2
              (by simp)
      have h₁ := hThen.leads
      have h₂ := hElse.leads hElseReady
      have hFresh := (hElse.onward hElseReady).fresh
      rw [hFirst] at h₁ hBodies₁
      rw [hSecond] at h₂ hBodies₂ hFresh
      rw [hDecides.meaning_eq]
      exact executes_conditional hReady hSane
        (hDecides.usable hClosed hSane) h₁ h₂ hFresh hBodies₁
        hBodies₂ (hNode _ rfl)
  | @switch bind control v cases default branches s₂ s₃ join
      hEval hAssembled hArms hRan =>
      rw [meaning, ← meantSwitch]
      have hLike :
          (meantSwitch M.answer path cases default).Like
            (preparedSwitch path cases default) :=
        like_meantSwitch.trans like_preparedSwitch.symm
      refine executes_switch hReady hLike
        (fun j => ofArm_of_empty) hAssembled hArms ?_ ?_
        (hNode _ rfl)
      · intro j run hRun
        rcases body_preparedSwitch bind control hRun rfl with
          ⟨body, hBody, _⟩
        exact (hRan _ body hBody).onward.fresh
      · intro j run hRun
        rcases ofArm_of_body bind control hRun with
          ⟨body, hBody, hMeaning⟩
        rw [hMeaning]
        refine hBodies _ body hBody ?_
        cases j <;> simp [armSegment]
  | loop hRepeats hStart hRan =>
      have hLeads := hRan.leads
      have hBody :=
        hBodies .loopBody _ hRepeats.body.1 (by simp)
      rw [hStart] at hLeads hBody
      rw [hRepeats.meaning_eq]
      exact executes_loop hReady hRepeats.body.2.1 hLeads
        (leads_rounds hReady hRepeats hLeads) hBody
        (fun m => enter_loopNode hRepeats m _) (hNode _ rfl)

/- The machine does what statements and blocks mean. -/
theorem executes_ran
    (script : List Stmt)
    (M : Machine)
    (N : Path → Option Nat) :
    (∀ st path s s', StmtRan script path st s s' →
      PlainStmt M.graph N path st →
        (loopsAround path).map N = s.frame.loops.map some →
          st.every Stmt.closed = true →
            ∀ H, s.Sane H →
              Executes M N (meaning M.answer path st) s s') ∧
      ∀ block path i s s', BlockRan script path i block s s' →
        PlainBlock M.graph N path i block →
          (loopsAround path).map N =
              s.frame.loops.map some →
            everyIn Stmt.closed block = true →
              ∀ H, s.Sane H →
                Executes M N
                  (blockMeaning M.answer path i block) s
                  s' := by
  apply ran_induction script
  · intro path st s a b r s₁ hRan hUnfolds hBodies hPlain
      hLoops hClosed H hSane
    rcases (Stmt.every_iff st).mp hClosed with
      ⟨hOperands, hInnerClosed⟩
    refine Executes.finish fun hNode =>
      hUnfolds.executes hRan.ready hSane hPlain hLoops
        hOperands ?_ hNode
    intro segment body hBody hSame
    have hStart :=
      hUnfolds.sane hRan.ready hClosed hSane hBody hSame
    exact (hBodies segment body hBody
      (hPlain.bodies segment body hBody hSame)
      (hUnfolds.map_loops hLoops hNode hBody)
      (hInnerClosed body (Stmt.mem_bodies hBody)) H
      (Session.follows_record hStart _ _).sane).of_builder rfl
  · intro path i s _ _ _ _ H _
    rw [blockMeaning]
    exact executes_ends rfl
  · intro path i st rest s s₁ s₂ hStmt hRest hFirst hOthers
      hPlain hLoops hClosed H hSane
    rcases everyIn_cons.mp hClosed with ⟨hClosed₁, hClosed₂⟩
    have hHere :
        (loopsAround (path ++ [.statement i])).map N =
          s.frame.loops.map some := by
      rw [loopsAround_append]
      exact hLoops
    have hNext :
        (loopsAround path).map N =
          s₁.frame.loops.map some := by
      rw [hLoops]
      exact congrArg (List.map some)
        hStmt.leads.builder.loops.symm
    rw [blockMeaning]
    exact (hFirst hPlain.head hHere hClosed₁ H hSane).andThen
      hStmt.leads hRest.leads
      (hOthers hPlain.tail hNext hClosed₂ H
        (hStmt.sane hClosed₁ hSane))

end FlowGraph.Script
