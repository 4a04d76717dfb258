import FlowGraph.Proofs.Breaks
import FlowGraph.Proofs.Functions

/-
  What is left of the rounds when loops are stopped.

  A loop that is stopped has no more rounds, but what follows
  it in the round of the next loop is still to be run.  So a
  break that stops several loops goes on with the rest of the
  round of each of them, one after the other, and only then
  with what follows the outermost.

  Key definitions include:
    * `FlowGraph.Script.restsIn`
    * `FlowGraph.Script.leaveRounds`
    * `FlowGraph.Script.Around`

  Key theorems include:
    * `FlowGraph.Script.Laid.find?`
    * `FlowGraph.Script.break_runs_rests`
-/

------------------------------------------------------------
-- Rests Of Rounds
------------------------------------------------------------

namespace FlowGraph.Script

open Meaning

/-
  The rest of a block: its place, the number of the next
  statement, and the statements.
-/
structure Rest where
  place : Path
  first : Nat
  block : List Stmt

/- What the rest of a block means. -/
def Rest.meaning
    (answer : Nat → Nat)
    (rest : Rest) :
    Meaning :=
  blockMeaning answer rest.place rest.first rest.block

/- Only plain statements are left. -/
def Rest.Plain
    (g : Graph)
    (N : Path → Option Nat)
    (rest : Rest) :
    Prop :=
  PlainBlock g N rest.place rest.first rest.block

/-
  What the rest of a round means: the rests of the blocks
  around a place, from the inside out.
-/
def roundMeaning
    (answer : Nat → Nat)
    (rests : List Rest) :
    Meaning :=
  rests.foldr (fun rest after => (rest.meaning answer).andThen after)
    (ends .done)

/-
  Leave rounds that are the last ones, from the inside out.
  However the rest of a round ends, the next one is left
  after it, unless it returns.
-/
def leaveRounds
    (answer : Nat → Nat) :
    List (List Rest) → Meaning
  | [] => ends .done
  | rests :: outer => fun asked =>
      match (roundMeaning answer rests asked).ending with
      | .returned => roundMeaning answer rests asked
      | _ =>
          (leaveRounds answer outer).after
            (roundMeaning answer rests asked)

/- The next round is left after the rest of this one. -/
theorem leaveRounds_cons
    {answer : Nat → Nat}
    {rests : List Rest}
    {asked : Nat}
    (h :
      (roundMeaning answer rests asked).ending ≠ .returned)
    (outer : List (List Rest)) :
    leaveRounds answer (rests :: outer) asked =
      (leaveRounds answer outer).after
        (roundMeaning answer rests asked) := by
  simp only [leaveRounds]

/- A return in the rest of a round ends all. -/
theorem leaveRounds_of_returned
    {answer : Nat → Nat}
    {rests : List Rest}
    {asked : Nat}
    (h : (roundMeaning answer rests asked).ending = .returned)
    (outer : List (List Rest)) :
    leaveRounds answer (rests :: outer) asked =
      roundMeaning answer rests asked := by
  simp only [leaveRounds, h]

/- There is more to run in the innermost round. -/
def addRest
    (rest : Rest) :
    List (List Rest) → List (List Rest)
  | [] => []
  | rests :: outer => (rest :: rests) :: outer

/-
  The rests of the rounds around a place of a block, from the
  inside out, where `around` are those around the block.
-/
def restsIn
    (place : Path)
    (i : Nat)
    (block : List Stmt)
    (around : List (List Rest)) :
    Path → List (List Rest)
  | [.statement j] =>
      addRest ⟨place, i + j + 1, block.drop (j + 1)⟩ around
  | .statement j :: segment :: below =>
      match block[j]?.bind fun s => s.body? segment with
      | some body =>
          restsIn (place ++ [.statement (i + j), segment]) 0
            body
            (segment.loops []
              (addRest ⟨place, i + j + 1, block.drop (j + 1)⟩
                around))
            below
      | none => []
  | _ => []

end FlowGraph.Script

------------------------------------------------------------
-- Statements In A Function
------------------------------------------------------------

namespace FlowGraph.Script

/-
  A statement has run at its place in a function, and the
  machine of the function is given what it has made.
-/
structure Placed
    (M : Machine)
    (N : Path → Option Nat)
    (script : List Stmt)
    (path : Path)
    (st : Stmt)
    (s s' : Session) :
    Prop where
  ran : StmtRan script path st s s'
  settled : Session.Settled M N s s'
  closed : st.every Stmt.closed = true
  sane : ∃ H, s.Sane H
  loops : (loopsAround path).map N = s.frame.loops.map some

/- The same for a block. -/
structure Laid
    (M : Machine)
    (N : Path → Option Nat)
    (script : List Stmt)
    (place : Path)
    (i : Nat)
    (block : List Stmt)
    (s s' : Session) :
    Prop where
  ran : BlockRan script place i block s s'
  settled : Session.Settled M N s s'
  closed : everyIn Stmt.closed block = true
  sane : ∃ H, s.Sane H
  loops : (loopsAround place).map N = s.frame.loops.map some

variable {M : Machine} {N : Path → Option Nat}
variable {script block : List Stmt} {place path : Path}
variable {st : Stmt} {i j : Nat} {s s' : Session}

/- A statement of a block, and the rest of the block. -/
theorem Laid.getElem?
    (h : Laid M N script place i block s s')
    (hj : block[j]? = some st) :
    ∃ s₁ s₂,
      Placed M N script (place ++ [.statement (i + j)]) st s₁
          s₂ ∧
        Laid M N script place (i + j + 1) (block.drop (j + 1))
          s₂ s' ∧
        s₂.frame.loops = s₁.frame.loops ∧
        s'.frame.loops = s₂.frame.loops := by
  induction block generalizing i j s with
  | nil => cases hj
  | cons first rest ih =>
      rcases h.ran.cons with ⟨s₁, hFirst, hRest⟩
      rcases everyIn_cons.mp h.closed with ⟨hClosed, hOthers⟩
      rcases h.sane with ⟨H, hSane⟩
      have hLoops : s₁.frame.loops = s.frame.loops :=
        hFirst.leads.builder.loops
      have hLaid :
          Laid M N script place (i + 1) rest s₁ s' :=
        ⟨hRest, h.settled.second hFirst.leads, hOthers,
          ⟨H, hFirst.sane hClosed hSane⟩, hLoops ▸ h.loops⟩
      cases j with
      | zero =>
          cases hj
          refine ⟨s, s₁, ⟨hFirst, h.settled.first hFirst.leads
            hRest.leads, hClosed, h.sane, ?_⟩, hLaid, hLoops,
            hRest.leads.builder.loops⟩
          rw [loopsAround_append]
          exact h.loops
      | succ j =>
          rw [show i + (j + 1) = i + 1 + j by omega]
          exact ih hLaid hj

/- What is journaled does not matter to the machine. -/
theorem Placed.unfolds
    (h : Placed M N script path st s s') :
    ∃ a b r s₁,
      Unfolds script path s a b st r s₁ ∧
        s' = s₁.finish path st.binding r ∧
        Session.Settled M N s s₁ ∧
        s₁.frame.loops = s.frame.loops ∧
        ∀ id, r = .node id → N path = some id := by
  rcases h.ran.unfolds with ⟨a, b, r, s₁, hUnfolds, hEnd⟩
  have hSettled := h.settled
  have hLoops : s'.frame.loops = s.frame.loops :=
    h.ran.leads.builder.loops
  rw [hEnd] at hSettled hLoops
  have hLater : s₁.Later (s₁.finish path st.binding r) :=
    Session.later_of_eq rfl rfl rfl (List.suffix_cons _ _)
  refine ⟨a, b, r, s₁, hUnfolds, hEnd,
    ⟨hSettled.final.earlier hLater, hSettled.links,
      hSettled.together⟩, hLoops, ?_⟩
  intro id hEq
  refine hSettled.final.yields ⟨path, s₁.builder, .finished r⟩
    List.mem_cons_self id ?_
  rw [hEq]
  rfl

/- The bodies of a statement, except that of a function. -/
theorem Placed.body
    (h : Placed M N script path st s s')
    {a b : Segment → Session}
    {r : Result}
    {s₁ : Session}
    (hUnfolds : Unfolds script path s a b st r s₁)
    (hSettled : Session.Settled M N s s₁)
    (hNode : ∀ id, r = .node id → N path = some id)
    {segment : Segment}
    {body : List Stmt}
    (hBody : st.body? segment = some body)
    (hSame : segment ≠ .function) :
    Laid M N script (path ++ [segment]) 0 body
      ((a segment).record (path ++ [segment]) .entered)
      (b segment) := by
  rcases h.sane with ⟨H, hSane⟩
  have hRan := hUnfolds.body hBody
  rcases hUnfolds.within h.ran.ready hBody hSame with
    ⟨hWithin, hShares⟩
  have hInner := hSettled.within hWithin hShares hRan.leads
  have hStart :=
    hUnfolds.sane h.ran.ready h.closed hSane hBody hSame
  refine ⟨hRan, ⟨hInner.final, hInner.links,
    hInner.together⟩, ?_, ⟨H,
      (Session.follows_record hStart _ _).sane⟩, ?_⟩
  · exact ((Stmt.every_iff st).mp h.closed).2 body
      (Stmt.mem_bodies hBody)
  · exact hUnfolds.map_loops h.loops hNode hBody

end FlowGraph.Script

------------------------------------------------------------
-- The End Of A Round
------------------------------------------------------------

namespace FlowGraph.Script

open Machine

/-
  The machine has come to the end of a round with a given
  effect.  The innermost loop may have been stopped.
-/
structure RoundEnded
    (N : Path → Option Nat)
    (m m' : State)
    (r : Effect) :
    Prop where
  next : m'.next = none
  asked : m'.asked = r.asked
  trace :
    m'.trace.map some = m.trace.map some ++ r.trace.map N
  ending :
    (r.ending ≠ .returned ∧
      (m'.stack = m.stack ∨ m'.stack = lastRound m.stack) ∧
        m'.raised = false) ∨
    (r.ending = .returned ∧ m'.raised = true)

/- From a cursor the machine runs the rest of the round. -/
def EndsRound
    (M : Machine)
    (N : Path → Option Nat)
    (f : Meaning)
    (s : Session) :
    Prop :=
  ∀ m, s.Poised M m →
    ∃ m', M.Reaches m m' ∧ RoundEnded N m m' (f m.asked)

variable {M : Machine} {N : Path → Option Nat}
variable {f g : Meaning} {s s' : Session}

/- The rest of a block comes before the rest of the round. -/
theorem EndsRound.andThen
    (hf : Executes M N f s s')
    (hSettled : Session.Settled M N s s')
    (hLoops : s'.frame.loops = s.frame.loops)
    (hg : EndsRound M N g s') :
    EndsRound M N (f.andThen g) s := by
  intro m hPoised
  rcases hf hSettled m hPoised with
    ⟨m₁, hReach, hAsked, hTrace, hLands⟩
  unfold Meaning.andThen
  cases hEnding : (f m.asked).ending with
  | done =>
      rw [hEnding] at hLands
      rcases hLands with ⟨hNext, hStack, hDown⟩
      have hStart : s'.Poised M m₁ :=
        ⟨hNext, by rw [hStack, hPoised.loops, hLoops], hDown⟩
      rcases hg m₁ hStart with ⟨m₂, hReach', hEnded⟩
      rw [hAsked] at hEnded
      refine ⟨m₂, hReach.trans hReach', hEnded.next,
        hEnded.asked, ?_, ?_⟩
      · rw [hEnded.trace, hTrace, List.append_assoc,
          ← List.map_append]
        rfl
      · rw [← hStack]
        exact hEnded.ending
  | continued =>
      rw [hEnding] at hLands
      rcases hLands with ⟨hNext, hStack, hDown, -⟩
      exact ⟨m₁, hReach, hNext, hAsked, hTrace,
        Or.inl ⟨by simp [hEnding], Or.inl hStack, hDown⟩⟩
  | broken =>
      rw [hEnding] at hLands
      rcases hLands with ⟨hNext, hStack, hDown, -⟩
      exact ⟨m₁, hReach, hNext, hAsked, hTrace,
        Or.inl ⟨by simp [hEnding], Or.inr hStack, hDown⟩⟩
  | returned =>
      rw [hEnding] at hLands
      rcases hLands with ⟨hNext, -, hRaised, -⟩
      exact ⟨m₁, hReach, hNext, hAsked, hTrace,
        Or.inr ⟨hEnding, hRaised⟩⟩

/- Where the flow goes on, the rest of the round is the same. -/
theorem EndsRound.joined
    (h : EndsRound M N f s')
    (hTail : ∀ e ∈ s.frame.tail, e ∈ s'.frame.tail)
    (hLoops : s'.frame.loops = s.frame.loops) :
    EndsRound M N f s := by
  intro m hPoised
  rcases hPoised.next with ⟨e, he, hNext⟩
  exact h m ⟨⟨e, hTail e he, hNext⟩,
    hPoised.loops.trans hLoops.symm, hPoised.down⟩

/- At the end of the body of a loop nothing is left. -/
theorem endsRound_of_open
    (hOpen : ∀ e ∈ s.frame.tail, M.graph.execTarget e = none) :
    EndsRound M N (.ends .done) s := by
  intro m hPoised
  rcases hPoised.next with ⟨e, he, hNext⟩
  exact ⟨m, .refl, hNext.trans (hOpen e he), rfl,
    by simp [Meaning.ends],
    Or.inl ⟨nofun, Or.inl rfl, hPoised.down⟩⟩

end FlowGraph.Script

------------------------------------------------------------
-- Loops That Are Left
------------------------------------------------------------

namespace FlowGraph.Script

open Machine

/-
  The machine has left a loop with a given effect, and is at
  its second exec output.  If it has met a return on the way
  then the chain has ended there.
-/
structure Left
    (M : Machine)
    (N : Path → Option Nat)
    (id : Nat)
    (around : List (Nat × Nat))
    (m m' : State)
    (r : Effect) :
    Prop where
  asked : m'.asked = r.asked
  trace :
    m'.trace.map some = m.trace.map some ++ r.trace.map N
  ending :
    (r.ending = .done ∧ m'.next = M.follow id 1 ∧
      m'.stack = around ∧ m'.raised = false) ∨
    (r.ending = .returned ∧ m'.next = none ∧ m'.raised = true)

/- Loops without a round left. -/
def stopped
    (loops : List Nat) :
    List (Nat × Nat) :=
  loops.map fun id => (id, 0)

@[simp] theorem map_fst_stopped
    (loops : List Nat) :
    (stopped loops).map Prod.fst = loops := by
  induction loops with
  | nil => rfl
  | cons id rest ih => exact congrArg (id :: ·) ih

/-
  At the end of a round, the machine leaves as many loops as
  have no round left, and runs the rests of the rounds.
-/
def Leaves
    (M : Machine)
    (N : Path → Option Nat)
    (loops : List Nat)
    (rests : List (List Rest)) :
    Prop :=
  ∀ inner id around m,
    loops = inner ++ id :: around.map Prod.fst →
      m.stack = stopped inner ++ (id, 0) :: around →
        m.next = none → m.raised = false →
          (∀ left ∈ rests.take inner.length,
            ∀ rest ∈ left, rest.Plain M.graph N) →
            ∃ m', M.Reaches m m' ∧
              Left M N id around m m'
                (leaveRounds M.answer
                  (rests.take inner.length) m.asked)

/-
  What the machine does after a statement, given the rests of
  the rounds around it.
-/
def Around
    (M : Machine)
    (N : Path → Option Nat)
    (s : Session) :
    List (List Rest) → Prop
  | [] => s.frame.loops = []
  | rests :: outer =>
      ((∀ rest ∈ rests, rest.Plain M.graph N) →
        EndsRound M N (roundMeaning M.answer rests) s) ∧
        Leaves M N s.frame.loops outer

variable {M : Machine} {N : Path → Option Nat}
variable {script block : List Stmt} {place path : Path}
variable {st : Stmt} {i : Nat} {s s' : Session}
variable {rests : List (List Rest)}

/- After a statement of a block comes the rest of the block. -/
theorem Around.rest
    (h : Around M N s' rests)
    (hLaid : Laid M N script place i block s s')
    (hLoops : s'.frame.loops = s.frame.loops) :
    Around M N s (addRest ⟨place, i, block⟩ rests) := by
  cases rests with
  | nil => exact hLoops.symm.trans h
  | cons own outer =>
      rcases h with ⟨hEnds, hLeaves⟩
      refine ⟨?_, hLoops ▸ hLeaves⟩
      intro hPlain
      rcases List.forall_mem_cons.mp hPlain with ⟨hHere, hOwn⟩
      rcases hLaid.sane with ⟨H, hSane⟩
      have hBlock :
          Executes M N (blockMeaning M.answer place i block) s
            s' :=
        (executes_ran script M N).2 _ _ _ _ _ hLaid.ran hHere
          hLaid.loops hLaid.closed H hSane
      exact .andThen hBlock hLaid.settled hLoops (hEnds hOwn)

/- A branch goes on where its statement does. -/
theorem Around.joined
    (h : Around M N s' rests)
    (hTail : ∀ e ∈ s.frame.tail, e ∈ s'.frame.tail)
    (hLoops : s'.frame.loops = s.frame.loops) :
    Around M N s rests := by
  cases rests with
  | nil => exact hLoops.symm.trans h
  | cons own outer =>
      exact ⟨fun hPlain => (h.1 hPlain).joined hTail hLoops,
        hLoops ▸ h.2⟩

/- Once its rounds are over, a loop leads to what follows. -/
theorem Placed.after_rounds
    (h : Placed M N script path st s s')
    {a b : Segment → Session}
    {r : Result}
    {s₁ : Session}
    {body : List Stmt}
    (hUnfolds : Unfolds script path s a b st r s₁)
    (hSettled : Session.Settled M N s s₁)
    (hSame : s₁.frame.loops = s.frame.loops)
    (hBody : st.body? .loopBody = some body)
    {m : State}
    (hNext : m.next = M.follow s.graph.nextId 1)
    (hLoops : m.stack.map Prod.fst = s.frame.loops)
    (hDown : m.raised = false) :
    ∃ m', M.Reaches m m' ∧ m'.asked = m.asked ∧
      m'.trace = m.trace ∧ m'.stack = m.stack ∧
        s₁.Poised M m' := by
  rcases hUnfolds.afterLoop hBody with
    ⟨_, _, _, hRepeats, hStart, -, hAfterLoop⟩
  have hLeads := (hUnfolds.body hBody).leads
  rw [hStart] at hLeads
  have hAfter := leads_rounds h.ran.ready hRepeats hLeads
  rw [hAfterLoop] at hSettled hSame ⊢
  have hRounded :
      Rounded M N (a .loopBody) (b .loopBody) s.graph.nextId
        m.stack m m ⟨.done, m.asked, []⟩ :=
    ⟨hNext, rfl, by simp, Or.inl ⟨rfl, rfl, hDown⟩⟩
  rcases reaches_afterLoop hAfter hSettled hRounded
        (by rw [hStart]; rfl) with
    ⟨m', hReach, hAsked, hTrace, hOn, hStack, hStill⟩
  exact ⟨m', hReach, hAsked, hTrace, hStack, hOn,
    by rw [hStack, hLoops, hSame], hStill⟩

/- The innermost loop is stopped only once. -/
theorem lastRound_stopped
    (inner : List Nat)
    (id : Nat)
    (around : List (Nat × Nat)) :
    lastRound (stopped inner ++ (id, 0) :: around) =
      stopped inner ++ (id, 0) :: around := by
  cases inner <;> rfl

/- The rounds of a loop are left before those around it. -/
theorem Around.leaves
    (h : Around M N s rests)
    {loop : Nat}
    (hAfter :
      ∀ m, m.next = M.follow loop 1 →
        m.stack.map Prod.fst = s.frame.loops →
          m.raised = false →
            ∃ m', M.Reaches m m' ∧ m'.asked = m.asked ∧
              m'.trace = m.trace ∧ m'.stack = m.stack ∧
                s.Poised M m') :
    Leaves M N (loop :: s.frame.loops) rests := by
  intro inner id around m hLoops hStack hNext hDown hPlain
  cases inner with
  | nil =>
      rcases List.cons.inj hLoops with ⟨rfl, -⟩
      refine ⟨_, reaches_resume hNext hStack, rfl, ?_,
        Or.inl ⟨rfl, rfl, rfl, hDown⟩⟩
      simp [resume, State.withStack, State.goto, leaveRounds,
        Meaning.ends]
  | cons next inner =>
      rcases List.cons.inj hLoops with ⟨rfl, hOuter⟩
      cases rests with
      | nil =>
          rw [show s.frame.loops = [] from h] at hOuter
          simp at hOuter
      | cons own outer =>
          rcases h with ⟨hEnds, hLeaves⟩
          rw [List.length_cons, List.take_succ_cons] at hPlain ⊢
          rcases List.forall_mem_cons.mp hPlain with
            ⟨hOwn, hOthers⟩
          have hResume := reaches_resume (M := M) hNext hStack
          have hOver :
              ((m.withStack (stopped inner ++
                (id, 0) :: around)).goto
                  (M.follow loop 1)).stack.map Prod.fst =
                s.frame.loops := by
            rw [hOuter]
            simp [State.withStack, State.goto]
          rcases hAfter _ rfl hOver hDown with
            ⟨m₁, hReach₁, hAsked, hTrace, hSame, hPoised⟩
          rcases hEnds hOwn m₁ hPoised with ⟨m₂, hReach₂, hEnded⟩
          have hReach :=
            hResume.trans (hReach₁.trans hReach₂)
          rw [show m₁.asked = m.asked from hAsked] at hEnded
          have hSeen := hEnded.trace
          rw [show m₁.trace = m.trace from hTrace] at hSeen
          rcases hEnded.ending with
            ⟨hNot, hStack₂, hDown₂⟩ | ⟨hReturned, hRaised⟩
          · have hStill :
                m₂.stack =
                  stopped inner ++ (id, 0) :: around := by
              rcases hStack₂ with hKept | hLast
              · exact hKept.trans hSame
              · rw [hLast, hSame]
                exact lastRound_stopped inner id around
            rcases hLeaves inner id around m₂ hOuter hStill
                  hEnded.next hDown₂ hOthers with
              ⟨m₃, hReach₃, hLeft⟩
            rw [hEnded.asked] at hLeft
            rw [leaveRounds_cons hNot]
            refine ⟨m₃, hReach.trans hReach₃, hLeft.asked, ?_,
              hLeft.ending⟩
            rw [hLeft.trace, hSeen, List.append_assoc,
              ← List.map_append]
            rfl
          · rw [leaveRounds_of_returned hReturned]
            exact ⟨m₂, hReach, hEnded.asked, hSeen,
              Or.inr ⟨hReturned, hEnded.next, hRaised⟩⟩

/- The end of a branch is the end of its statement. -/
theorem Unfolds.joins
    {a b : Segment → Session}
    {r : Result}
    {s₁ : Session}
    (h : Unfolds script path s a b st r s₁)
    (hReady : s.Ready)
    {segment : Segment}
    {body : List Stmt}
    (hBody : st.body? segment = some body)
    (hSame : segment ≠ .function)
    (hOnce : segment ≠ .loopBody) :
    ∀ e ∈ (b segment).frame.tail, e ∈ s₁.frame.tail := by
  intro e he
  cases h with
  | action hActs => cases hBody
  | function hStart hRan =>
      cases segment <;> cases hBody
      exact absurd rfl hSame
  | conditional hDecides hFirst hThen hSecond hElseReady
      hElse =>
      have hCases := hDecides.segment hBody
      apply (mem_join_two e).mpr
      rcases hCases with hEq | hEq
      · exact Or.inl (hEq ▸ he)
      · exact Or.inr (hEq ▸ he)
  | switch hEval hAssembled hArms hBodies =>
      rcases arm_of_body? path hBody with ⟨hSegment, hArm⟩
      have hTaken := hArms.bodies _ _ hArm
      rw [hSegment, Nat.zero_add] at hTaken
      exact (hAssembled.within hReady hTaken).2 e he
  | loop hRepeats hStart hRan =>
      cases hRepeats <;> cases segment <;> cases hBody
      · exact absurd rfl hOnce
      · exact absurd rfl hOnce

/- What the body of a loop leaves open stays open. -/
theorem Unfolds.dropped
    {a b : Segment → Session}
    {r : Result}
    {s₁ : Session}
    {body : List Stmt}
    (h : Unfolds script path s a b st r s₁)
    (hReady : s.Ready)
    (hSettled : Session.Settled M N s s₁)
    (hBody : st.body? .loopBody = some body) :
    ∀ e ∈ (b .loopBody).frame.tail,
      M.graph.execTarget e = none := by
  rcases h.within hReady hBody nofun with ⟨hWithin, hShares⟩
  rcases h.afterLoop hBody with
    ⟨_, _, _, hRepeats, hStart, -, hAfterLoop⟩
  have hLeads := (h.body hBody).leads
  have hInner := hLeads
  rw [hStart] at hInner
  have hDropped :=
    (within_loop hReady hRepeats.body.2.1 hInner
      (leads_rounds hReady hRepeats hInner).ready).2
  rw [← hAfterLoop] at hDropped
  intro e he
  exact hSettled.dropped (hWithin.encloses hShares) hLeads he
    (hDropped e he)

/- The rests of the rounds around the body of a statement. -/
theorem Placed.around_body
    (h : Placed M N script path st s s')
    (hAround : Around M N s' rests)
    {segment : Segment}
    {body : List Stmt}
    (hBody : st.body? segment = some body)
    (hSame : segment ≠ .function) :
    ∃ a b,
      Laid M N script (path ++ [segment]) 0 body a b ∧
        Around M N b (segment.loops [] rests) := by
  rcases h.unfolds with
    ⟨a, b, r, s₁, hUnfolds, hEnd, hSettled, hLoops, hNode⟩
  have hLaid := h.body hUnfolds hSettled hNode hBody hSame
  have hInside :
      (b segment).frame.loops =
        segment.loops s.graph.nextId s.frame.loops :=
    hLaid.ran.leads.builder.loops.trans
      (hUnfolds.loops_body hBody)
  have hAfter : Around M N s₁ rests := by
    rw [hEnd] at hAround
    exact hAround.joined (fun e he => he) rfl
  refine ⟨_, _, hLaid, ?_⟩
  by_cases hOnce : segment = .loopBody
  · subst hOnce
    refine ⟨fun _ => endsRound_of_open
      (hUnfolds.dropped h.ran.ready hSettled hBody), ?_⟩
    rw [hInside]
    show Leaves M N (s.graph.nextId :: s.frame.loops) rests
    rw [← hLoops]
    exact hAfter.leaves fun m hNext hStack hDown =>
      h.after_rounds hUnfolds hSettled hLoops hBody hNext
        (hStack.trans hLoops) hDown
  · have hKept :
        segment.loops s.graph.nextId s.frame.loops =
          s.frame.loops := by
      cases segment <;> simp_all [Segment.loops]
    have hRests : segment.loops [] rests = rests := by
      cases segment <;> simp_all [Segment.loops]
    rw [hRests]
    exact hAfter.joined
      (hUnfolds.joins h.ran.ready hBody hSame hOnce)
      (hLoops.trans (hInside.trans hKept).symm)

end FlowGraph.Script

------------------------------------------------------------
-- Places In A Function
------------------------------------------------------------

namespace FlowGraph.Script

variable {M : Machine} {N : Path → Option Nat}
variable {script block : List Stmt} {place below : Path}
variable {st : Stmt} {i : Nat} {s s' : Session}
variable {rests : List (List Rest)}

/-
  A statement below a block has run at its place, and the
  rests of the rounds around it are known.
-/
theorem Laid.find?
    (h : Laid M N script place i block s s')
    (hAround : Around M N s' rests)
    (hFind : Script.find? block below = some st)
    (hSame : Segment.function ∉ below) :
    ∃ s₁ s₂,
      Placed M N script (place ++ placeFrom i below) st s₁
          s₂ ∧
        s₂.frame.loops = s₁.frame.loops ∧
        Around M N s₂
          (restsIn place i block rests below) := by
  fun_induction Script.find? block below
    generalizing place i s s' rests with
  | case1 block j =>
      rcases h.getElem? hFind with
        ⟨s₁, s₂, hPlaced, hRest, hLoops, hOn⟩
      exact ⟨s₁, s₂, hPlaced, hLoops, hAround.rest hRest hOn⟩
  | case2 block j segment below body hBody ih =>
      rcases Option.bind_eq_some_iff.mp hBody with
        ⟨st', hSt, hInner⟩
      rcases h.getElem? hSt with
        ⟨s₁, s₂, hPlaced, hRest, hLoops, hOn⟩
      have hOther : segment ≠ .function := by
        rintro rfl
        exact hSame (by simp)
      rcases hPlaced.around_body (hAround.rest hRest hOn) hInner
            hOther with
        ⟨a, b, hLaid, hBodyAround⟩
      rcases ih hLaid hBodyAround hFind
            (fun hMem => hSame (by simp [hMem])) with
        ⟨s₃, s₄, hFound⟩
      refine ⟨s₃, s₄, ?_⟩
      rw [placeFrom_zero] at hFound
      rw [restsIn, hBody]
      simpa only [placeFrom, List.append_assoc,
        List.cons_append, List.nil_append] using hFound
  | case3 block j segment below hNone => cases hFind
  | case4 block below hOne hMore => cases hFind

end FlowGraph.Script

------------------------------------------------------------
-- Breaks Of Several Loops
------------------------------------------------------------

namespace FlowGraph.Machine

/- The loops that are named are stopped, and no others. -/
theorem stop_named
    {listed : List Value}
    (named around : List (Nat × Nat))
    (h :
      listed.Perm ((named.map Prod.fst).map loopValue)) :
    stop listed (named ++ around) =
      Script.stopped (named.map Prod.fst) ++ around := by
  induction named generalizing listed with
  | nil =>
      rw [List.Perm.eq_nil h]
      exact stop_nil around
  | cons loop rest ih =>
      have hMem : loopValue loop.1 ∈ listed :=
        h.symm.subset List.mem_cons_self
      have hRest := (List.cons_perm_iff_perm_erase.mp h.symm).2
      rw [List.cons_append, stop, if_pos hMem,
        ih hRest.symm]
      rfl

end FlowGraph.Machine

namespace FlowGraph.Script

open Machine

variable {script : List Stmt} {path : Path}

/- The body of a function, for its machine. -/
theorem FunctionBody.Built.laid
    {f : FunctionBody}
    {entry : Nat}
    {a b z : Session}
    (h : f.Built script entry a b z)
    (hNodup : (z.journal.map Entry.path).Nodup)
    (hPlace : loopsAround f.place = [])
    (answer : Nat → Nat) :
    Laid (z.machine f answer) z.nodeAt script f.place f.first
      f.block a b := by
  refine ⟨h.ran, h.settled hNodup answer, h.operands, h.sane,
    ?_⟩
  rw [hPlace, h.frame]
  rfl

/- A break stops the loops that it names. -/
theorem enter_break
    {M : Machine}
    {m : State}
    {targets : List Nat}
    {inner around : List (Nat × Nat)}
    {outermost left : Nat}
    (hDown : m.raised = false)
    (hStack : m.stack = inner ++ (outermost, left) :: around)
    (hNamed :
      targets.Perm (inner.map Prod.fst ++ [outermost]))
    (id : Nat) :
    M.enter m id (Builder.breakNode targets) =
      ((m.visit id).withStack
        (stopped (inner.map Prod.fst) ++
          (outermost, 0) :: around)).goto none := by
  have hStop :
      stop (targets.map loopValue) m.stack =
        stopped (inner.map Prod.fst) ++
          (outermost, 0) :: around := by
    rw [hStack, List.append_cons,
      stop_named (inner ++ [(outermost, left)]) around
        (by simpa using hNamed.map loopValue)]
    simp [stopped]
  rw [← hStop]
  simp only [enter, Builder.breakNode, hDown]
  rfl

/- The node that a break has made. -/
theorem Placed.break_node
    {M : Machine}
    {N : Path → Option Nat}
    {bind : Binding}
    {refs : List NodeRef}
    {s s' : Session}
    (h :
      Placed M N script path (.action bind (.breakLoop refs)) s
        s') :
    ∃ id, N path = some id ∧
      ∃ targets,
        M.graph.nodes.get? id =
          some (Builder.breakNode targets) := by
  rcases h.unfolds with
    ⟨a, b, r, s₁, hUnfolds, -, hSettled, -, hNode⟩
  cases hUnfolds with
  | action hActs =>
      cases hActs with
      | @breaks _ _ targets _ _ =>
          exact ⟨_, hNode _ rfl, targets,
            hSettled.final.nodes Graph.get?_attach_self⟩
      | rests hData | adds hData => cases hData
      | places hCall => cases hCall
  | conditional hDecides => cases hDecides
  | loop hRepeats => cases hRepeats

/-
  The break of a function has a node.  Let the machine be
  about to enter it, inside of the loops around it and with
  the gate down, and let it name some of these loops, from
  the innermost to one of the outer ones.  Then none of them
  has another round, and the machine goes on at the second
  exec output of the innermost.  It leaves the loops one
  after the other, and runs the rests of the rounds of all
  of them but the innermost.  Only then it goes on after the
  outermost one, unless it meets a return on the way.
-/
theorem break_runs_rests
    (name : String)
    (config : Config)
    (script : List Stmt)
    (hScript : structured script = true)
    (hClosed : closed script = true)
    (hOk :
      ∀ e ∈ (run name config script).entries,
        e.event.isFailure = false)
    (path : Path)
    (f : FunctionBody)
    (hBody : functionBody? script path = some f)
    (below : Path)
    (bind : Binding)
    (refs : List NodeRef)
    (hFind :
      find? f.block below =
        some (.action bind (.breakLoop refs)))
    (hSame : Segment.function ∉ below)
    (answer : Nat → Nat) :
    ∃ id,
      (run name config script).nodeAt
          (f.place ++ placeFrom f.first below) = some id ∧
        (∃ targets,
          (run name config script).graph.nodes.get? id =
            some (Builder.breakNode targets)) ∧
        ∀ targets (m : State) inner outermost left around,
          (run name config script).graph.nodes.get? id =
            some (Builder.breakNode targets) →
          m.next = some id →
          m.raised = false →
          m.stack = inner ++ (outermost, left) :: around →
          (m.stack.map Prod.fst).map some =
            (loopsAround
                (f.place ++ placeFrom f.first below)).map
              (run name config script).nodeAt →
          targets.Perm (inner.map Prod.fst ++ [outermost]) →
            (∀ loop others,
              stopped (inner.map Prod.fst) ++
                  (outermost, 0) :: around =
                (loop, 0) :: others →
                ((run name config script).machine f
                  answer).Reaches m
                    (((m.visit id).withStack others).goto
                      (((run name config script).machine f
                        answer).follow loop 1))) ∧
              ((∀ rests ∈
                  (restsIn f.place f.first f.block []
                    below).tail.take inner.length,
                ∀ rest ∈ rests,
                  rest.Plain (run name config script).graph
                    (run name config script).nodeAt) →
                ∃ m' r,
                  r =
                      leaveRounds answer
                        ((restsIn f.place f.first f.block []
                          below).tail.take inner.length)
                        m.asked ∧
                    ((run name config script).machine f
                      answer).Reaches m m' ∧
                    m'.asked = r.asked ∧
                    m'.trace.map some =
                      m.trace.map some ++ some id ::
                        r.trace.map
                          (run name config script).nodeAt ∧
                    (r.ending = .done ∧
                        m'.next =
                          ((run name config script).machine f
                            answer).follow outermost 1 ∧
                        m'.stack = around ∧
                        m'.raised = false ∨
                      r.ending = .returned ∧
                        m'.next = none ∧
                        m'.raised = true)) := by
  have hNodup := nodup_journal name config script
  rcases function_built hScript hClosed hOk hBody with
    ⟨script', entry, a, b, -, hBuilt⟩
  have hLaid :=
    hBuilt.laid hNodup (loopsAround_functionBody? hBody) answer
  have hOutside :
      Around ((run name config script).machine f answer)
        (run name config script).nodeAt b [] := by
    have hKept : b.frame.loops = a.frame.loops :=
      hBuilt.ran.leads.builder.loops
    rw [Around, hKept, hBuilt.frame]
    rfl
  rcases hLaid.find? hOutside hFind hSame with
    ⟨s₁, s₂, hPlaced, hSameLoops, hAround⟩
  rcases hPlaced.break_node with ⟨id, hNode, hMade⟩
  refine ⟨id, hNode, hMade, ?_⟩
  intro targets m inner outermost left around hBreak hNext
    hDown hStack hLoops hNamed
  have hIds : s₂.frame.loops = m.stack.map Prod.fst :=
    hSameLoops.trans
      ((List.map_inj_right fun _ _ => Option.some.inj).mp
        (hPlaced.loops.symm.trans hLoops.symm))
  have hEnter :
      ((run name config script).machine f answer).Reaches m
        (((run name config script).machine f answer).enter m id
          (Builder.breakNode targets)) :=
    reaches_enter hNext hBreak
  rw [enter_break hDown hStack hNamed id] at hEnter
  refine ⟨?_, ?_⟩
  · intro loop others hStopped
    rw [hStopped] at hEnter
    have hResume :
        ((run name config script).machine f answer).Reaches
          (((m.visit id).withStack ((loop, 0) :: others)).goto
            none)
          (((run name config script).machine f answer).resume
            _ loop others 0) :=
      reaches_resume rfl rfl
    exact hEnter.trans hResume
  · intro hPlain
    cases hRests :
        restsIn f.place f.first f.block [] below with
    | nil =>
        rw [hRests, Around, hIds, hStack] at hAround
        simp at hAround
    | cons own outer =>
        rw [hRests] at hAround hPlain
        rcases hAround.2 (inner.map Prod.fst) outermost around
              (((m.visit id).withStack
                (stopped (inner.map Prod.fst) ++
                  (outermost, 0) :: around)).goto none)
              (by rw [hIds, hStack]; simp) rfl rfl hDown
              (by rw [List.length_map]; exact hPlain) with
          ⟨m', hReach, hLeft⟩
        rw [List.length_map] at hLeft
        refine ⟨m', _, rfl, hEnter.trans hReach, hLeft.asked,
          ?_, hLeft.ending⟩
        rw [hLeft.trace]
        show (m.trace ++ [id]).map some ++ _ = _
        rw [List.map_append, List.append_assoc]
        rfl

/- Two loops.  A break in the inner one names both. -/
def brokenLoops : List Stmt :=
  [.action .none (.beginFunction "start"),
    .forRange ⟨none, some "outer"⟩ (.literal (.int 0))
      (.literal (.int 2))
      [.forRange ⟨none, some "inner"⟩ (.literal (.int 0))
        (.literal (.int 2))
        [.action .none
          (.breakLoop [.name "inner", .name "outer"])],
        .action .none (.print (.literal (.str "after")))]]

/-
  The break stops both loops.  Still the machine enters the
  print that follows the inner one, before it has left the
  outer one.
-/
theorem print_follows_break :
    structured brokenLoops = true ∧
      closed brokenLoops = true ∧
      (∀ e ∈ (run "demo" .default brokenLoops).entries,
        e.event.isFailure = false) ∧
      functionBody? brokenLoops [.statement 0] =
        some ⟨[], 1, brokenLoops.drop 1⟩ ∧
      (run "demo" .default brokenLoops).nodeAt
          [.statement 1, .loopBody, .statement 0, .loopBody,
            .statement 0] = some 4 ∧
      (run "demo" .default brokenLoops).nodeAt
          [.statement 1, .loopBody, .statement 1] = some 5 ∧
      ∃ m m',
        ((run "demo" .default brokenLoops).machine
            ⟨[], 1, brokenLoops.drop 1⟩ fun _ => 3).Reaches
          (.start (some 1)) m ∧
          m.next = some 4 ∧
          m.stack = [(3, 2), (2, 2)] ∧
          m.trace = [1, 2, 3] ∧
          ((run "demo" .default brokenLoops).machine
              ⟨[], 1, brokenLoops.drop 1⟩ fun _ => 3).Reaches
            m m' ∧
          m'.next =
            ((run "demo" .default brokenLoops).machine
              ⟨[], 1, brokenLoops.drop 1⟩
                fun _ => 3).follow 2 1 ∧
          m'.stack = [] ∧
          m'.trace = [1, 2, 3, 4, 5] := by
  have hScript : structured brokenLoops = true := by
    decide
  have hClosed : closed brokenLoops = true := by
    decide
  have hOk :
      ∀ e ∈ (run "demo" .default brokenLoops).entries,
        e.event.isFailure = false := by
    decide +kernel
  have hBreak :
      (run "demo" .default brokenLoops).nodeAt
          [.statement 1, .loopBody, .statement 0, .loopBody,
            .statement 0] = some 4 := by
    decide +kernel
  have hPrint :
      (run "demo" .default brokenLoops).nodeAt
          [.statement 1, .loopBody, .statement 1] =
        some 5 := by
    decide +kernel
  have hLoops :
      ([3, 2] : List Nat).map some =
        (loopsAround
            [.statement 1, .loopBody, .statement 0, .loopBody,
              .statement 0]).map
          (run "demo" .default brokenLoops).nodeAt := by
    decide +kernel
  have hNode :
      (run "demo" .default brokenLoops).graph.nodes.get? 4 =
        some (Builder.breakNode [3, 2]) := by
    decide +kernel
  have hStart :
      ((run "demo" .default brokenLoops).machine
          ⟨[], 1, brokenLoops.drop 1⟩ fun _ => 3).run 5
          (.start (some 1)) =
        ⟨some 4, [(3, 2), (2, 2)], false, 2, [1, 2, 3]⟩ := by
    decide +kernel
  have hUnnamed :
      ∀ rests ∈
          ((restsIn [] 1 (brokenLoops.drop 1) []
            [.statement 0, .loopBody, .statement 0, .loopBody,
              .statement 0]).tail.take 1),
        ∀ rest ∈ rests,
          everyIn Stmt.plain rest.block = true ∧
            everyIn Stmt.unnamed rest.block = true := by
    decide
  have hPlain :
      ∀ rests ∈
          ((restsIn [] 1 (brokenLoops.drop 1) []
            [.statement 0, .loopBody, .statement 0, .loopBody,
              .statement 0]).tail.take 1),
        ∀ rest ∈ rests,
          rest.Plain (run "demo" .default brokenLoops).graph
            (run "demo" .default brokenLoops).nodeAt := by
    intro rests hRests rest hRest
    rcases hUnnamed rests hRests rest hRest with
      ⟨hEvery, hNone⟩
    exact plainBlock_of_unnamed hEvery hNone
  rcases break_runs_rests "demo" .default brokenLoops hScript
        hClosed hOk [.statement 0] ⟨[], 1, brokenLoops.drop 1⟩
        rfl
        [.statement 0, .loopBody, .statement 0, .loopBody,
          .statement 0] .none [.name "inner", .name "outer"] rfl
        (by decide) fun _ => 3 with
    ⟨id, hId, -, hBreaks⟩
  cases hId.symm.trans hBreak
  rcases (hBreaks [3, 2]
        ⟨some 4, [(3, 2), (2, 2)], false, 2, [1, 2, 3]⟩ [(3, 2)]
        2 2 [] hNode rfl rfl rfl hLoops (List.Perm.refl _)).2
        hPlain with
    ⟨m', r, hr, hReach, -, hTrace, hEnding⟩
  have hRest :
      r =
        ⟨.done, 2, [[.statement 1, .loopBody,
          .statement 1]]⟩ := by
    rw [hr]
    decide +kernel
  rw [hRest] at hTrace hEnding
  rcases hEnding with ⟨-, hNext, hStack, -⟩ | ⟨hNot, -⟩
  · refine ⟨hScript, hClosed, hOk, rfl, hBreak, hPrint, _, m',
      ⟨5, hStart⟩, rfl, rfl, rfl, hReach, hNext, hStack, ?_⟩
    rw [List.map_singleton, hPrint] at hTrace
    exact (List.map_inj_right fun _ _ => Option.some.inj).mp
      hTrace
  · cases hNot

end FlowGraph.Script
