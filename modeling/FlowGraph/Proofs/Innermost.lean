import FlowGraph.Proofs.Breaks
import FlowGraph.Proofs.Meaning

/-
  Blocks whose meaning is known.

  A break means to leave the innermost loop around it.  It
  does so if it names no loop, and also if the loop that it
  names is this one.  What a name stands for is known only
  from the run, so the node that the break made is asked.

  Key definitions include:
    * `FlowGraph.Script.StopsInnermost`
    * `FlowGraph.Script.PlainBlock`

  Key theorems include:
    * `FlowGraph.Script.PlainBlock.head`
    * `FlowGraph.Script.PlainBlock.tail`
    * `FlowGraph.Script.plainBlock_of_unnamed`
-/

------------------------------------------------------------
-- Plain Blocks
------------------------------------------------------------

namespace FlowGraph.Script

/- A place in a block whose first statement has number `i`. -/
def placeFrom
    (i : Nat) :
    Path → Path
  | .statement j :: below => .statement (i + j) :: below
  | below => below

@[simp] theorem placeFrom_zero
    (below : Path) :
    placeFrom 0 below = below := by
  unfold placeFrom
  split
  · rw [Nat.zero_add]
  · rfl

/-
  The break at a place stops the innermost loop around it and
  no other one.  The nodes of statements are known by their
  places.
-/
def StopsInnermost
    (g : Graph)
    (N : Path → Option Nat)
    (place : Path) :
    Prop :=
  ∃ id inner outer loop,
    N place = some id ∧
      loopsAround place = inner :: outer ∧
      N inner = some loop ∧
      g.nodes.get? id = some (Builder.breakNode [loop])

/-
  All statements of a block are plain, and a break that names
  loops names the innermost one.  What is broken in a function
  inside of the block does not matter.
-/
structure PlainBlock
    (g : Graph)
    (N : Path → Option Nat)
    (place : Path)
    (first : Nat)
    (block : List Stmt) :
    Prop where
  statements : everyIn Stmt.plain block = true
  breaks :
    ∀ below bind refs,
      find? block below =
          some (.action bind (.breakLoop refs)) →
        Segment.function ∉ below →
          refs = [] ∨
            StopsInnermost g N
              (place ++ placeFrom first below)

/- The same for a statement and its bodies. -/
structure PlainStmt
    (g : Graph)
    (N : Path → Option Nat)
    (path : Path)
    (st : Stmt) :
    Prop where
  self : st.plain = true
  breaks :
    ∀ bind refs, st = .action bind (.breakLoop refs) →
      refs = [] ∨ StopsInnermost g N path
  bodies :
    ∀ segment body, st.body? segment = some body →
      segment ≠ .function →
        PlainBlock g N (path ++ [segment]) 0 body

end FlowGraph.Script

------------------------------------------------------------
-- Statements Of A Plain Block
------------------------------------------------------------

namespace FlowGraph.Script

variable {g : Graph} {N : Path → Option Nat}
variable {place : Path} {i : Nat}
variable {st : Stmt} {block rest : List Stmt}

/- The first statement of a plain block. -/
theorem PlainBlock.head
    (h : PlainBlock g N place i (st :: rest)) :
    PlainStmt g N (place ++ [.statement i]) st := by
  have hEvery := (everyIn_cons.mp h.statements).1
  rcases (Stmt.every_iff st).mp hEvery with ⟨hSelf, hInner⟩
  refine ⟨hSelf, ?_, ?_⟩
  · rintro bind refs rfl
    exact h.breaks [.statement 0] bind refs rfl (by simp)
  · intro segment body hBody hOther
    refine ⟨hInner body (Stmt.mem_bodies hBody), ?_⟩
    intro below bind refs hFind hOwn
    have hBelow :
        find? (st :: rest) (.statement 0 :: segment :: below) =
          some (.action bind (.breakLoop refs)) := by
      simpa [find?, hBody] using hFind
    have hBreak :=
      h.breaks _ bind refs hBelow (by
        simp [hOwn, Ne.symm hOther])
    rw [placeFrom_zero]
    simpa [placeFrom] using hBreak

/- The other statements of a plain block. -/
theorem PlainBlock.tail
    (h : PlainBlock g N place i (st :: rest)) :
    PlainBlock g N place (i + 1) rest := by
  refine ⟨(everyIn_cons.mp h.statements).2, ?_⟩
  intro below bind refs hFind hOwn
  rcases statement_of_find? hFind with ⟨j, tail, rfl⟩
  rw [← find?_cons_succ (s := st)] at hFind
  have hBreak :=
    h.breaks _ bind refs hFind (by simpa using hOwn)
  rw [placeFrom, show i + 1 + j = i + (j + 1) by omega]
  exact hBreak

/- A plain statement before a plain block. -/
theorem PlainBlock.cons
    (hHead : PlainStmt g N (place ++ [.statement i]) st)
    (hTail : PlainBlock g N place (i + 1) rest)
    (hEvery : st.every Stmt.plain = true) :
    PlainBlock g N place i (st :: rest) := by
  refine ⟨everyIn_cons.mpr ⟨hEvery, hTail.statements⟩, ?_⟩
  intro below bind refs hFind hOwn
  rcases statement_of_find? hFind with ⟨j, tail, rfl⟩
  cases j with
  | zero =>
      cases tail with
      | nil =>
          simp only [find?, List.getElem?_cons_zero,
            Option.some.injEq] at hFind
          exact hHead.breaks bind refs hFind
      | cons segment below =>
          simp only [List.mem_cons, not_or] at hOwn
          simp only [find?, List.getElem?_cons_zero,
            Option.bind_some] at hFind
          split at hFind
          case h_2 => cases hFind
          case h_1 body hBody =>
            have hBreak :=
              (hHead.bodies segment body hBody
                (Ne.symm hOwn.2.1)).breaks below bind refs
                hFind hOwn.2.2
            rw [placeFrom_zero] at hBreak
            simpa [placeFrom] using hBreak
  | succ j =>
      rw [find?_cons_succ] at hFind
      have hBreak :=
        hTail.breaks _ bind refs hFind (by simpa using hOwn)
      rw [placeFrom, show i + 1 + j = i + (j + 1) by omega]
        at hBreak
      exact hBreak

/- Not a break that names loops. -/
def Stmt.unnamed : Stmt → Bool
  | .action _ (.breakLoop refs) => refs.isEmpty
  | _ => true

/- A block is plain if no break in it names a loop. -/
theorem plainBlock_of_unnamed
    (hPlain : everyIn Stmt.plain block = true)
    (hUnnamed : everyIn Stmt.unnamed block = true) :
    PlainBlock g N place i block := by
  refine ⟨hPlain, ?_⟩
  intro below bind refs hFind _
  have hSelf := every_of_find? hUnnamed hFind
  exact Or.inl (by simpa [Stmt.every, Stmt.unnamed] using hSelf)

/- A break is plain if it stops the innermost loop. -/
theorem plainStmt_breakLoop
    {bind : Binding}
    {refs : List NodeRef}
    (h : StopsInnermost g N place) :
    PlainStmt g N place (.action bind (.breakLoop refs)) := by
  refine ⟨rfl, fun _ _ _ => Or.inr h, ?_⟩
  intro segment body hBody
  cases hBody

/- A loop is plain if its body is. -/
theorem plainStmt_forRange
    {bind : Binding}
    {start stop : Argument}
    {body : List Stmt}
    (h : PlainBlock g N (place ++ [.loopBody]) 0 body) :
    PlainStmt g N place (.forRange bind start stop body) := by
  refine ⟨rfl, ?_, ?_⟩
  · intro bind refs hBreak
    cases hBreak
  · intro segment inner hInner _
    cases segment <;> cases hInner
    exact h

end FlowGraph.Script
