import FlowGraph.Table

/-
  The search for circles in the exec flow.

  A search goes down from a node, one link at a time.  It
  keeps the nodes on the way down on a stack, each with the
  number of its links that were followed, and never goes
  into a node a second time.

  Key definitions include:
    * `FlowGraph.Search`
    * `FlowGraph.Search.round`
    * `FlowGraph.Search.left`
    * `FlowGraph.Search.run`
    * `FlowGraph.Search.firstCyclic`

  Key theorems include:
    * `FlowGraph.Search.left_round`
-/

------------------------------------------------------------
-- Successors
------------------------------------------------------------

namespace FlowGraph

/- For each node the targets of its links, in order. -/
abbrev Successors := Table Nat (List Nat)

namespace Successors

/- The targets of the links of a node. -/
def of
    (next : Successors)
    (id : Nat) :
    List Nat :=
  (next.get? id).getD []

/- One more link. -/
def add
    (next : Successors)
    (step : Nat × Nat) :
    Successors :=
  Table.insert next step.1 (next.of step.1 ++ [step.2])

/- The targets of all links, each as often as it is one. -/
def targets
    (next : Successors) :
    List Nat :=
  next.entries.flatMap Prod.snd

end Successors

end FlowGraph

------------------------------------------------------------
-- Rounds
------------------------------------------------------------

namespace FlowGraph

/-
  A search.  `work` is the way down to the current node,
  which comes first; each node is listed with the number of
  its links that were followed.  `seen` are the nodes that
  were ever gone into, `path` those on the way down.
-/
structure Search where
  work : List (Nat × Nat)
  seen : List Nat
  path : List Nat
  deriving DecidableEq, Repr

/- What a round of a search comes to. -/
inductive Round where
  | circle
  | over
  | goOn (s : Search)
  deriving DecidableEq, Repr

namespace Search

/- The search that has not seen any node. -/
def new : Search :=
  ⟨[], [], []⟩

/- Start at a node, knowing what was seen before. -/
def start
    (s : Search)
    (root : Nat) :
    Search :=
  ⟨[(root, 0)], root :: s.seen, root :: s.path⟩

/-
  One round: follow the next link of the current node, or go
  back up if there is none.  A link to a node on the way down
  closes a circle, and a node that was seen before is not
  gone into again.
-/
def round
    (next : Successors)
    (s : Search) :
    Round :=
  match s.work with
  | [] => .over
  | (node, followed) :: rest =>
      match (next.of node)[followed]? with
      | none =>
          .goOn ⟨rest, s.seen, s.path.erase node⟩
      | some target =>
          if target ∈ s.path then
            .circle
          else if target ∈ s.seen then
            .goOn ⟨(node, followed + 1) :: rest, s.seen, s.path⟩
          else
            .goOn
              ⟨(target, 0) :: (node, followed + 1) :: rest,
                target :: s.seen, target :: s.path⟩

end Search

end FlowGraph

------------------------------------------------------------
-- Rounds That Are Left
------------------------------------------------------------

namespace FlowGraph.Search

/- The most rounds that a node on the stack takes. -/
def leftAt
    (next : Successors)
    (entry : Nat × Nat) :
    Nat :=
  (next.of entry.1).length - entry.2 + 1

/- The most rounds that the nodes not yet seen take. -/
def leftUnseen
    (next : Successors)
    (seen targets : List Nat) :
    Nat :=
  targets.foldr
    (fun id rounds =>
      (if id ∈ seen then 0 else leftAt next (id, 0)) + rounds)
    0

/- The most rounds that a search can still take. -/
def left
    (next : Successors)
    (s : Search) :
    Nat :=
  s.work.foldr (fun entry rounds => leftAt next entry + rounds)
      0
    + leftUnseen next s.seen next.targets

/- More nodes are seen, and no more are left. -/
theorem leftUnseen_cons_le
    (next : Successors)
    (id : Nat)
    (seen targets : List Nat) :
    leftUnseen next (id :: seen) targets ≤
      leftUnseen next seen targets := by
  induction targets with
  | nil => exact Nat.le_refl _
  | cons other rest ih =>
      simp only [leftUnseen, List.foldr_cons, List.mem_cons]
        at ih ⊢
      by_cases hSeen : other ∈ seen
      · simp only [hSeen, or_true, if_true]
        omega
      · by_cases hSame : other = id
        · simp only [hSame, true_or, if_true]
          omega
        · simp only [hSeen, hSame, or_self, if_false]
          omega

/- Going into a node leaves fewer that are not seen. -/
theorem leftUnseen_cons
    (next : Successors)
    {id : Nat}
    {seen targets : List Nat}
    (hTarget : id ∈ targets)
    (hNew : id ∉ seen) :
    leftAt next (id, 0)
        + leftUnseen next (id :: seen) targets ≤
      leftUnseen next seen targets := by
  induction targets with
  | nil => cases hTarget
  | cons other rest ih =>
      by_cases hSame : other = id
      · have hRest := leftUnseen_cons_le next id seen rest
        simp only [leftUnseen, List.foldr_cons,
          List.mem_cons, hSame, hNew, true_or, if_true,
          if_false] at hRest ⊢
        omega
      · have hRest := ih (by simpa [Ne.symm hSame] using hTarget)
        simp only [leftUnseen, List.foldr_cons,
          List.mem_cons, hSame, false_or] at hRest ⊢
        omega

/- What a link leads to is a target. -/
theorem mem_targets
    {next : Successors}
    {id target : Nat}
    (h : target ∈ next.of id) :
    target ∈ next.targets := by
  unfold Successors.of at h
  cases hGet : next.get? id with
  | none =>
      rw [hGet] at h
      cases h
  | some ids =>
      rw [hGet] at h
      exact List.mem_flatMap.mpr
        ⟨(id, ids), Table.get?_eq_some_iff.mp hGet, h⟩

/- Every round leaves fewer of them. -/
theorem left_round
    {next : Successors}
    {s s' : Search}
    (h : s.round next = .goOn s') :
    s'.left next < s.left next := by
  unfold round at h
  split at h
  · cases h
  · rename_i node followed rest hWork
    split at h
    · cases h
      simp only [left, hWork, List.foldr_cons, leftAt]
      omega
    · rename_i target hNext
      have hLt := (List.getElem?_eq_some_iff.mp hNext).1
      split at h
      · cases h
      · split at h
        · cases h
          simp only [left, hWork, List.foldr_cons, leftAt]
          omega
        · rename_i hNew
          cases h
          have hUnseen :=
            leftUnseen_cons next
              (mem_targets (List.mem_of_getElem? hNext)) hNew
          simp only [left, hWork, List.foldr_cons, leftAt]
            at hUnseen ⊢
          omega

end FlowGraph.Search

------------------------------------------------------------
-- Searches
------------------------------------------------------------

namespace FlowGraph.Search

/-
  Search until the stack is empty.  There is no result if a
  circle is found.
-/
def run
    (next : Successors)
    (s : Search) :
    Option Search :=
  match hRound : s.round next with
  | .circle => none
  | .over => some s
  | .goOn s' =>
      have : s'.left next < s.left next := left_round hRound
      s'.run next
termination_by s.left next

/-
  The first of some nodes from which the flow runs into a
  circle.  What was seen from one node is not looked at again
  from the next.
-/
def firstCyclic
    (next : Successors) :
    List Nat → Search → Option Nat
  | [], _ => none
  | id :: rest, s =>
      if id ∈ s.seen then
        firstCyclic next rest s
      else
        match (s.start id).run next with
        | none => some id
        | some s' => firstCyclic next rest s'

end FlowGraph.Search
