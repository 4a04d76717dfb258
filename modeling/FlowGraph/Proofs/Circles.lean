import FlowGraph.Graph.Validity
import Mathlib.Logic.Relation

/-
  Circles of the exec flow.

  The search finds a circle exactly if there is one.  A node
  that it has gone back up from leads to no circle, since all
  that it leads to was left before, and a link to a node on
  the way down closes the way into a circle.

  Key definitions include:
    * `FlowGraph.Circling`
    * `FlowGraph.Search.Ends`
    * `FlowGraph.Search.Trail`
    * `FlowGraph.Search.Sound`

  Key theorems include:
    * `FlowGraph.Search.Sound.round`
    * `FlowGraph.Search.Sound.run`
    * `FlowGraph.Search.stops_within_left`
    * `FlowGraph.Graph.cyclicNode?_eq_none`
    * `FlowGraph.Graph.cyclicNode?_eq_some`
-/

------------------------------------------------------------
-- Circles And Ends
------------------------------------------------------------

namespace FlowGraph

/- A node leads into a circle of a relation. -/
def Circling
    (R : Nat → Nat → Prop)
    (id : Nat) :
    Prop :=
  ∃ c, Relation.ReflTransGen R id c ∧ Relation.TransGen R c c

namespace Search

/- A node has a link to another. -/
def Leads
    (next : Successors)
    (i j : Nat) :
    Prop :=
  j ∈ next.of i

/- However the flow goes on from a node, it ends. -/
def Ends
    (next : Successors)
    (id : Nat) :
    Prop :=
  Acc (fun j i => Leads next i j) id

variable {next : Successors} {id : Nat}

/- Where the flow ends there is no circle. -/
theorem Ends.not_transGen
    (h : Ends next id) :
    ¬Relation.TransGen (Leads next) id id := by
  unfold Ends at h
  induction h with
  | intro i _ ih =>
      intro hCircle
      rcases Relation.TransGen.head'_iff.mp hCircle with
        ⟨j, hStep, hBack⟩
      exact ih j hStep (Relation.TransGen.tail' hBack hStep)

/- Where the flow ends it ends further on. -/
theorem Ends.of_path
    {c : Nat}
    (h : Ends next id)
    (hPath : Relation.ReflTransGen (Leads next) id c) :
    Ends next c := by
  induction hPath with
  | refl => exact h
  | tail _ hStep ih => exact ih.inv hStep

/- Where the flow ends it leads into no circle. -/
theorem Ends.not_circling
    (h : Ends next id) :
    ¬Circling (Leads next) id := by
  intro hCircling
  rcases hCircling with ⟨c, hPath, hCircle⟩
  exact (h.of_path hPath).not_transGen hCircle

end Search

end FlowGraph

------------------------------------------------------------
-- The Way Down
------------------------------------------------------------

namespace FlowGraph.Search

variable {next : Successors}

/- The flow ends after the first links of a node. -/
def Followed
    (next : Successors)
    (entry : Nat × Nat) :
    Prop :=
  ∀ j < entry.2, ∀ t, (next.of entry.1)[j]? = some t →
    Ends next t

/-
  The nodes below `child` on the stack: the last link that
  was followed leads to the node above.
-/
def Above
    (next : Successors)
    (child : Nat) :
    List (Nat × Nat) → Prop
  | [] => True
  | (node, followed) :: rest =>
      (∃ i, followed = i + 1 ∧
        (next.of node)[i]? = some child ∧
        Followed next (node, i)) ∧
      Above next node rest

/- The stack is a way down along the links. -/
def Trail
    (next : Successors) :
    List (Nat × Nat) → Prop
  | [] => True
  | entry :: rest =>
      Followed next entry ∧ Above next entry.1 rest

/- Every node of the stack leads to the one on top. -/
theorem Above.leads
    {child : Nat}
    {rest : List (Nat × Nat)}
    (h : Above next child rest)
    {id : Nat}
    (hMem : id ∈ rest.map Prod.fst) :
    Relation.TransGen (Leads next) id child := by
  induction rest generalizing child with
  | nil => cases hMem
  | cons entry rest ih =>
      rcases h with ⟨⟨i, _, hChild, _⟩, hRest⟩
      have hStep : Leads next entry.1 child :=
        List.mem_of_getElem? hChild
      rcases List.mem_cons.mp hMem with hSame | hBelow
      · rw [hSame]
        exact .single hStep
      · exact (ih hRest hBelow).tail hStep

/- Once all links of a node were followed, the flow ends. -/
theorem Followed.ends
    {node followed : Nat}
    (h : Followed next (node, followed))
    (hAll : (next.of node)[followed]? = none) :
    Ends next node := by
  constructor
  intro t hLink
  rcases List.getElem?_of_mem hLink with ⟨j, hj⟩
  have hLength := List.getElem?_eq_none_iff.mp hAll
  have hLt := (List.getElem?_eq_some_iff.mp hj).1
  exact h j (Nat.lt_of_lt_of_le hLt hLength) t hj

/- One more link was followed to an end. -/
theorem Followed.succ
    {node followed target : Nat}
    (h : Followed next (node, followed))
    (hTarget : (next.of node)[followed]? = some target)
    (hEnds : Ends next target) :
    Followed next (node, followed + 1) := by
  intro j hj t ht
  by_cases hLast : j = followed
  · rw [hLast, hTarget] at ht
    rw [← Option.some.inj ht]
    exact hEnds
  · exact h j (Nat.lt_of_le_of_ne (Nat.le_of_lt_succ hj) hLast)
      t ht

/- The flow ends at the node on top, which is left. -/
theorem Trail.pop
    {node followed : Nat}
    {rest : List (Nat × Nat)}
    (h : Trail next ((node, followed) :: rest))
    (hEnds : Ends next node) :
    Trail next rest := by
  cases rest with
  | nil => trivial
  | cons entry rest =>
      rcases entry with ⟨above, count⟩
      rcases h.2 with ⟨⟨i, hCount, hChild, hFollowed⟩, hRest⟩
      rw [hCount]
      exact ⟨hFollowed.succ hChild hEnds, hRest⟩

end FlowGraph.Search

------------------------------------------------------------
-- Rounds
------------------------------------------------------------

namespace FlowGraph.Search

/-
  What holds of a search that was started at `root`.  From a
  node that was seen and is not on the way down, the flow
  ends.
-/
structure Sound
    (next : Successors)
    (root : Nat)
    (s : Search) :
    Prop where
  path : s.path = s.work.map Prod.fst
  trail : Trail next s.work
  reached :
    ∀ id ∈ s.path, Relation.ReflTransGen (Leads next) root id
  root : root ∈ s.seen
  ends : ∀ id ∈ s.seen, id ∉ s.path → Ends next id

variable {next : Successors} {root : Nat} {s s' : Search}

/- A search that starts where nothing is open. -/
theorem sound_start
    (root : Nat)
    (hPath : s.path = [])
    (hEnds : ∀ id ∈ s.seen, Ends next id) :
    Sound next root (s.start root) := by
  constructor
  · simp [start, hPath]
  · constructor
    · intro j hj
      cases hj
    · trivial
  · intro id hId
    simp only [start, hPath, List.mem_singleton] at hId
    rw [hId]
  · exact List.mem_cons_self
  · intro id hSeen hNot
    rcases List.mem_cons.mp hSeen with hRoot | hOld
    · rw [hRoot] at hNot
      exact absurd List.mem_cons_self hNot
    · exact hEnds id hOld

/- A new search has seen nothing. -/
theorem ends_new
    (next : Successors) :
    ∀ id ∈ Search.new.seen, Ends next id := by
  intro id hSeen
  cases hSeen

/- A round keeps what holds of a search. -/
theorem Sound.round
    (h : Sound next root s)
    (hRound : s.round next = .goOn s') :
    Sound next root s' := by
  unfold Search.round at hRound
  split at hRound
  · cases hRound
  · rename_i node followed rest hWork
    have hTrail := h.trail
    have hPath := h.path
    rw [hWork] at hTrail hPath
    split at hRound
    · -- The node on top has no links left.
      rename_i hAll
      have hEnds := hTrail.1.ends hAll
      cases hRound
      have hRest : s.path.erase node = rest.map Prod.fst := by
        rw [hPath]
        exact List.erase_cons_head node _
      refine ⟨hRest, hTrail.pop hEnds, ?_, h.root, ?_⟩
      · intro id hId
        exact h.reached id (List.mem_of_mem_erase hId)
      · intro id hSeen hNot
        by_cases hTop : id = node
        · rw [hTop]
          exact hEnds
        · apply h.ends id hSeen
          intro hMem
          exact hNot ((List.mem_erase_of_ne hTop).mpr hMem)
    · rename_i target hTarget
      have hLink : Leads next node target :=
        List.mem_of_getElem? hTarget
      split at hRound
      · cases hRound
      · rename_i hOff
        split at hRound
        · -- The target was left before.
          rename_i hSeen
          cases hRound
          have hEnds := h.ends target hSeen hOff
          exact ⟨hPath, ⟨hTrail.1.succ hTarget hEnds, hTrail.2⟩,
            h.reached, h.root, h.ends⟩
        · -- The target is new and goes on top.
          cases hRound
          have hNode : node ∈ s.path := by
            rw [hPath]
            exact List.mem_cons_self
          have hNone : Followed next (target, 0) := by
            intro j hj
            cases hj
          refine ⟨congrArg (target :: ·) hPath,
            ⟨hNone, ⟨followed, rfl, hTarget, hTrail.1⟩,
              hTrail.2⟩, ?_, List.mem_cons_of_mem _ h.root, ?_⟩
          · intro id hId
            rcases List.mem_cons.mp hId with hNew | hOld
            · rw [hNew]
              exact (h.reached node hNode).tail hLink
            · exact h.reached id hOld
          · intro id hSeen hNot
            rw [List.mem_cons, not_or] at hNot
            rcases List.mem_cons.mp hSeen with hNew | hOld
            · exact absurd hNew hNot.1
            · exact h.ends id hOld hNot.2

/- A link to a node on the way down closes a circle. -/
theorem Sound.circle
    (h : Sound next root s)
    (hRound : s.round next = .circle) :
    Circling (Leads next) root := by
  unfold Search.round at hRound
  split at hRound
  · cases hRound
  · rename_i node followed rest hWork
    have hTrail := h.trail
    have hPath := h.path
    rw [hWork] at hTrail hPath
    split at hRound
    · cases hRound
    · rename_i target hTarget
      have hLink : Leads next node target :=
        List.mem_of_getElem? hTarget
      split at hRound
      · rename_i hOn
        refine ⟨target, h.reached target hOn, ?_⟩
        rw [hPath] at hOn
        rcases List.mem_cons.mp hOn with hTop | hBelow
        · rw [hTop] at hLink ⊢
          exact .single hLink
        · exact (hTrail.2.leads hBelow).tail hLink
      · split at hRound
        · cases hRound
        · cases hRound

/- A search is over when nothing is open. -/
theorem work_of_over
    (h : s.round next = .over) :
    s.work = [] := by
  unfold Search.round at h
  split at h
  · assumption
  · split at h
    · cases h
    · split at h
      · cases h
      · split at h
        · cases h
        · cases h

end FlowGraph.Search

------------------------------------------------------------
-- Whole Searches
------------------------------------------------------------

namespace FlowGraph.Search

variable {next : Successors} {root : Nat} {s : Search}

/-
  A search that gets through leaves nothing open, and the flow
  ends at all nodes that were seen.  One that does not has
  found a circle.
-/
theorem Sound.run
    (h : Sound next root s) :
    match s.run next with
    | some s' =>
        s'.path = [] ∧ root ∈ s'.seen ∧
          ∀ id ∈ s'.seen, Ends next id
    | none => Circling (Leads next) root := by
  fun_induction Search.run next s with
  | case1 s hRound => exact h.circle hRound
  | case2 s hRound =>
      have hPath : s.path = [] := by
        rw [h.path, work_of_over hRound]
        rfl
      refine ⟨hPath, h.root, ?_⟩
      intro id hSeen
      apply h.ends id hSeen
      rw [hPath]
      exact List.not_mem_nil
  | case3 s s' hRound _ ih => exact ih (h.round hRound)

/-
  Searches from several nodes, one after the other.  From the
  nodes that come before the reported one, the flow ends.
-/
theorem firstCyclic_spec
    (ids : List Nat)
    (hPath : s.path = [])
    (hEnds : ∀ id ∈ s.seen, Ends next id) :
    match firstCyclic next ids s with
    | none => ∀ id ∈ ids, Ends next id
    | some id =>
        Circling (Leads next) id ∧
          ∃ before after, ids = before ++ id :: after ∧
            ∀ i ∈ before, Ends next i := by
  induction ids generalizing s with
  | nil =>
      intro id hId
      cases hId
  | cons first rest ih =>
      -- The flow ends at the first node, so look at the rest.
      have hGoOn :
          ∀ s' : Search, s'.path = [] →
            (∀ id ∈ s'.seen, Ends next id) →
            Ends next first →
            match firstCyclic next rest s' with
            | none => ∀ id ∈ first :: rest, Ends next id
            | some id =>
                Circling (Leads next) id ∧
                  ∃ before after,
                    first :: rest = before ++ id :: after ∧
                    ∀ i ∈ before, Ends next i := by
        intro s' hPath' hEnds' hFirst
        have hRest := ih hPath' hEnds'
        cases hResult : firstCyclic next rest s' with
        | none =>
            rw [hResult] at hRest
            exact List.forall_mem_cons.mpr ⟨hFirst, hRest⟩
        | some id =>
            rw [hResult] at hRest
            rcases hRest with
              ⟨hCircling, before, after, hIds, hBefore⟩
            exact ⟨hCircling, first :: before, after,
              congrArg (first :: ·) hIds,
              List.forall_mem_cons.mpr ⟨hFirst, hBefore⟩⟩
      unfold firstCyclic
      by_cases hSeen : first ∈ s.seen
      · rw [if_pos hSeen]
        exact hGoOn s hPath hEnds (hEnds first hSeen)
      · rw [if_neg hSeen]
        have hRun :=
          (sound_start first hPath hEnds).run
        cases hResult : (s.start first).run next with
        | none =>
            rw [hResult] at hRun
            exact ⟨hRun, [], rest, rfl, by simp⟩
        | some s' =>
            rw [hResult] at hRun
            rcases hRun with ⟨hPath', hRoot, hEnds'⟩
            exact hGoOn s' hPath' hEnds' (hEnds' first hRoot)

/-
  No search goes on for ever: of rounds that follow each other
  there are no more than were left at first.
-/
theorem stops_within_left
    (next : Successors)
    (trace : Nat → Search) :
    ∃ i ≤ (trace 0).left next,
      (trace i).round next ≠ .goOn (trace (i + 1)) := by
  apply Classical.byContradiction
  intro hEndless
  have hGoOn :
      ∀ i ≤ (trace 0).left next,
        (trace i).round next = .goOn (trace (i + 1)) := by
    intro i hi
    apply Classical.byContradiction
    intro hNot
    exact hEndless ⟨i, hi, hNot⟩
  have hLeft :
      ∀ i ≤ (trace 0).left next + 1,
        (trace i).left next + i ≤ (trace 0).left next := by
    intro i hi
    induction i with
    | zero => exact Nat.le_refl _
    | succ i ih =>
        have hBefore := ih (by omega)
        have hLess := left_round (hGoOn i (by omega))
        omega
  have hLast := hLeft _ (Nat.le_refl _)
  omega

end FlowGraph.Search

------------------------------------------------------------
-- Circles Of A Graph
------------------------------------------------------------

namespace FlowGraph

/- The targets of a node after one more link. -/
theorem Successors.mem_add
    {next : Successors}
    {step : Nat × Nat}
    {i j : Nat} :
    j ∈ (next.add step).of i ↔
      j ∈ next.of i ∨ step = (i, j) := by
  unfold add
  by_cases hSame : i = step.1
  · rw [hSame, of, Table.get?_insert_self]
    simp [Prod.ext_iff, eq_comm]
  · have hGet :
        Successors.of
            (Table.insert next step.1
              (next.of step.1 ++ [step.2])) i =
          next.of i := by
      rw [of, Table.get?_insert_of_ne next _ hSame, of]
    rw [hGet]
    simp [Prod.ext_iff, Ne.symm hSame]

/- The targets of a node after several links. -/
theorem Successors.mem_foldl_add
    {next : Successors}
    {steps : List (Nat × Nat)}
    {i j : Nat} :
    j ∈ Successors.of (steps.foldl add next) i ↔
      j ∈ next.of i ∨ (i, j) ∈ steps := by
  induction steps generalizing next with
  | nil => simp
  | cons step rest ih =>
      rw [List.foldl_cons, ih, mem_add, List.mem_cons,
        or_assoc, eq_comm (a := step)]

namespace Graph

/- The exec flow leads from one node to another. -/
def Flows
    (g : Graph)
    (i j : Nat) :
    Prop :=
  ∃ index, g.execTarget ⟨i, index⟩ = some j

variable {g : Graph}

/- The search follows the flow. -/
theorem leads_successors :
    Search.Leads g.successors = g.Flows := by
  funext i j
  apply propext
  unfold Search.Leads successors
  rw [Successors.mem_foldl_add]
  constructor
  · intro h
    rcases h with hNone | hStep
    · cases hNone
    · rcases List.mem_map.mp hStep with ⟨link, hLink, hEq⟩
      rcases link with ⟨⟨node, index⟩, target⟩
      cases hEq
      exact ⟨index, Table.get?_eq_some_iff.mpr hLink⟩
  · intro h
    rcases h with ⟨index, hTarget⟩
    right
    exact List.mem_map.mpr
      ⟨_, Table.get?_eq_some_iff.mp hTarget, rfl⟩

/- No node is reported if no node leads into a circle. -/
theorem cyclicNode?_eq_none
    (h : g.cyclicNode? = none) :
    ∀ id ∈ g.nodes.keys, ¬Circling g.Flows id := by
  have hSpec :=
    Search.firstCyclic_spec g.nodes.keys rfl
      (Search.ends_new g.successors)
  unfold cyclicNode? at h
  rw [h] at hSpec
  intro id hId
  rw [← leads_successors]
  exact (hSpec id hId).not_circling

/- The keys of a table ascend. -/
theorem pairwise_keys
    {α : Type}
    (t : Table Nat α) :
    t.keys.Pairwise (· < ·) := by
  unfold Table.keys
  rw [List.pairwise_map]
  exact t.ascending.imp fun hBefore => of_decide_eq_true hBefore

/- The node that is reported is the smallest one. -/
theorem cyclicNode?_eq_some
    {id : Nat}
    (h : g.cyclicNode? = some id) :
    Circling g.Flows id ∧
      ∀ i ∈ g.nodes.keys, Circling g.Flows i → id ≤ i := by
  have hSpec :=
    Search.firstCyclic_spec g.nodes.keys rfl
      (Search.ends_new g.successors)
  unfold cyclicNode? at h
  rw [h, leads_successors] at hSpec
  rcases hSpec with ⟨hCircling, before, after, hKeys, hBefore⟩
  refine ⟨hCircling, ?_⟩
  intro i hi hOther
  have hOrder := pairwise_keys g.nodes
  rw [hKeys] at hi hOrder
  rcases List.mem_append.mp hi with hEarlier | hLater
  · have hNot := (hBefore i hEarlier).not_circling
    rw [leads_successors] at hNot
    exact absurd hOther hNot
  · have hRest := (List.pairwise_append.mp hOrder).2.1
    rcases List.mem_cons.mp hLater with hSame | hAfter
    · exact Nat.le_of_eq hSame.symm
    · exact Nat.le_of_lt
        ((List.pairwise_cons.mp hRest).1 i hAfter)

end Graph

end FlowGraph
