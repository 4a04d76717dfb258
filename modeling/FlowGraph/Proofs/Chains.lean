import FlowGraph.Proofs.Dispatch
import Mathlib.Data.List.Chain
import Mathlib.Logic.Relation

/-
  Chains of aliases.

  From every branch of a switch the aliases lead to a branch
  that is none, to a label that was not declared, or back to
  a branch that was passed.  A chain passes no branch twice
  before it ends, so it is not longer than the table of the
  switch.

  Key definitions include:
    * `FlowGraph.Switch.kept`
    * `FlowGraph.Switch.Does`
    * `FlowGraph.Switch.Follows`
    * `FlowGraph.Switch.Passed`
    * `FlowGraph.Switch.Revisits`
    * `FlowGraph.Switch.Verdict`

  Key theorems include:
    * `FlowGraph.Switch.does_iff`
    * `FlowGraph.Switch.Passed.step`
    * `FlowGraph.Switch.Passed.follows`
    * `FlowGraph.Switch.Follows.verdict`
    * `FlowGraph.Switch.Verdict.unique`
    * `FlowGraph.Switch.resolve_eq_iff`
-/

------------------------------------------------------------
-- The Table Of A Switch
------------------------------------------------------------

namespace FlowGraph.Switch

variable {β : Type} {s : Switch β}

/- One more case, unless its label is in the table. -/
def keep
    (table : List (Label × Arm β))
    (c : Label × Arm β) :
    List (Label × Arm β) :=
  if c.1 ∈ table.map Prod.fst then
    table
  else
    table ++ [c]

/- The table of the cases: of each label the first one. -/
def kept
    (s : Switch β) :
    List (Label × Arm β) :=
  s.cases.foldl keep []

/- What a branch does by the table. -/
inductive Does
    (s : Switch β) :
    CaseKey → Arm β → Prop where
  | default :
      Does s .default s.default
  | case
      {l : Label}
      {arm : Arm β}
      (h : (l, arm) ∈ s.kept) :
      Does s (.label l) arm

/-
  A case is in the table after some more were declared if it
  was there before, or if it is the first of its label.
-/
theorem mem_foldl_keep
    {cases table : List (Label × Arm β)}
    {l : Label}
    {arm : Arm β} :
    (l, arm) ∈ cases.foldl keep table ↔
      (l, arm) ∈ table ∨
        l ∉ table.map Prod.fst ∧
          cases.lookup l = some arm := by
  induction cases generalizing table with
  | nil => simp
  | cons c rest ih =>
      obtain ⟨l', arm'⟩ := c
      rw [List.foldl_cons, ih, keep, List.lookup_cons]
      by_cases hEq : l = l'
      · subst hEq
        by_cases hOld : l ∈ table.map Prod.fst
        · simp only [hOld, if_true, not_true, false_and]
        · simp [hOld, eq_comm]
      · have hBeq : (l == l') = false := by simpa using hEq
        rw [hBeq]
        by_cases hOld : l' ∈ table.map Prod.fst
        · rw [if_pos hOld]
        · simp [hOld, hEq]

/- The table holds for each branch what it does. -/
theorem does_iff
    {k : CaseKey}
    {arm : Arm β} :
    s.Does k arm ↔ s.arm? k = some arm := by
  cases k with
  | default =>
      constructor
      · intro h
        cases h
        rfl
      · intro h
        cases h
        exact .default
  | label l =>
      have hMem :
          (l, arm) ∈ s.kept ↔ s.arm? (.label l) = some arm := by
        simp [kept, arm?, mem_foldl_keep]
      constructor
      · intro h
        cases h with
        | case h => exact hMem.mp h
      · intro h
        exact .case (hMem.mpr h)

/- A branch does one thing. -/
theorem Does.unique
    {k : CaseKey}
    {arm arm' : Arm β}
    (h : s.Does k arm)
    (h' : s.Does k arm') :
    arm = arm' :=
  Option.some.inj
    ((does_iff.mp h).symm.trans (does_iff.mp h'))

theorem default_mem_keys :
    .default ∈ s.keys :=
  List.mem_cons_self

theorem label_mem_keys
    {l : Label} :
    .label l ∈ s.keys ↔ l ∈ s.labels := by
  simp [keys]

/- The branches are those that the table speaks of. -/
theorem mem_keys_iff
    {k : CaseKey} :
    k ∈ s.keys ↔ ∃ arm, s.Does k arm := by
  cases k with
  | default =>
      exact iff_of_true default_mem_keys ⟨_, .default⟩
  | label l =>
      have hNone :
          s.arm? (.label l) = none ↔ l ∉ s.labels := by
        rw [arm?, List.lookup_eq_none_iff, labels, List.mem_map]
        simp only [bne_iff_ne, ne_eq, not_exists, not_and,
          eq_comm (a := l)]
      simp only [does_iff, ← Option.isSome_iff_exists]
      rw [Option.isSome_iff_ne_none, Ne, hNone, label_mem_keys,
        Decidable.not_not]

end FlowGraph.Switch

------------------------------------------------------------
-- Following Aliases
------------------------------------------------------------

namespace FlowGraph.Switch

variable {β : Type} {s : Switch β}

/- An alias leads from one branch to another. -/
def Leads
    (s : Switch β)
    (k next : CaseKey) :
    Prop :=
  s.Does k (.alias next)

/- A branch has a body or is empty. -/
def Settles
    (s : Switch β)
    (k : CaseKey) :
    Prop :=
  s.Does k .empty ∨ ∃ b, s.Does k (.body b)

/-
  How aliases are followed, with no bound on the number of
  steps: `chain` are the branches that were passed and
  `current` is the last of them.  After some more aliases,
  which are counted, this is the answer.
-/
inductive Follows
    (s : Switch β) :
    Nat → List CaseKey → CaseKey →
      Except Error CaseKey → Prop where
  | settle
      {chain : List CaseKey}
      {current : CaseKey}
      (hSettles : s.Settles current) :
      Follows s 0 chain current (.ok current)
  | lose
      {chain : List CaseKey}
      {current : CaseKey}
      {l : Label}
      (hLeads : s.Leads current (.label l))
      (hUnknown : l ∉ s.labels) :
      Follows s 1 chain current (.error (.of (.unknownCase l)))
  | close
      {chain : List CaseKey}
      {current next : CaseKey}
      (hLeads : s.Leads current next)
      (hKnown : next ∈ s.keys)
      (hOld : next ∈ chain) :
      Follows s 1 chain current
        (.error (.of (.aliasCycle (chain ++ [next]))))
  | step
      {n : Nat}
      {chain : List CaseKey}
      {current next : CaseKey}
      {r : Except Error CaseKey}
      (hLeads : s.Leads current next)
      (hKnown : next ∈ s.keys)
      (hNew : next ∉ chain)
      (hRest : Follows s n (chain ++ [next]) next r) :
      Follows s (n + 1) chain current r

/- A branch is an alias of one other at most. -/
theorem leads_unique :
    Relator.RightUnique s.Leads := by
  intro k next next' h h'
  exact Arm.alias.inj (Does.unique h h')

/- A branch that settles is not an alias. -/
theorem Settles.stuck
    {k : CaseKey}
    (h : s.Settles k)
    (next : CaseKey) :
    ¬s.Leads k next := by
  intro hLeads
  rcases h with hEmpty | ⟨b, hBody⟩
  · cases hEmpty.unique hLeads
  · cases hBody.unique hLeads

theorem Settles.mem_keys
    {k : CaseKey}
    (h : s.Settles k) :
    k ∈ s.keys := by
  rw [mem_keys_iff]
  rcases h with hEmpty | ⟨b, hBody⟩
  · exact ⟨_, hEmpty⟩
  · exact ⟨_, hBody⟩

/- What is not declared does nothing. -/
theorem not_does
    {l : Label}
    (h : l ∉ s.labels)
    (arm : Arm β) :
    ¬s.Does (.label l) arm := by
  intro hDoes
  exact h (label_mem_keys.mp (mem_keys_iff.mpr ⟨arm, hDoes⟩))

/- A label that is unknown is not an alias. -/
theorem unknown_stuck
    {l : Label}
    (h : l ∉ s.labels)
    (next : CaseKey) :
    ¬s.Leads (.label l) next :=
  not_does h (.alias next)

/- What can be found at a branch. -/
theorem settles_or_leads
    {k : CaseKey}
    (h : k ∈ s.keys) :
    s.Settles k ∨
      (∃ l, s.Leads k (.label l) ∧ l ∉ s.labels) ∨
      ∃ next, s.Leads k next ∧ next ∈ s.keys := by
  rcases mem_keys_iff.mp h with ⟨arm, hDoes⟩
  cases arm with
  | empty => exact Or.inl (Or.inl hDoes)
  | body b => exact Or.inl (Or.inr ⟨b, hDoes⟩)
  | «alias» next =>
      by_cases hKnown : next ∈ s.keys
      · exact Or.inr (Or.inr ⟨next, hDoes, hKnown⟩)
      · cases next with
        | default => exact absurd default_mem_keys hKnown
        | label l =>
            rw [label_mem_keys] at hKnown
            exact Or.inr (Or.inl ⟨l, hDoes, hKnown⟩)

/- Following aliases stops where there is none. -/
theorem follow_of_settles
    {k : CaseKey}
    (h : s.Settles k)
    (fuel : Nat)
    (chain : List CaseKey) :
    s.follow (fuel + 1) chain k = .ok k := by
  unfold follow
  split
  · rename_i next hAlias
    exact absurd (does_iff.mpr hAlias) (h.stuck next)
  · rfl

/- Following aliases stops at a label that is unknown. -/
theorem follow_of_unknown
    {k : CaseKey}
    {l : Label}
    (h : s.Leads k (.label l))
    (hUnknown : l ∉ s.labels)
    (fuel : Nat)
    (chain : List CaseKey) :
    s.follow (fuel + 1) chain k =
      .error (.of (.unknownCase l)) := by
  have hNone : s.arm? (.label l) = none := by
    rw [Option.eq_none_iff_forall_ne_some]
    intro arm hArm
    exact not_does hUnknown arm (does_iff.mpr hArm)
  simp only [follow, does_iff.mp h, hNone]

/- An alias of a branch that is known is followed. -/
theorem follow_of_leads
    {k next : CaseKey}
    (h : s.Leads k next)
    (hKnown : next ∈ s.keys)
    (fuel : Nat)
    (chain : List CaseKey) :
    s.follow (fuel + 1) chain k =
      if next ∈ chain then
        .error (.of (.aliasCycle (chain ++ [next])))
      else
        s.follow fuel (chain ++ [next]) next := by
  rcases mem_keys_iff.mp hKnown with ⟨arm, hDoes⟩
  simp only [follow, does_iff.mp h, does_iff.mp hDoes]

end FlowGraph.Switch

------------------------------------------------------------
-- Ends Of Chains
------------------------------------------------------------

namespace FlowGraph.Switch

variable {β : Type} {s : Switch β}

/-
  The branches that were passed on the way from `start` to
  `current`: each is an alias of the next, and none was
  passed twice.
-/
structure Passed
    (s : Switch β)
    (start : CaseKey)
    (chain : List CaseKey)
    (current : CaseKey) :
    Prop where
  head : chain.head? = some start
  last : chain.getLast? = some current
  linked : chain.IsChain s.Leads
  nodup : chain.Nodup
  known : ∀ j ∈ chain, j ∈ s.keys

variable {start current : CaseKey} {chain : List CaseKey}

/- At first only the start is passed. -/
theorem Passed.single
    (h : start ∈ s.keys) :
    s.Passed start [start] start :=
  ⟨rfl, rfl, .singleton _, by simp, by simpa using h⟩

/- One alias more, whichever branch it leads to. -/
theorem Passed.linked_concat
    (h : s.Passed start chain current)
    {next : CaseKey}
    (hLeads : s.Leads current next) :
    (chain ++ [next]).IsChain s.Leads := by
  refine h.linked.append (.singleton _) ?_
  intro j hj j' hj'
  rw [h.last] at hj
  cases hj
  cases hj'
  exact hLeads

theorem Passed.head_concat
    (h : s.Passed start chain current)
    (next : CaseKey) :
    (chain ++ [next]).head? = some start := by
  rw [List.head?_append, h.head]
  rfl

/- One branch more is passed. -/
theorem Passed.step
    (h : s.Passed start chain current)
    {next : CaseKey}
    (hLeads : s.Leads current next)
    (hKnown : next ∈ s.keys)
    (hNew : next ∉ chain) :
    s.Passed start (chain ++ [next]) next := by
  refine ⟨h.head_concat next, by simp,
    h.linked_concat hLeads, ?_, ?_⟩
  · rw [List.nodup_append]
    refine ⟨h.nodup, by simp, ?_⟩
    intro j hj j' hj' hEq
    rw [List.mem_singleton.mp hj'] at hEq
    exact hNew (hEq ▸ hj)
  · intro j hj
    rcases List.mem_append.mp hj with hj | hj
    · exact h.known j hj
    · rw [List.mem_singleton.mp hj]
      exact hKnown

theorem Passed.current_mem
    (h : s.Passed start chain current) :
    current ∈ s.keys :=
  h.known _ (List.mem_of_getLast? h.last)

/-
  No more branches are passed than the table has cases, and
  the default.
-/
theorem Passed.length_le
    (h : s.Passed start chain current) :
    chain.length ≤ s.kept.length + 1 := by
  have hSub :
      chain ⊆ .default :: s.kept.map fun c => .label c.1 := by
    intro j hj
    rcases mem_keys_iff.mp (h.known j hj) with ⟨arm, hDoes⟩
    cases hDoes with
    | default => exact List.mem_cons_self
    | case h =>
        exact List.mem_cons_of_mem _
          (List.mem_map.mpr ⟨_, h, rfl⟩)
  simpa using h.nodup.length_le_of_subset hSub

/-
  The aliases are followed to their end.  With a bound that
  leaves room for all branches not yet passed, the bound is
  never the reason for the answer.
-/
theorem Passed.follows
    {fuel : Nat}
    (h : s.Passed start chain current)
    (hFuel : s.kept.length + 2 ≤ fuel + chain.length) :
    ∃ n, s.Follows n chain current
      (s.follow fuel chain current) := by
  induction fuel generalizing chain current with
  | zero =>
      have hLength := h.length_le
      omega
  | succ fuel ih =>
      rcases settles_or_leads h.current_mem with
        hSettles | ⟨l, hLeads, hUnknown⟩ |
          ⟨next, hLeads, hKnown⟩
      · rw [follow_of_settles hSettles]
        exact ⟨0, .settle hSettles⟩
      · rw [follow_of_unknown hLeads hUnknown]
        exact ⟨1, .lose hLeads hUnknown⟩
      · rw [follow_of_leads hLeads hKnown]
        by_cases hOld : next ∈ chain
        · rw [if_pos hOld]
          exact ⟨1, .close hLeads hKnown hOld⟩
        · rw [if_neg hOld]
          have hRoom :
              s.kept.length + 2 ≤
                fuel + (chain ++ [next]).length := by
            rw [List.length_append, List.length_singleton]
            omega
          rcases ih (h.step hLeads hKnown hOld) hRoom with
            ⟨n, hRest⟩
          exact ⟨n + 1, .step hLeads hKnown hOld hRest⟩

/- However aliases are followed, they come to an end soon. -/
theorem Follows.le
    {n : Nat}
    {r : Except Error CaseKey}
    (h : s.Follows n chain current r)
    (hPassed : s.Passed start chain current) :
    n + chain.length ≤ s.kept.length + 2 := by
  induction h with
  | settle _ | lose _ _ | close _ _ _ =>
      have hLength := hPassed.length_le
      omega
  | step hLeads hKnown hNew _ ih =>
      have hRest := ih (hPassed.step hLeads hKnown hNew)
      rw [List.length_append, List.length_singleton] at hRest
      omega

/- A bound above the number of aliases does not matter. -/
theorem Follows.follow_eq
    {n : Nat}
    {r : Except Error CaseKey}
    (h : s.Follows n chain current r)
    (spare : Nat) :
    s.follow (n + spare + 1) chain current = r := by
  induction h with
  | settle hSettles => exact follow_of_settles hSettles _ _
  | lose hLeads hUnknown =>
      exact follow_of_unknown hLeads hUnknown _ _
  | close hLeads hKnown hOld =>
      rw [follow_of_leads hLeads hKnown, if_pos hOld]
  | step hLeads hKnown hNew _ ih =>
      rw [follow_of_leads hLeads hKnown, if_neg hNew,
        Nat.add_right_comm]
      exact ih

/- There is one answer, however aliases are followed. -/
theorem Follows.unique
    {m n : Nat}
    {r r' : Except Error CaseKey}
    (h : s.Follows m chain current r)
    (h' : s.Follows n chain current r') :
    r = r' := by
  rw [← h.follow_eq n, Nat.add_comm m n, h'.follow_eq m]

end FlowGraph.Switch

------------------------------------------------------------
-- Walks
------------------------------------------------------------

namespace FlowGraph

variable {α : Type} {R : α → α → Prop}

/- A walk leads from its first item to its last. -/
theorem reflTransGen_of_isChain
    {path : List α}
    {a b : α}
    (h : path.IsChain R)
    (hHead : path.head? = some a)
    (hLast : path.getLast? = some b) :
    Relation.ReflTransGen R a b := by
  cases path with
  | nil => cases hHead
  | cons c rest =>
      cases hHead
      apply List.relationReflTransGen_of_exists_isChain_cons
        rest h
      rw [List.getLast?_eq_some_getLast (by simp)] at hLast
      exact Option.some.inj hLast

/-
  If each step has one outcome, then of two walks from the
  same place one is the start of the other.
-/
theorem prefix_or_prefix
    (hUnique : Relator.RightUnique R)
    {p q : List α}
    (hp : p.IsChain R)
    (hq : q.IsChain R)
    (hHead : p.head? = q.head?) :
    p <+: q ∨ q <+: p := by
  induction p generalizing q with
  | nil => exact Or.inl List.nil_prefix
  | cons a p ih =>
      cases q with
      | nil => exact Or.inr List.nil_prefix
      | cons b q =>
          cases hHead
          rw [List.prefix_cons_inj, List.prefix_cons_inj]
          cases p with
          | nil => exact Or.inl List.nil_prefix
          | cons c p =>
              cases q with
              | nil => exact Or.inr List.nil_prefix
              | cons d q =>
                  rw [List.isChain_cons_cons] at hp hq
                  apply ih hp.2 hq.2
                  rw [hUnique hp.1 hq.1]
                  rfl

/- Where no step is possible a walk has ended. -/
theorem eq_of_stuck
    {a b : α}
    (hStuck : ∀ c, ¬R a c)
    (h : Relation.ReflTransGen R a b) :
    a = b := by
  rcases h.cases_head with hEq | ⟨c, hStep, _⟩
  · exact hEq
  · exact absurd hStep (hStuck c)

/- A circle leads nowhere but along the circle. -/
theorem circle_of_circle
    (hUnique : Relator.RightUnique R)
    {a b : α}
    (hCircle : Relation.TransGen R a a)
    (h : Relation.ReflTransGen R a b) :
    Relation.TransGen R b b := by
  induction h with
  | refl => exact hCircle
  | tail _ hStep ih =>
      rcases Relation.TransGen.head'_iff.mp ih with
        ⟨d, hStep', hBack⟩
      rw [hUnique hStep hStep']
      exact Relation.TransGen.tail' hBack hStep'

/- A walk that leads into a circle does not get stuck. -/
theorem not_stuck_of_circle
    (hUnique : Relator.RightUnique R)
    {a b c : α}
    (hPath : Relation.ReflTransGen R a c)
    (hCircle : Relation.TransGen R c c)
    (h : Relation.ReflTransGen R a b) :
    ¬∀ d, ¬R b d := by
  intro hStuck
  have hOn : Relation.TransGen R b b := by
    rcases Relation.ReflTransGen.total_of_right_unique hUnique
      h hPath with hRest | hRest
    · rw [eq_of_stuck hStuck hRest]
      exact hCircle
    · exact circle_of_circle hUnique hCircle hRest
  rcases Relation.TransGen.head'_iff.mp hOn with ⟨d, hStep, _⟩
  exact hStuck d hStep

end FlowGraph

------------------------------------------------------------
-- Verdicts
------------------------------------------------------------

namespace FlowGraph.Switch

variable {β : Type} {s : Switch β}

/-
  A walk along the aliases from `k` that ends where it first
  comes back to a branch.
-/
structure Revisits
    (s : Switch β)
    (k : CaseKey)
    (path : List CaseKey) :
    Prop where
  start : path.head? = some k
  linked : path.IsChain s.Leads
  nodup : path.dropLast.Nodup
  back : ∃ j ∈ path.dropLast, path.getLast? = some j

/- The aliases from a branch run into a circle. -/
def Circling
    (s : Switch β)
    (k : CaseKey) :
    Prop :=
  ∃ j, Relation.ReflTransGen s.Leads k j ∧
    Relation.TransGen s.Leads j j

/- What the aliases from a branch come to. -/
inductive Verdict
    (s : Switch β)
    (k : CaseKey) :
    Except Error CaseKey → Prop where
  | settled
      {t : CaseKey}
      (hPath : Relation.ReflTransGen s.Leads k t)
      (hSettles : s.Settles t) :
      Verdict s k (.ok t)
  | undeclared
      {l : Label}
      (hPath : Relation.TransGen s.Leads k (.label l))
      (hUnknown : l ∉ s.labels) :
      Verdict s k (.error (.of (.unknownCase l)))
  | circular
      {path : List CaseKey}
      (hPath : s.Revisits k path) :
      Verdict s k (.error (.of (.aliasCycle path)))

variable {k : CaseKey}

/- A walk that comes back runs into a circle. -/
theorem Revisits.circling
    {path : List CaseKey}
    (h : s.Revisits k path) :
    s.Circling k := by
  rcases h.back with ⟨j, hMem, hLast⟩
  rcases List.append_of_mem hMem with ⟨before, after, hSplit⟩
  have hPath : path = before ++ j :: (after ++ [j]) := by
    rw [← List.dropLast_append_getLast? j hLast, hSplit]
    simp
  have hLinked := h.linked
  have hStart := h.start
  rw [hPath, List.isChain_split] at hLinked
  refine ⟨j, ?_, ?_⟩
  · refine reflTransGen_of_isChain hLinked.1 ?_ (by simp)
    rw [← hStart, hPath]
    cases before <;> rfl
  · obtain ⟨next, rest, hNext⟩ :
        ∃ next rest, after ++ [j] = next :: rest := by
      cases after with
      | nil => exact ⟨_, _, rfl⟩
      | cons a after => exact ⟨_, _, rfl⟩
    rw [hNext, List.isChain_cons_cons] at hLinked
    refine Relation.TransGen.head' hLinked.2.1
      (reflTransGen_of_isChain hLinked.2.2 rfl ?_)
    rw [← hNext]
    simp

/- A walk that came back does not start another one. -/
theorem Revisits.eq_of_prefix
    {p q : List CaseKey}
    (hp : s.Revisits k p)
    (hq : s.Revisits k q)
    (h : p <+: q) :
    p = q := by
  rcases hp.back with ⟨i, hMem, hLast⟩
  rcases hq.back with ⟨j, _, hLast'⟩
  have hEnd := List.dropLast_append_getLast? j hLast'
  rw [← hEnd, List.prefix_concat_iff] at h
  rcases h with hEq | hShort
  · rw [hEq, hEnd]
  · -- Then no branch of `p` would be passed twice.
    have hNodup : p.Nodup := hq.nodup.sublist hShort.sublist
    rw [← List.dropLast_append_getLast? i hLast,
      List.nodup_append] at hNodup
    exact absurd rfl (hNodup.2.2 i hMem i (by simp))

theorem Revisits.unique
    {p q : List CaseKey}
    (hp : s.Revisits k p)
    (hq : s.Revisits k q) :
    p = q := by
  rcases prefix_or_prefix leads_unique hp.linked hq.linked
    (hp.start.trans hq.start.symm) with h | h
  · exact hp.eq_of_prefix hq h
  · exact (hq.eq_of_prefix hp h).symm

/- Following aliases comes to the verdict on the start. -/
theorem Follows.verdict
    {n : Nat}
    {start current : CaseKey}
    {chain : List CaseKey}
    {r : Except Error CaseKey}
    (h : s.Follows n chain current r)
    (hPassed : s.Passed start chain current) :
    s.Verdict start r := by
  induction h with
  | settle hSettles =>
      exact .settled
        (reflTransGen_of_isChain hPassed.linked hPassed.head
          hPassed.last) hSettles
  | lose hLeads hUnknown =>
      exact .undeclared
        (Relation.TransGen.tail'
          (reflTransGen_of_isChain hPassed.linked
            hPassed.head hPassed.last) hLeads) hUnknown
  | close hLeads _ hOld =>
      refine .circular ⟨hPassed.head_concat _,
        hPassed.linked_concat hLeads, ?_, ?_⟩
      · rw [List.dropLast_concat]
        exact hPassed.nodup
      · exact ⟨_, by rwa [List.dropLast_concat], by simp⟩
  | step hLeads hKnown hNew _ ih =>
      exact ih (hPassed.step hLeads hKnown hNew)

/- A chain of aliases has one end. -/
theorem end_unique
    {t t' : CaseKey}
    (hPath : Relation.ReflTransGen s.Leads k t)
    (hStuck : ∀ next, ¬s.Leads t next)
    (hPath' : Relation.ReflTransGen s.Leads k t')
    (hStuck' : ∀ next, ¬s.Leads t' next) :
    t = t' := by
  rcases Relation.ReflTransGen.total_of_right_unique
    leads_unique hPath hPath' with h | h
  · exact eq_of_stuck hStuck h
  · exact (eq_of_stuck hStuck' h).symm

/- A chain that settles does not end at an unknown label. -/
theorem Settles.mem_labels
    {t : CaseKey}
    {l : Label}
    (h : s.Settles t)
    (hPath : Relation.ReflTransGen s.Leads k t)
    (hPath' : Relation.TransGen s.Leads k (.label l)) :
    l ∈ s.labels := by
  refine Decidable.byContradiction fun hUnknown => ?_
  have hEnd : t = .label l :=
    end_unique hPath h.stuck hPath'.to_reflTransGen
      (unknown_stuck hUnknown)
  rw [hEnd] at h
  exact hUnknown (label_mem_keys.mp h.mem_keys)

/- Aliases that run into a circle have no end. -/
theorem Circling.not_stuck
    {t : CaseKey}
    (h : s.Circling k)
    (hPath : Relation.ReflTransGen s.Leads k t) :
    ¬∀ next, ¬s.Leads t next := by
  rcases h with ⟨j, hj, hCircle⟩
  exact not_stuck_of_circle leads_unique hj hCircle hPath

/- There is one verdict on a branch. -/
theorem Verdict.unique
    {r r' : Except Error CaseKey}
    (h : s.Verdict k r)
    (h' : s.Verdict k r') :
    r = r' := by
  cases h with
  | settled hPath hSettles =>
      cases h' with
      | settled hPath' hSettles' =>
          rw [end_unique hPath hSettles.stuck hPath'
            hSettles'.stuck]
      | undeclared hPath' hUnknown =>
          exact absurd (hSettles.mem_labels hPath hPath')
            hUnknown
      | circular hRevisits =>
          exact absurd hSettles.stuck
            (hRevisits.circling.not_stuck hPath)
  | undeclared hPath hUnknown =>
      cases h' with
      | settled hPath' hSettles =>
          exact absurd (hSettles.mem_labels hPath' hPath)
            hUnknown
      | undeclared hPath' hUnknown' =>
          have hEnd :=
            end_unique hPath.to_reflTransGen
              (unknown_stuck hUnknown)
              hPath'.to_reflTransGen (unknown_stuck hUnknown')
          cases hEnd
          rfl
      | circular hRevisits =>
          exact absurd (unknown_stuck hUnknown)
            (hRevisits.circling.not_stuck
              hPath.to_reflTransGen)
  | circular hRevisits =>
      cases h' with
      | settled hPath hSettles =>
          exact absurd hSettles.stuck
            (hRevisits.circling.not_stuck hPath)
      | undeclared hPath hUnknown =>
          exact absurd (unknown_stuck hUnknown)
            (hRevisits.circling.not_stuck
              hPath.to_reflTransGen)
      | circular hRevisits' =>
          rw [hRevisits.unique hRevisits']

end FlowGraph.Switch

------------------------------------------------------------
-- Resolution
------------------------------------------------------------

namespace FlowGraph.Switch

variable {β : Type} {s : Switch β} {k : CaseKey}

theorem length_foldl_keep
    (cases table : List (Label × Arm β)) :
    (cases.foldl keep table).length ≤
      table.length + cases.length := by
  induction cases generalizing table with
  | nil => exact Nat.le_refl _
  | cons c rest ih =>
      have hKeep : (keep table c).length ≤ table.length + 1 := by
        unfold keep
        split
        · exact Nat.le_succ _
        · rw [List.length_append, List.length_singleton]
      have hRest := ih (keep table c)
      rw [List.foldl_cons, List.length_cons]
      omega

/- A branch is resolved by following its aliases. -/
theorem follows_resolve
    (h : k ∈ s.keys) :
    ∃ n, s.Follows n [k] k (s.resolve k) := by
  apply (Passed.single h).follows
  have hKept : s.kept.length ≤ s.cases.length := by
    simpa [kept] using length_foldl_keep s.cases []
  have hKeys : s.keys.length = s.cases.length + 1 := by
    simp [keys, labels]
  rw [hKeys, List.length_singleton]
  omega

/-
  However the aliases of a branch are followed, the answer
  is what it resolves to, and not many aliases are passed.
-/
theorem Follows.eq_resolve
    {n : Nat}
    {r : Except Error CaseKey}
    (hKey : k ∈ s.keys)
    (h : s.Follows n [k] k r) :
    n ≤ s.kept.length + 1 ∧ r = s.resolve k := by
  have hLe := h.le (Passed.single hKey)
  rw [List.length_singleton] at hLe
  rcases follows_resolve hKey with ⟨m, hResolve⟩
  exact ⟨by omega, h.unique hResolve⟩

/- A bound of the size of the table is enough. -/
theorem follow_eq_resolve
    (hKey : k ∈ s.keys)
    {fuel : Nat}
    (hFuel : s.kept.length + 1 ≤ fuel) :
    s.follow fuel [k] k = s.resolve k := by
  have hRoom :
      s.kept.length + 2 ≤ fuel + [k].length := by
    rw [List.length_singleton]
    omega
  rcases (Passed.single hKey).follows hRoom with ⟨n, hFollows⟩
  exact (hFollows.eq_resolve hKey).2

/- A branch resolves as the verdict on it says. -/
theorem verdict_resolve
    (hKey : k ∈ s.keys) :
    s.Verdict k (s.resolve k) := by
  rcases follows_resolve hKey with ⟨n, hFollows⟩
  exact hFollows.verdict (Passed.single hKey)

theorem resolve_eq_iff
    (hKey : k ∈ s.keys)
    {r : Except Error CaseKey} :
    s.resolve k = r ↔ s.Verdict k r := by
  constructor
  · intro hEq
    rw [← hEq]
    exact verdict_resolve hKey
  · exact (verdict_resolve hKey).unique

theorem resolve_eq_ok_iff
    (hKey : k ∈ s.keys)
    {t : CaseKey} :
    s.resolve k = .ok t ↔
      Relation.ReflTransGen s.Leads k t ∧ s.Settles t := by
  rw [resolve_eq_iff hKey]
  constructor
  · intro h
    cases h with
    | settled hPath hSettles => exact ⟨hPath, hSettles⟩
  · rintro ⟨hPath, hSettles⟩
    exact .settled hPath hSettles

theorem resolve_eq_unknown_iff
    (hKey : k ∈ s.keys)
    {l : Label} :
    s.resolve k = .error (.of (.unknownCase l)) ↔
      Relation.TransGen s.Leads k (.label l) ∧
        l ∉ s.labels := by
  rw [resolve_eq_iff hKey]
  constructor
  · intro h
    cases h with
    | undeclared hPath hUnknown => exact ⟨hPath, hUnknown⟩
  · rintro ⟨hPath, hUnknown⟩
    exact .undeclared hPath hUnknown

theorem resolve_eq_cycle_iff
    (hKey : k ∈ s.keys)
    {path : List CaseKey} :
    s.resolve k = .error (.of (.aliasCycle path)) ↔
      s.Revisits k path := by
  rw [resolve_eq_iff hKey]
  constructor
  · intro h
    cases h with
    | circular hRevisits => exact hRevisits
  · exact .circular

/- Aliases come back to a branch if they run in a circle. -/
theorem exists_revisits_iff
    (hKey : k ∈ s.keys) :
    (∃ path, s.Revisits k path) ↔ s.Circling k := by
  constructor
  · rintro ⟨path, hRevisits⟩
    exact hRevisits.circling
  · intro hCircling
    have hVerdict := verdict_resolve hKey
    generalize s.resolve k = r at hVerdict
    cases hVerdict with
    | settled hPath hSettles =>
        exact absurd hSettles.stuck (hCircling.not_stuck hPath)
    | undeclared hPath hUnknown =>
        exact absurd (unknown_stuck hUnknown)
          (hCircling.not_stuck hPath.to_reflTransGen)
    | circular hRevisits => exact ⟨_, hRevisits⟩

end FlowGraph.Switch
