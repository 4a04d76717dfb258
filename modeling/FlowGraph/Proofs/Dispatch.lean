import FlowGraph.Proofs.Journal
import FlowGraph.Proofs.Provenance
import FlowGraph.Proofs.Refusal
import FlowGraph.Proofs.Switches

/-
  Switches as a whole.

  When a switch is complete, an alias and the branch that it
  resolves to lead to the same node, or both are open and
  listed, or both are open and not listed.

  Key definitions include:
    * `FlowGraph.Arm.alias?`
    * `FlowGraph.Switch.Like`
    * `FlowGraph.Script.Assembled`
    * `FlowGraph.Script.Dispatched`

  Key theorems include:
    * `FlowGraph.Switch.arms_index`
    * `FlowGraph.Switch.index_of_keys`
    * `FlowGraph.Switch.resolve_isSome`
    * `FlowGraph.Script.paired_of_wired`
    * `FlowGraph.Script.meets_dispatch_assembled`
    * `FlowGraph.Script.meets_dispatch_spread`
-/

------------------------------------------------------------
-- Keys And Exec Outputs
------------------------------------------------------------

namespace FlowGraph

/- The branch that a branch is an alias of. -/
def Arm.alias?
    {β : Type} :
    Arm β → Option CaseKey
  | .alias k => some k
  | _ => none

namespace Switch

variable {β : Type} {sw : Switch β}

/- Cases and their labels are found at the same place. -/
theorem lookup_eq_getElem?
    (cases : List (Label × Arm β))
    (l : Label) :
    cases.lookup l =
      (cases.map Prod.snd)[((cases.map Prod.fst).map
        CaseKey.label).idxOf (.label l)]? := by
  induction cases with
  | nil => rfl
  | cons c rest ih =>
      obtain ⟨k, arm⟩ := c
      by_cases hEq : l = k
      · subst hEq
        simp
      · have hBeq : (l == k) = false := by simpa using hEq
        have hNe :
            (CaseKey.label k == .label l) = false := by
          simpa using fun h => hEq h.symm
        rw [List.lookup_cons, hBeq]
        simp only [List.map_cons, List.idxOf_cons, hNe,
          cond_false, List.getElem?_cons_succ]
        exact ih

/- What a branch does is listed under its exec output. -/
theorem arms_index
    (k : CaseKey) :
    sw.arms[sw.index k]? = sw.arm? k := by
  cases k with
  | default => simp [arms, index, keys, arm?]
  | label l =>
      have hNe : (CaseKey.default == .label l) = false := by
        simp
      simp only [arms, index, keys, arm?, List.idxOf_cons,
        hNe, cond_false, List.getElem?_cons_succ]
      exact (lookup_eq_getElem? sw.cases l).symm

/- Following aliases ends at a branch that is none. -/
theorem follow_isSome
    {fuel : Nat}
    {chain : List CaseKey}
    {k t : CaseKey}
    (hKnown : sw.arm? k ≠ none)
    (h : sw.follow fuel chain k = .ok t) :
    ∃ arm, sw.arm? t = some arm ∧ arm.alias? = none := by
  induction fuel generalizing chain k with
  | zero => cases h
  | succ fuel ih =>
      unfold follow at h
      split at h
      · split at h
        · cases h
        · rename_i next _ _ _ hNext
          split at h
          · cases h
          · refine ih ?_ h
            intro hNone
            cases next with
            | default => cases hNone
            | label l => exact hNext l rfl hNone
      · rename_i hNot
        cases h
        cases hArm : sw.arm? t with
        | none => exact absurd hArm hKnown
        | some arm =>
            refine ⟨arm, rfl, ?_⟩
            cases arm with
            | body b => rfl
            | empty => rfl
            | «alias» next => exact absurd hArm (hNot next)

/- Aliases are followed without a look at the bodies. -/
theorem follow_congr
    {γ : Type}
    {sw' : Switch γ}
    (h :
      ∀ k, (sw.arm? k).map Arm.alias? =
        (sw'.arm? k).map Arm.alias?)
    (fuel : Nat)
    (chain : List CaseKey)
    (k : CaseKey) :
    sw.follow fuel chain k = sw'.follow fuel chain k := by
  have hNone : ∀ k, sw.arm? k = none ↔ sw'.arm? k = none := by
    intro k
    have hMap := h k
    cases hArm : sw.arm? k <;> cases hArm' : sw'.arm? k <;>
      simp_all
  have hAlias :
      ∀ k next, sw.arm? k = some (.alias next) ↔
        sw'.arm? k = some (.alias next) := by
    intro k next
    have hMap := h k
    cases hArm : sw.arm? k with
    | none => simp [(hNone k).mp hArm]
    | some arm =>
        cases hArm' : sw'.arm? k with
        | none => simp [(hNone k).mpr hArm'] at hArm
        | some arm' =>
            rw [hArm, hArm'] at hMap
            cases arm <;> cases arm' <;>
              simp_all [Arm.alias?]
  induction fuel generalizing chain k with
  | zero => rfl
  | succ fuel ih =>
      by_cases hIs : ∃ next, sw.arm? k = some (.alias next)
      · obtain ⟨next, hNext⟩ := hIs
        have hNext' := (hAlias k next).mp hNext
        simp only [follow, hNext, hNext']
        cases next with
        | default => simp only [ih]
        | label l =>
            cases hArm : sw.arm? (.label l) with
            | none => simp [(hNone _).mp hArm]
            | some arm =>
                have hSome : sw'.arm? (.label l) ≠ none := by
                  rw [Ne, ← hNone, hArm]
                  simp
                obtain ⟨arm', hArm'⟩ :=
                  Option.ne_none_iff_exists'.mp hSome
                simp only [hArm', ih]
      · have hIs' :
            ¬∃ next, sw'.arm? k = some (.alias next) := by
          rintro ⟨next, hNext⟩
          exact hIs ⟨next, (hAlias k next).mpr hNext⟩
        unfold follow
        split
        · rename_i next hNext
          exact absurd ⟨next, hNext⟩ hIs
        · split
          · rename_i next hNext
            exact absurd ⟨next, hNext⟩ hIs'
          · rfl

/-
  Two switches have the same labels and the same aliases;
  their bodies may differ.
-/
structure Like
    {γ : Type}
    (sw : Switch β)
    (sw' : Switch γ) :
    Prop where
  labels : sw.labels = sw'.labels
  aliases :
    ∀ j : Nat, sw.arms[j]?.map Arm.alias? =
      sw'.arms[j]?.map Arm.alias?

section Like

variable {γ : Type} {sw' : Switch γ}

theorem Like.symm
    (h : sw.Like sw') :
    sw'.Like sw :=
  ⟨h.labels.symm, fun j => (h.aliases j).symm⟩

theorem Like.trans
    {δ : Type}
    {sw'' : Switch δ}
    (h : sw.Like sw')
    (h' : sw'.Like sw'') :
    sw.Like sw'' :=
  ⟨h.labels.trans h'.labels,
    fun j => (h.aliases j).trans (h'.aliases j)⟩

theorem Like.keys
    (h : sw.Like sw') :
    sw.keys = sw'.keys := by
  rw [Switch.keys, h.labels, Switch.keys]

/- The exec outputs are those of the same branches. -/
theorem Like.index
    (h : sw.Like sw')
    (k : CaseKey) :
    sw.index k = sw'.index k := by
  rw [Switch.index, h.keys, Switch.index]

theorem Like.alias?
    (h : sw.Like sw')
    (k : CaseKey) :
    (sw.arm? k).map Arm.alias? =
      (sw'.arm? k).map Arm.alias? := by
  rw [← arms_index, ← arms_index, h.index]
  exact h.aliases _

/- Aliases resolve to the same branches. -/
theorem Like.resolve
    (h : sw.Like sw')
    (k : CaseKey) :
    sw.resolve k = sw'.resolve k := by
  rw [Switch.resolve, follow_congr h.alias?, h.keys,
    Switch.resolve]

end Like

/- A branch resolves to one that is not an alias. -/
theorem resolve_isSome
    {k t : CaseKey}
    {arm : Arm β}
    (hArm : sw.arm? k = some arm)
    (h : sw.resolve k = .ok t) :
    ∃ arm', sw.arm? t = some arm' ∧ arm'.alias? = none :=
  follow_isSome (by simp [hArm]) h

/- The branches and what they do are equally many. -/
theorem length_keys :
    sw.keys.length = sw.arms.length := by
  simp [keys, arms, labels]

/- A branch is listed at its exec output. -/
theorem keys_index
    {k : CaseKey}
    {arm : Arm β}
    (h : sw.arm? k = some arm) :
    sw.keys[sw.index k]? = some k := by
  rw [← arms_index] at h
  have hLt := (List.getElem?_eq_some_iff.mp h).1
  rw [← length_keys] at hLt
  rw [List.getElem?_eq_getElem hLt]
  exact congrArg some (List.getElem_idxOf hLt)

/- The branches of a switch are distinct. -/
theorem nodup_keys
    (h : sw.repeated? = none) :
    sw.keys.Nodup := by
  have hLabels := (nodup_of_firstRepeated h).1
  refine List.nodup_cons.mpr ⟨by simp, ?_⟩
  apply List.Pairwise.map CaseKey.label _ hLabels
  intro k l hNe hEq
  exact hNe (CaseKey.label.inj hEq)

/- The exec output of a branch is where it is listed. -/
theorem index_of_keys
    (h : sw.repeated? = none)
    {j : Nat}
    {k : CaseKey}
    (hk : sw.keys[j]? = some k) :
    sw.index k = j := by
  rcases List.getElem?_eq_some_iff.mp hk with ⟨hLt, hEq⟩
  rw [← hEq]
  exact (nodup_keys h).idxOf_getElem j hLt

end Switch

end FlowGraph

------------------------------------------------------------
-- Pairs Of Exec Outputs
------------------------------------------------------------

namespace FlowGraph.Script

variable {lo node : Nat} {g g' : Graph}
variable {arms : List (Arm (Run Unit))}
variable {branches : List (Option Branch)}
variable {targets : List Nat}
variable {join tail' : List Endpoint}

/- Aliases are the branches that were not run. -/
theorem aliasOf_zip
    {index target : Nat}
    {shared : Branch}
    (h :
      AliasOf branches 0 (branches.zip targets) index target
        shared) :
    branches[index]? = some none ∧
      targets[index]? = some target := by
  have hEntry := h.entry
  rw [Nat.sub_zero, List.getElem?_zip_eq_some] at hEntry
  exact hEntry

/- An alias has one target. -/
theorem AliasOf.unique
    {index target target' : Nat}
    {shared shared' : Branch}
    (h :
      AliasOf branches 0 (branches.zip targets) index target
        shared)
    (h' :
      AliasOf branches 0 (branches.zip targets) index
        target' shared') :
    target' = target ∧ shared' = shared := by
  have hEq : target' = target :=
    Option.some.inj
      ((aliasOf_zip h').2.symm.trans (aliasOf_zip h).2)
  have hShared := h'.shared
  rw [hEq, h.shared] at hShared
  exact ⟨hEq,
    (Option.some.inj (Option.some.inj hShared)).symm⟩

/- A branch that was run comes to open outputs of its own. -/
theorem ArmsRan.own
    (h : ArmsRan lo g node 0 arms branches)
    {j : Nat}
    {b : Branch}
    (hb : branches[j]? = some (some b)) :
    b.head = g.execTarget ⟨node, j⟩ ∧
      ∀ e ∈ b.tail, e = ⟨node, j⟩ ∨ lo ≤ e.node := by
  have hLt : j < arms.length := by
    rw [← h.length]
    exact (List.getElem?_eq_some_iff.mp hb).1
  have hRan := h.each j _ _
    (List.getElem?_eq_getElem hLt) hb
  rw [Nat.zero_add] at hRan
  unfold ArmRan at hRan
  split at hRan
  · rename_i hEq
    cases hEq
  · rename_i hEq
    cases hEq
    exact hRan
  · rename_i hEq
    cases hEq
    exact hRan
  · exact hRan.elim

/- A member of a join that belongs to the switch itself. -/
theorem mem_join_self
    (hRan : ArmsRan lo g node 0 arms branches)
    (hBelow : node < lo)
    (hWired :
      Wired node branches 0 (branches.zip targets)
        (ownJoin branches) (spreadTail node 0 branches) g
        join tail' g')
    {j : Nat} :
    ⟨node, j⟩ ∈ join ↔
      (∃ b, branches[j]? = some (some b) ∧
        ⟨node, j⟩ ∈ b.tail) ∨
      ∃ target shared,
        AliasOf branches 0 (branches.zip targets) j target
            shared ∧
          shared.head = none ∧
          ⟨node, target⟩ ∈ shared.tail := by
  have hOwn :
      ∀ {i b}, branches[i]? = some (some b) →
        (⟨node, j⟩ : Endpoint) ∈ b.tail → j = i := by
    intro i b hb he
    rcases (hRan.own hb).2 _ he with hEq | hGe
    · cases hEq
      rfl
    · exact absurd hBelow (Nat.not_lt.mpr hGe)
  rw [hWired.joined]
  constructor
  · rintro (he | ⟨i, t, b, hAlias, hNone, he⟩)
    · unfold ownJoin at he
      rw [mem_joinTails] at he
      obtain ⟨tail, hTail, he⟩ := he
      obtain ⟨b, hb, rfl⟩ := List.mem_map.mp hTail
      obtain ⟨b?, hb?, hEq⟩ := List.mem_filterMap.mp hb
      obtain ⟨i, hi⟩ := List.getElem?_of_mem hb?
      rw [show b? = some b from hEq] at hi
      have hji := hOwn hi he
      subst hji
      exact Or.inl ⟨b, hi, he⟩
    · obtain ⟨d, hd, hEq⟩ := List.mem_map.mp he
      split at hEq
      · rename_i hTarget
        cases hEq
        exact Or.inr ⟨t, b, hAlias, hNone, hTarget ▸ hd⟩
      · rename_i hOther
        subst hEq
        have hjt := hOwn hAlias.shared hd
        subst hjt
        exact absurd rfl hOther
  · rintro (⟨b, hb, he⟩ | ⟨t, b, hAlias, hNone, he⟩)
    · refine Or.inl ?_
      unfold ownJoin
      rw [mem_joinTails]
      refine ⟨b.tail, List.mem_map_of_mem ?_, he⟩
      exact List.mem_filterMap.mpr
        ⟨some b, List.mem_of_getElem? hb, rfl⟩
    · refine Or.inr ⟨j, t, b, hAlias, hNone, ?_⟩
      refine List.mem_map.mpr ⟨_, he, ?_⟩
      rw [if_pos rfl]

/- Only aliases get links when the aliases are wired. -/
theorem ne_of_linked
    {j : Nat}
    {b : Branch}
    (hb : branches[j]? = some (some b))
    (index head : Nat)
    (h : Linked branches 0 (branches.zip targets) index head) :
    (⟨node, j⟩ : Endpoint) ≠ ⟨node, index⟩ := by
  obtain ⟨_, _, hAlias, _⟩ := h
  intro hEq
  cases hEq
  have hNone := (aliasOf_zip hAlias).1
  rw [hb] at hNone
  cases hNone

/-
  In a switch that is complete an alias is paired with the
  branch that it resolves to.
-/
theorem paired_of_wired
    (hRan : ArmsRan lo g node 0 arms branches)
    (hBelow : node < lo)
    (hLt : node < g'.nextId)
    (hOpen : g.Cursor (spreadTail node 0 branches))
    (hCursor : g'.Cursor join)
    (hWired :
      Wired node branches 0 (branches.zip targets)
        (ownJoin branches) (spreadTail node 0 branches) g
        join tail' g')
    {index target : Nat}
    {shared : Branch}
    (hAlias :
      AliasOf branches 0 (branches.zip targets) index target
        shared) :
    g'.Paired join ⟨node, index⟩ ⟨node, target⟩ := by
  have hNone := (aliasOf_zip hAlias).1
  have hShared := hAlias.shared
  have hKept :
      g'.execTarget ⟨node, target⟩ = shared.head := by
    rw [hWired.apart _ (ne_of_linked hShared),
      (hRan.own hShared).1]
  cases hHead : shared.head with
  | some head =>
      rw [hHead] at hKept
      have hLinked :
          g'.execTarget ⟨node, index⟩ = some head :=
        hWired.linked index head
          ⟨target, shared, hAlias, hHead⟩
      -- Both lead to the first node of the shared body, so
      -- neither of them is open.
      have hNot :
          ∀ e, g'.execTarget e = some head → e ∉ join := by
        intro e he hMem
        have hNone := (hCursor.isOpen e hMem).2
        rw [he] at hNone
        cases hNone
      exact ⟨hLt, hLt, hLinked.trans hKept.symm,
        iff_of_false (hNot _ hLinked) (hNot _ hKept)⟩
  | none =>
      rw [hHead] at hKept
      have hOwn :
          (⟨node, index⟩ : Endpoint) ∈
            spreadTail node 0 branches :=
        mem_spreadTail.mpr
          (Or.inr ⟨index, hNone, by rw [Nat.zero_add]⟩)
      have hFree :
          g'.execTarget ⟨node, index⟩ = none := by
        rw [hWired.apart]
        · exact (hOpen.isOpen _ hOwn).2
        · rintro i head ⟨t, b, hb, hSome⟩ hEq
          cases hEq
          rw [(hAlias.unique hb).2, hHead] at hSome
          cases hSome
      refine ⟨hLt, hLt, hFree.trans hKept.symm, ?_⟩
      rw [mem_join_self hRan hBelow hWired,
        mem_join_self hRan hBelow hWired]
      constructor
      · rintro (⟨b, hb, _⟩ | ⟨t, b, hb, _, he⟩)
        · rw [hNone] at hb
          cases hb
        · obtain ⟨rfl, rfl⟩ := hAlias.unique hb
          exact Or.inl ⟨b, hShared, he⟩
      · rintro (⟨b, hb, he⟩ | ⟨t, b, hb, _, _⟩)
        · rw [hShared] at hb
          cases hb
          exact Or.inr ⟨target, shared, hAlias, hHead, he⟩
        · have hAbsurd := (aliasOf_zip hb).1
          rw [hShared] at hAbsurd
          cases hAbsurd

/- What the branches left open themselves. -/
theorem mem_ownJoin
    {e : Endpoint} :
    e ∈ ownJoin branches ↔
      ∃ (j : Nat) (b : Branch),
        branches[j]? = some (some b) ∧ e ∈ b.tail := by
  unfold ownJoin
  rw [mem_joinTails]
  constructor
  · rintro ⟨tail, hTail, he⟩
    obtain ⟨b, hb, rfl⟩ := List.mem_map.mp hTail
    obtain ⟨b?, hb?, hEq⟩ := List.mem_filterMap.mp hb
    obtain ⟨j, hj⟩ := List.getElem?_of_mem hb?
    rw [show b? = some b from hEq] at hj
    exact ⟨j, b, hj, he⟩
  · rintro ⟨j, b, hb, he⟩
    refine ⟨b.tail, List.mem_map_of_mem ?_, he⟩
    exact List.mem_filterMap.mpr
      ⟨some b, List.mem_of_getElem? hb, rfl⟩

theorem mem_ownJoin_cons
    {b? : Option Branch}
    {e : Endpoint} :
    e ∈ ownJoin (b? :: branches) ↔
      (∃ b, b? = some b ∧ e ∈ b.tail) ∨
        e ∈ ownJoin branches := by
  unfold ownJoin
  rw [mem_joinTails, mem_joinTails]
  cases b? with
  | none => simp
  | some b => simp

/-
  What is joined was left open by a branch, or is the exec
  output of an alias.
-/
theorem Wired.mem_join
    (h :
      Wired node branches 0 (branches.zip targets)
        (ownJoin branches) (spreadTail node 0 branches) g
        join tail' g')
    {e : Endpoint}
    (he : e ∈ join) :
    e ∈ ownJoin branches ∨
      ∃ j : Nat, branches[j]? = some none ∧ e = ⟨node, j⟩ := by
  rcases (h.joined e).mp he with he | hRest
  · exact Or.inl he
  · rcases hRest with ⟨i, t, b, hAlias, _, hMem⟩
    rcases List.mem_map.mp hMem with ⟨d, hd, hEq⟩
    split at hEq
    · exact Or.inr ⟨i, (aliasOf_zip hAlias).1, hEq.symm⟩
    · rw [← hEq]
      exact Or.inl (mem_ownJoin.mpr ⟨t, b, hAlias.shared, hd⟩)

/- What is joined is open after the aliases are wired. -/
theorem mem_tail_of_mem_join
    (hRan : ArmsRan lo g node 0 arms branches)
    (hBelow : node < lo)
    (hWired :
      Wired node branches 0 (branches.zip targets)
        (ownJoin branches) (spreadTail node 0 branches) g
        join tail' g')
    {e : Endpoint}
    (he : e ∈ join) :
    e ∈ tail' := by
  have hNew :
      ∀ i : Nat, lo ≤ e.node → e ≠ ⟨node, i⟩ := by
    intro i hGe hEq
    rw [hEq] at hGe
    exact absurd hBelow (Nat.not_lt.mpr hGe)
  rw [hWired.isOpen, mem_spreadTail]
  rcases (hWired.joined e).mp he with
    he | ⟨i, t, b, hAlias, hNone, he⟩
  · obtain ⟨j, b, hb, he⟩ := mem_ownJoin.mp he
    refine ⟨Or.inl ⟨j, b, hb, he⟩, ?_⟩
    intro i head hLinked
    rcases (hRan.own hb).2 e he with rfl | hGe
    · exact ne_of_linked hb i head hLinked
    · exact hNew i hGe
  · obtain ⟨d, hd, hEq⟩ := List.mem_map.mp he
    split at hEq
    · subst hEq
      refine ⟨Or.inr ⟨i, (aliasOf_zip hAlias).1,
        by rw [Nat.zero_add]⟩, ?_⟩
      rintro i' head ⟨t', b', hb', hSome⟩ hEq
      cases hEq
      rw [(hAlias.unique hb').2, hNone] at hSome
      cases hSome
    · rename_i hOther
      subst hEq
      refine ⟨Or.inl ⟨t, b, hAlias.shared, hd⟩, ?_⟩
      intro i' head _
      rcases (hRan.own hAlias.shared).2 d hd with hEq | hGe
      · exact absurd hEq hOther
      · exact hNew i' hGe

/- Open outputs of new nodes are joined. -/
theorem mem_join_of_mem_tail
    (hBelow : node < lo)
    (hWired :
      Wired node branches 0 (branches.zip targets)
        (ownJoin branches) (spreadTail node 0 branches) g
        join tail' g')
    {e : Endpoint}
    (he : e ∈ tail')
    (hGe : lo ≤ e.node) :
    e ∈ join := by
  have hSpread := ((hWired.isOpen e).mp he).1
  rw [hWired.joined, mem_ownJoin]
  rcases mem_spreadTail.mp hSpread with hOwn | ⟨j, _, rfl⟩
  · exact Or.inl hOwn
  · exact absurd hBelow (Nat.not_lt.mpr hGe)

end FlowGraph.Script

------------------------------------------------------------
-- Complete Switches
------------------------------------------------------------

namespace FlowGraph.Script

/-
  A switch is complete: the flow goes on, and every branch is
  paired with the one that it resolves to.
-/
structure Dispatched
    (P : Entry → Prop)
    (sw : Switch (Run Unit))
    (s : Session)
    (id : Nat)
    (s' : Session) :
    Prop where
  leads : Session.Leads P s.graph.nextId s s'
  isNew : Session.IsNew s s' (.node id)
  node :
    ∃ c, s'.graph.nodes.get? id = some (switchNode c sw)
  paired :
    ∀ k arm, sw.arm? k = some arm →
      arm.alias?.isSome = true →
        ∃ t, sw.resolve k = .ok t ∧
          s'.graph.Paired s'.frame.tail ⟨id, sw.index k⟩
            ⟨id, sw.index t⟩

variable {P : Entry → Prop}
variable {s : Session} {control : Value}
variable {sw : Switch (Run Unit)}

/- The branch that each branch of a switch resolves to. -/
theorem resolve_of_checkSwitch
    {targets : List CaseKey}
    (h : checkSwitch control sw = .ok targets)
    {k : CaseKey}
    {arm : Arm (Run Unit)}
    (hArm : sw.arm? k = some arm) :
    ∃ t, sw.resolve k = .ok t ∧
      targets[sw.index k]? = some t := by
  rw [checkSwitch_eq] at h
  split at h
  · cases h
  · split at h
    · cases h
    · obtain ⟨_, _, hMap⟩ := bind_eq_ok.mp h
      exact getElem?_of_mapM hMap (Switch.keys_index hArm)

/- The branch at an exec output. -/
theorem arm?_of_checkSwitch
    {targets : List CaseKey}
    (hCheck : checkSwitch control sw = .ok targets)
    {j : Nat}
    {arm : Arm (Run Unit)}
    (hArm : sw.arms[j]? = some arm) :
    ∃ k, sw.keys[j]? = some k ∧ sw.index k = j ∧
      sw.arm? k = some arm := by
  have hLt := (List.getElem?_eq_some_iff.mp hArm).1
  rw [← Switch.length_keys] at hLt
  have hKey := List.getElem?_eq_getElem hLt
  have hIndex :=
    Switch.index_of_keys (passed_of_checkSwitch hCheck).2.1
      hKey
  refine ⟨_, hKey, hIndex, ?_⟩
  rw [← Switch.arms_index, hIndex]
  exact hArm

/- An alias and its target among the branches of a switch. -/
theorem aliasOf_resolve
    {lo node : Nat}
    {g : Graph}
    {branches : List (Option Branch)}
    {targets : List CaseKey}
    (hCheck : checkSwitch control sw = .ok targets)
    (hRan : ArmsRan lo g node 0 sw.arms branches)
    {k : CaseKey}
    {arm : Arm (Run Unit)}
    (hArm : sw.arm? k = some arm)
    (hAlias : arm.alias?.isSome = true) :
    ∃ t shared, sw.resolve k = .ok t ∧
      AliasOf branches 0
        (branches.zip (targets.map sw.index)) (sw.index k)
        (sw.index t) shared := by
  obtain ⟨t, hResolve, hTarget⟩ :=
    resolve_of_checkSwitch hCheck hArm
  obtain ⟨arm', hArm', hNot⟩ :=
    Switch.resolve_isSome hArm hResolve
  have hRun :
      ∀ {k arm}, sw.arm? k = some arm →
        ∃ b?, branches[sw.index k]? = some b? ∧
          ArmRan lo g ⟨node, sw.index k⟩ arm b? := by
    intro k arm hArm
    rw [← Switch.arms_index] at hArm
    have hLt := (List.getElem?_eq_some_iff.mp hArm).1
    rw [← hRan.length] at hLt
    have hRan' :=
      hRan.each _ _ _ hArm (List.getElem?_eq_getElem hLt)
    rw [Nat.zero_add] at hRan'
    exact ⟨_, List.getElem?_eq_getElem hLt, hRan'⟩
  obtain ⟨b?, hb?, hAliasRan⟩ := hRun hArm
  obtain ⟨c?, hc?, hOwnRan⟩ := hRun hArm'
  cases arm with
  | body b => cases hAlias
  | empty => cases hAlias
  | «alias» next =>
      cases b? with
      | some b => exact hAliasRan.elim
      | none =>
          cases c? with
          | none =>
              cases arm' with
              | body b => exact hOwnRan.elim
              | empty => exact hOwnRan.elim
              | «alias» next => cases hNot
          | some shared =>
              refine ⟨t, shared, hResolve, Nat.zero_le _, ?_,
                hc?⟩
              rw [Nat.sub_zero, List.getElem?_zip_eq_some]
              exact ⟨hb?, by
                rw [List.getElem?_map, hTarget]
                rfl⟩

/-
  The branches of a switch were run, which led to `s₁`, and
  its aliases were wired, which led to `s₂`.
-/
structure Assembled
    (P : Entry → Prop)
    (control : Value)
    (sw : Switch (Run Unit))
    (s : Session)
    (branches : List (Option Branch))
    (s₁ : Session)
    (join : List Endpoint)
    (s₂ : Session) :
    Prop where
  ran :
    ArmsRan (s.graph.nextId + 1) s₁.graph s.graph.nextId 0
      sw.arms branches
  extended :
    (s.placed (switchNode control sw)).graph.Extends
      (outputsFrom s.graph.nextId 0 sw.arms.length) s₁.graph
  cursor :
    s₁.graph.Cursor (spreadTail s.graph.nextId 0 branches)
  same :
    ∃ b, s₁.builder.SameNodes b ∧ s₂ = s₁.withBuilder b
  spread :
    Session.Spread P (s.graph.nextId + 1) s s₂ join
  wired :
    ∃ targets tail',
      checkSwitch control sw = .ok targets ∧
        Wired s.graph.nextId branches 0
          (branches.zip (targets.map sw.index))
          (ownJoin branches)
          (spreadTail s.graph.nextId 0 branches) s₁.graph
          join tail' s₂.graph

/- The flow spreads over the branches of a switch. -/
theorem spread_switch
    (hReady : s.Ready)
    (control : Value)
    (sw : Switch (Run Unit)) :
    Session.Spread P (s.graph.nextId + 1) s
      (s.placed (switchNode control sw))
      ([] ++ outputsFrom s.graph.nextId 0
        sw.arms.length) := by
  have hSpread :=
    spread_placed (P := P) (n := switchNode control sw)
      hReady rfl
  rw [switchNode_execOutputs] at hSpread
  simpa [Switch.arms] using hSpread

/- What a switch comes to, part by part. -/
theorem meets_dispatch_assembled
    {R : List (Option Branch) → Session → Prop}
    (hReady : s.Ready)
    (hBodies :
      ∀ arm ∈ sw.arms, ∀ body, arm.body? = some body →
        Sound P body)
    (hArms :
      (runArms s.graph.nextId 0 sw.arms).Meets
        (s.placed (switchNode control sw)) R
        (fun _ _ => True)) :
    (dispatch control sw).Meets s
      (fun id s' =>
        id = s.graph.nextId ∧
          ∃ branches s₁ join s₂,
            Assembled P control sw s branches s₁ join s₂ ∧
              R branches s₁ ∧ s' = s₂.withTail join)
      s.Refuses := by
  have hBelow := Nat.lt_succ_self s.graph.nextId
  have hPlaced :=
    spread_switch (P := P) hReady control sw
  rw [meets_dispatch hReady.builder]
  refine ⟨?_, ?_⟩
  · intro targets hTargets
    refine ((meets_runArms hBodies hBelow hPlaced).and
      hArms).mono ?_ fun _ _ he => he.1
    intro branches s₁ hRun
    rcases hRun with ⟨⟨hSpread, hRan, hExtends⟩, hMore⟩
    rw [List.nil_append] at hSpread
    have hNodes :=
      meets_wireAliases_nodes s₁ s.graph.nextId branches
        (branches.zip (targets.map sw.index)) 0
        (ownJoin branches)
    refine ((meets_wireAliases hBelow hSpread ?_ ?_).and
      hNodes).mono ?_ fun _ _ he => he.1.elim
    · intro index target shared hAlias
      exact mem_spreadTail.mpr (Or.inr
        ⟨index, (aliasOf_zip hAlias).1,
          by rw [Nat.zero_add]⟩)
    · intro index head hLinked
      rcases hLinked with ⟨t, b, hAlias, hSome⟩
      rw [(hRan.own hAlias.shared).1] at hSome
      exact ⟨hSpread.wf.target hSome,
        hSpread.wf.ascends hSome⟩
    · intro join s₂ hRest
      rcases hRest with ⟨⟨tail', hSpread', hWired⟩, hSame⟩
      have hJoin :=
        hSpread'.narrow
          (hWired.nodup (nodup_joinTails _))
          (fun e he =>
            mem_tail_of_mem_join hRan hBelow hWired he)
          (fun e he hGe =>
            mem_join_of_mem_tail hBelow hWired he hGe)
      exact ⟨rfl, branches, s₁, join, s₂,
        ⟨hRan, hExtends, hSpread.cursor, hSame, hJoin,
          targets, tail', hTargets, hWired⟩, hMore, rfl⟩
  · intro e he
    exact ⟨harmless_checkSwitch control sw e he,
      Session.refused_of_eq rfl⟩

/- The parts of a switch make a complete one. -/
theorem Assembled.dispatched
    {branches : List (Option Branch)}
    {s₁ s₂ : Session}
    {join : List Endpoint}
    (h : Assembled P control sw s branches s₁ join s₂) :
    Dispatched P sw s s.graph.nextId (s₂.withTail join) := by
  rcases h.wired with ⟨targets, tail', hCheck, hWired⟩
  have hLt : s.graph.nextId < s₂.graph.nextId :=
    h.spread.lo_le
  have hNode :
      s₂.graph.nodes.get? s.graph.nextId =
        some (switchNode control sw) := by
    rw [hWired.nodes]
    exact h.extended.nodes Graph.get?_attach_self
  refine ⟨h.spread.leads.weaken (Nat.le_succ _),
    Session.isNew_node hNode (Nat.le_refl _),
    ⟨control, hNode⟩, ?_⟩
  intro k arm hArm hAlias
  rcases aliasOf_resolve hCheck h.ran hArm hAlias with
    ⟨t, shared, hResolve, hAliasOf⟩
  exact ⟨t, hResolve,
    paired_of_wired h.ran (Nat.lt_succ_self _) hLt h.cursor
      h.spread.cursor hWired hAliasOf⟩

/- What a switch comes to. -/
theorem meets_dispatch_spread
    (hReady : s.Ready)
    (hBodies :
      ∀ arm ∈ sw.arms, ∀ body, arm.body? = some body →
        Sound P body) :
    (dispatch control sw).Meets s
      (fun id s' => Dispatched P sw s id s')
      s.Refuses := by
  refine (meets_dispatch_assembled hReady hBodies
    (Process.meets_true _ _)).mono ?_ fun _ _ he => he
  intro id s' hParts
  rcases hParts with ⟨hId, _, _, _, _, hAssembled, _, hEnd⟩
  rw [hId, hEnd]
  exact hAssembled.dispatched

end FlowGraph.Script

------------------------------------------------------------
-- Switches Of A Script
------------------------------------------------------------

namespace FlowGraph.Script

variable {path : Path}
variable {cases : List (Label × Arm (List Stmt))}
variable {default : Arm (List Stmt)}

/- Bodies that are ready to run are aliases as before. -/
theorem alias?_prepareArm
    (path : Path)
    (arm : Arm (List Stmt)) :
    (prepareArm path arm).alias? = arm.alias? := by
  cases arm <;> rfl

/- Changing bodies keeps labels and aliases. -/
theorem like_mapArms
    {β γ : Type}
    {F : Segment → Arm β → Arm γ}
    (hF : ∀ segment arm, (F segment arm).alias? = arm.alias?)
    (sw : Switch β) :
    (mapArms F sw).Like sw := by
  refine ⟨?_, ?_⟩
  · apply List.ext_getElem?
    intro j
    simp only [Switch.labels, mapArms, List.getElem?_map,
      List.getElem?_mapIdx, Option.map_map]
    rfl
  · intro j
    rw [arms_mapArms, Option.map_map]
    congr 1
    funext arm
    exact hF _ arm

theorem like_preparedSwitch :
    (preparedSwitch path cases default).Like
      (Switch.mk cases default) := by
  rw [preparedSwitch_eq]
  exact like_mapArms (fun _ => alias?_prepareArm _) _

theorem switchNode_preparedSwitch
    (c : Value) :
    switchNode c (preparedSwitch path cases default) =
      switchNode c (Switch.mk cases default) := by
  rw [switchNode, like_preparedSwitch.labels, switchNode]

/-
  The switch at the place of an entry is complete: the exec
  output of an alias is paired with that of the branch which
  it resolves to.
-/
def Entry.Complete
    (script : List Stmt)
    (e : Entry) :
    Prop :=
  ∀ r bind control cases default,
    e.event = .finished r →
      find? script e.path =
          some (.switch bind control cases default) →
        ∃ n c, r = .node n ∧
          e.graph.nodes.get? n =
            some (switchNode c (Switch.mk cases default)) ∧
          ∀ k next,
            (Switch.mk cases default).arm? k =
                some (.alias next) →
              ∃ t,
                (Switch.mk cases default).resolve k =
                  .ok t ∧
                e.graph.Paired e.frame.tail
                  ⟨n, (Switch.mk cases default).index k⟩
                  ⟨n, (Switch.mk cases default).index t⟩

def Stmt.isSwitch : Stmt → Bool
  | .switch _ _ _ _ => true
  | _ => false

/- A statement that is no switch has none to complete. -/
theorem complete_of_ne
    {script : List Stmt}
    {e : Entry}
    {st : Stmt}
    (hPlace : find? script e.path = some st)
    (hNe : st.isSwitch = false) :
    e.Complete script := by
  intro r bind control cases default _ hFind
  rw [hPlace] at hFind
  cases hFind
  cases hNe

/- A switch that was run to its end is complete. -/
theorem Dispatched.complete
    {P : Entry → Prop}
    {script : List Stmt}
    {s s' : Session}
    {id : Nat}
    {bind : Binding}
    {control : Operand}
    (h :
      Dispatched P (preparedSwitch path cases default) s id
        s')
    (hPlace :
      find? script path =
        some (.switch bind control cases default)) :
    Entry.Complete script
      ⟨path, s'.builder, .finished (.node id)⟩ := by
  intro r bind' control' cases' default' hEvent hFind
  cases hEvent
  rw [hPlace] at hFind
  cases hFind
  obtain ⟨c, hNode⟩ := h.node
  rw [switchNode_preparedSwitch] at hNode
  refine ⟨id, c, rfl, hNode, ?_⟩
  intro k next hAlias
  have hMap :
      ((preparedSwitch path cases default).arm? k).map
          Arm.alias? =
        ((Switch.mk cases default).arm? k).map Arm.alias? :=
    like_preparedSwitch.alias? k
  rw [hAlias] at hMap
  obtain ⟨arm, hArm, hIs⟩ := Option.map_eq_some_iff.mp hMap
  obtain ⟨t, hResolve, hPaired⟩ :=
    h.paired k arm hArm (by rw [hIs]; rfl)
  rw [like_preparedSwitch.index, like_preparedSwitch.index]
    at hPaired
  rw [like_preparedSwitch.resolve] at hResolve
  exact ⟨t, hResolve, hPaired⟩

end FlowGraph.Script
