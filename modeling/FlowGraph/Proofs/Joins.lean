import FlowGraph.Proofs.Unfolding

/-
  The joins of branches.

  What the branches of a construct leave open is distinct, so
  a join is their concatenation and nothing is dropped.  An
  alias repeats what the shared body left open.  All that it
  adds is its own exec output, and this only if the shared
  body left open the one that it started from.

  Key definitions include:
    * `FlowGraph.Switch.target?`
    * `FlowGraph.Switch.joined`
    * `FlowGraph.Script.Stmt.joined`

  Key theorems include:
    * `FlowGraph.Script.joinWith_redirect`
    * `FlowGraph.Script.wiredJoin_eq`
    * `FlowGraph.Script.Assembled.join_eq`
    * `FlowGraph.Script.Unfolds.joined`
-/

------------------------------------------------------------
-- Distinct Endpoints
------------------------------------------------------------

namespace FlowGraph.Script

variable {join tail : List Endpoint} {node : Nat}

/- Nothing is dropped from endpoints that are distinct. -/
theorem joinWith_of_nodup
    (h : (join ++ tail).Nodup) :
    joinWith join tail = join ++ tail := by
  induction tail generalizing join with
  | nil => simp [joinWith]
  | cons e rest ih =>
      have hNot : e ∉ join := by
        intro hMem
        exact (List.nodup_append.mp h).2.2 e hMem e
          List.mem_cons_self rfl
      rw [List.append_cons] at h ⊢
      rw [joinWith, if_neg hNot, ih h]

theorem joinTails_of_nodup
    {tails : List (List Endpoint)}
    (h : tails.flatten.Nodup) :
    joinTails tails = tails.flatten := by
  rw [joinTails, foldl_joinWith]
  exact joinWith_of_nodup h

/- What a join has already is not added again. -/
theorem joinWith_of_mem
    (h : ∀ e ∈ tail, e ∈ join) :
    joinWith join tail = join := by
  induction tail with
  | nil => rfl
  | cons e rest ih =>
      rw [joinWith, if_pos (h e List.mem_cons_self)]
      exact ih fun d hd => h d (List.mem_cons_of_mem _ hd)

/-
  An alias repeats what the shared body left open, so it adds
  its own output, and that only in place of the one that the
  shared body starts from.
-/
theorem joinWith_redirect
    {index target : Nat}
    (hTail : tail.Nodup)
    (hJoin : ∀ e ∈ tail, e ∈ join)
    (hOwn : (⟨node, index⟩ : Endpoint) ∉ join) :
    joinWith join (redirect node index target tail) =
      join ++
        if (⟨node, target⟩ : Endpoint) ∈ tail then
          [⟨node, index⟩]
        else
          [] := by
  induction tail with
  | nil => simp [redirect, joinWith]
  | cons e rest ih =>
      rcases List.nodup_cons.mp hTail with ⟨hOnce, hRest⟩
      have hLater : ∀ d ∈ rest, d ∈ join :=
        fun d hd => hJoin d (List.mem_cons_of_mem _ hd)
      by_cases hEq : e = ⟨node, target⟩
      · -- The rest is as it was, and in the join.
        have hSame :
            redirect node index target rest = rest := by
          refine (List.map_congr_left ?_).trans
            (List.map_id rest)
          intro d hd
          rw [if_neg]
          · rfl
          · intro hAgain
            exact hOnce (hEq.trans hAgain.symm ▸ hd)
        have hFirst :
            redirect node index target (e :: rest) =
              ⟨node, index⟩ :: rest := by
          rw [redirect, List.map_cons, if_pos hEq]
          exact congrArg _ hSame
        rw [hFirst, joinWith, if_neg hOwn,
          joinWith_of_mem fun d hd =>
            List.mem_append_left _ (hLater d hd),
          if_pos (hEq ▸ List.mem_cons_self)]
      · have hFirst :
            redirect node index target (e :: rest) =
              e :: redirect node index target rest := by
          rw [redirect, List.map_cons, if_neg hEq]
          rfl
        rw [hFirst, joinWith,
          if_pos (hJoin e List.mem_cons_self),
          ih hRest hLater]
        have hIff :
            (⟨node, target⟩ : Endpoint) ∈ e :: rest ↔
              (⟨node, target⟩ : Endpoint) ∈ rest := by
          rw [List.mem_cons]
          exact or_iff_right fun h => hEq h.symm
        simp only [hIff]

end FlowGraph.Script

------------------------------------------------------------
-- Branches And Aliases
------------------------------------------------------------

namespace FlowGraph.Script

variable {join : List Endpoint} {node : Nat}

/- What a branch left open itself. -/
def branchTail
    (branches : List (Option Branch))
    (j : Nat) :
    List Endpoint :=
  match branches[j]? with
  | some (some b) => b.tail
  | _ => []

variable {branches : List (Option Branch)}

/- The branches one by one, those that were run and others. -/
theorem flatMap_branchTail :
    (branches.filterMap id |>.map Branch.tail).flatten =
      (List.range branches.length).flatMap
        (branchTail branches) := by
  induction branches with
  | nil => rfl
  | cons b? rest ih =>
      have hShift :
          (List.range rest.length).flatMap
              (fun j => branchTail (b? :: rest) (j + 1)) =
            (List.range rest.length).flatMap
              (branchTail rest) := rfl
      rw [List.length_cons, List.range_succ_eq_map,
        List.flatMap_cons, List.flatMap_map, hShift, ← ih]
      cases b? with
      | none => rfl
      | some b => rfl

/- The aliases aside, these are what is open. -/
theorem sublist_spreadTail
    {first : Nat} :
    (branches.filterMap id |>.map Branch.tail).flatten.Sublist
      (spreadTail node first branches) := by
  induction branches generalizing first with
  | nil => exact List.Sublist.refl _
  | cons b? rest ih =>
      cases b? with
      | none => exact List.Sublist.cons _ ih
      | some b => exact ih.append_left b.tail

/- What the branches left open themselves is joined as is. -/
theorem ownJoin_eq
    (h : (spreadTail node 0 branches).Nodup) :
    ownJoin branches =
      (List.range branches.length).flatMap
        (branchTail branches) := by
  rw [ownJoin, joinTails_of_nodup (sublist_spreadTail.nodup h)]
  exact flatMap_branchTail

/- The aliases in a list that keep their own outputs open. -/
def keepsOpen
    (node : Nat)
    (branches : List (Option Branch))
    (resolved : List (Option Branch × Nat))
    (j : Nat) :
    Bool :=
  match resolved[j]? with
  | some (none, target) =>
      decide (⟨node, target⟩ ∈ branchTail branches target)
  | _ => false

/-
  What the branch at an exec output left open is in a join
  already.  Its exec output is not open if it has a link.
-/
structure Branch.JoinedIn
    (node index : Nat)
    (join : List Endpoint)
    (br : Branch) :
    Prop where
  nodup : br.tail.Nodup
  listed : ∀ e ∈ br.tail, e ∈ join
  linked : br.head ≠ none → ⟨node, index⟩ ∉ br.tail

variable {resolved : List (Option Branch × Nat)} {first : Nat}

/- One alias adds its own output or nothing. -/
theorem aliasJoin_eq
    {entry : Option Branch × Nat}
    (hShared :
      ∀ (t : Nat) br, branches[t]? = some (some br) →
        br.JoinedIn node t join)
    (hOwn :
      entry.1 = none → (⟨node, first⟩ : Endpoint) ∉ join) :
    aliasJoin node branches first entry join =
      join ++
        if keepsOpen node branches [entry] 0 then
          [⟨node, first⟩]
        else
          [] := by
  obtain ⟨own, target⟩ := entry
  unfold aliasJoin keepsOpen branchTail
  cases own with
  | some b => simp
  | none =>
      rcases hTarget : branches[target]? with _ | _ | shared
      · simp [hTarget]
      · simp [hTarget]
      · have hJoined := hShared target shared hTarget
        simp only [hTarget, List.getElem?_cons_zero,
          decide_eq_true_eq]
        by_cases hNone : shared.head = none
        · rw [if_pos hNone]
          exact joinWith_redirect hJoined.nodup hJoined.listed
            (hOwn rfl)
        · rw [if_neg hNone, if_neg (hJoined.linked hNone),
            List.append_nil]

/- The aliases add their own outputs, in order. -/
theorem wiredJoin_eq
    (hShared :
      ∀ (t : Nat) br, branches[t]? = some (some br) →
        br.JoinedIn node t join)
    (hOwn :
      ∀ (j : Nat) t, resolved[j]? = some (none, t) →
        (⟨node, first + j⟩ : Endpoint) ∉ join) :
    wiredJoin node branches first resolved join =
      join ++
        ((List.range resolved.length).filter
          (keepsOpen node branches resolved)).map
            fun j => ⟨node, first + j⟩ := by
  induction resolved generalizing first join with
  | nil => simp [wiredJoin]
  | cons entry rest ih =>
      have hFirst :
          entry.1 = none →
            (⟨node, first⟩ : Endpoint) ∉ join := by
        intro hNone
        refine hOwn 0 entry.2 ?_
        rw [← hNone]
        rfl
      have hAdded := aliasJoin_eq hShared hFirst
      rw [wiredJoin, hAdded, ih]
      · rw [List.length_cons, List.range_succ_eq_map,
          List.filter_cons, List.filter_map]
        have hZero :
            keepsOpen node branches (entry :: rest) 0 =
              keepsOpen node branches [entry] 0 := rfl
        have hShift :
            keepsOpen node branches (entry :: rest) ∘
                Nat.succ =
              keepsOpen node branches rest := rfl
        rw [hZero, hShift]
        have hMap :
            ∀ js : List Nat,
              (js.map Nat.succ).map
                  (fun j => (⟨node, first + j⟩ : Endpoint)) =
                js.map fun j => ⟨node, first + 1 + j⟩ := by
          intro js
          rw [List.map_map]
          apply List.map_congr_left
          intro j _
          simp only [Function.comp, Endpoint.mk.injEq,
            true_and]
          omega
        split <;> simp [hMap]
      · intro t shared hTarget
        have hJoined := hShared t shared hTarget
        exact ⟨hJoined.nodup, fun e he =>
          List.mem_append_left _ (hJoined.listed e he),
          hJoined.linked⟩
      · intro j t hj hMem
        rcases List.mem_append.mp hMem with hOld | hNew
        · refine hOwn (j + 1) t hj ?_
          rw [show first + (j + 1) = first + 1 + j by omega]
          exact hOld
        · split at hNew
          · injection List.mem_singleton.mp hNew with _ hIndex
            omega
          · cases hNew

end FlowGraph.Script

------------------------------------------------------------
-- Joins Of Switches
------------------------------------------------------------

namespace FlowGraph.Switch

variable {β : Type}

/-
  The exec output that a branch shares if it is an alias:
  that of the branch which it resolves to.
-/
def target?
    (sw : Switch β)
    (j : Nat) :
    Option Nat := do
  let _ ← sw.arms[j]?.bind Arm.alias?
  let k ← sw.keys[j]?
  let t ← (sw.resolve k).toOption
  return sw.index t

/-
  The join of a switch.  It has what the branches leave open
  themselves, in order, then the exec outputs of the aliases
  for which the shared one is still open.
-/
def joined
    (sw : Switch β)
    (node : Nat)
    (opens : Nat → List Endpoint) :
    List Endpoint :=
  (List.range sw.arms.length).flatMap opens ++
    ((List.range sw.arms.length).filter fun j =>
      (sw.target? j).any fun t => ⟨node, t⟩ ∈ opens t).map
        (Endpoint.mk node)

/- Two aliases of a case that was left where it started. -/
example :
    (Switch.mk
        [(.int 1, .empty), (.int 2, .alias (.label (.int 1)))]
        (.alias (.label (.int 2))) : Switch Unit).joined 7
      (fun j => if j = 1 then [⟨7, 1⟩] else []) =
        [⟨7, 1⟩, ⟨7, 0⟩, ⟨7, 2⟩] := by
  decide

end FlowGraph.Switch

namespace FlowGraph.Script

variable {P : Entry → Prop} {control : Value}
variable {sw : Switch (Run Unit)} {s s₁ s₂ : Session}
variable {branches : List (Option Branch)}
variable {join : List Endpoint}

/- A branch that was run is not wired. -/
theorem keepsOpen_of_ran
    {node j : Nat}
    {targets : List Nat}
    {b : Branch}
    (h : branches[j]? = some (some b)) :
    keepsOpen node branches (branches.zip targets) j =
      false := by
  unfold keepsOpen
  split
  · rename_i target hEntry
    rw [List.getElem?_zip_eq_some, h] at hEntry
    cases hEntry.1
  · rfl

/- Every branch is resolved. -/
theorem length_le_of_checkSwitch
    {targets : List CaseKey}
    (hCheck : checkSwitch control sw = .ok targets) :
    sw.arms.length ≤ targets.length := by
  apply Nat.le_of_not_lt
  intro hLt
  rcases arm?_of_checkSwitch hCheck
      (List.getElem?_eq_getElem hLt) with
    ⟨k, _, hIndex, hArm⟩
  rcases resolve_of_checkSwitch hCheck hArm with
    ⟨t, _, hTarget⟩
  rw [hIndex] at hTarget
  exact Nat.lt_irrefl _
    (List.getElem?_eq_some_iff.mp hTarget).1

/- The aliases and their targets, as they were wired. -/
theorem Assembled.keepsOpen_eq
    (h : Assembled P control sw s branches s₁ join s₂)
    {targets : List CaseKey}
    (hCheck : checkSwitch control sw = .ok targets)
    {node j : Nat}
    {arm : Arm (Run Unit)}
    (hArm : sw.arms[j]? = some arm) :
    keepsOpen node branches
        (branches.zip (targets.map sw.index)) j =
      (sw.target? j).any fun t =>
        ⟨node, t⟩ ∈ branchTail branches t := by
  have hLt := (List.getElem?_eq_some_iff.mp hArm).1
  rw [← h.ran.length] at hLt
  have hBranch := List.getElem?_eq_getElem hLt
  have hRan := h.ran.each j arm _ hArm hBranch
  rcases hKind : branches[j] with _ | b
  · -- Only an alias is not run itself.
    rw [hKind] at hRan
    cases arm with
    | «alias» next =>
        rcases arm?_of_checkSwitch hCheck hArm with
          ⟨k, hKey, hIndex, hHere⟩
        rcases aliasOf_resolve hCheck h.ran hHere rfl with
          ⟨t, shared, hResolve, hAlias⟩
        have hEntry := hAlias.entry
        rw [hIndex, Nat.sub_zero] at hEntry
        have hTarget : sw.target? j = some (sw.index t) := by
          simp [Switch.target?, Arm.alias?, Except.toOption,
            hArm, hKey, hResolve]
        simp only [keepsOpen, hEntry, hTarget,
          Option.any_some]
    | body body => exact hRan.elim
    | empty => exact hRan.elim
  · rw [hKind] at hBranch hRan
    rw [keepsOpen_of_ran hBranch]
    cases arm with
    | «alias» next => exact hRan.elim
    | body body =>
        simp [Switch.target?, Arm.alias?, hArm]
    | empty =>
        simp [Switch.target?, Arm.alias?, hArm]

/- What a branch left open itself is joined. -/
theorem Assembled.joinedIn
    (h : Assembled P control sw s branches s₁ join s₂)
    {t : Nat}
    {shared : Branch}
    (hShared : branches[t]? = some (some shared)) :
    shared.JoinedIn s.graph.nextId t (ownJoin branches) := by
  refine ⟨?_, ?_, ?_⟩
  · have hMem :
        shared.tail ∈
          (branches.filterMap id).map Branch.tail :=
      List.mem_map_of_mem (List.mem_filterMap.mpr
        ⟨some shared, List.mem_of_getElem? hShared, rfl⟩)
    exact ((List.sublist_flatten_of_mem hMem).trans
      sublist_spreadTail).nodup h.cursor.nodup
  · intro e he
    exact mem_ownJoin.mpr ⟨t, shared, hShared, he⟩
  · intro hHead hMem
    apply hHead
    rw [(h.ran.own hShared).1]
    exact (h.cursor.isOpen _ (mem_spreadTail.mpr
      (Or.inl ⟨t, shared, hShared, hMem⟩))).2

/- The exec output of an alias is not left open by others. -/
theorem Assembled.alias_not_mem
    (h : Assembled P control sw s branches s₁ join s₂)
    {j : Nat}
    (hAlias : branches[j]? = some none) :
    (⟨s.graph.nextId, j⟩ : Endpoint) ∉ ownJoin branches := by
  intro hMem
  rcases mem_ownJoin.mp hMem with ⟨i, b, hb, he⟩
  rcases (h.ran.own hb).2 _ he with hEq | hNew
  · cases hEq
    rw [hAlias] at hb
    cases hb
  · exact Nat.not_succ_le_self _ hNew

/- The join of a switch, endpoint by endpoint. -/
theorem Assembled.join_eq
    (h : Assembled P control sw s branches s₁ join s₂) :
    join = sw.joined s.graph.nextId (branchTail branches) := by
  rcases h.wired with ⟨targets, tail', hCheck, hWired⟩
  have hLength :
      (branches.zip (targets.map sw.index)).length =
        sw.arms.length := by
    rw [List.length_zip, List.length_map, h.ran.length]
    exact Nat.min_eq_left (length_le_of_checkSwitch hCheck)
  rw [hWired.order,
    wiredJoin_eq (fun _ _ hShared => h.joinedIn hShared),
    ownJoin_eq h.cursor.nodup, Switch.joined, hLength,
    h.ran.length]
  · simp only [Nat.zero_add]
    congr 2
    apply List.filter_congr
    intro j hj
    exact h.keepsOpen_eq hCheck
      (List.getElem?_eq_getElem (List.mem_range.mp hj))
  · intro j t hj
    rw [List.getElem?_zip_eq_some] at hj
    rw [Nat.zero_add]
    exact h.alias_not_mem hj.1

end FlowGraph.Script

------------------------------------------------------------
-- Joins Of Statements
------------------------------------------------------------

namespace FlowGraph.Switch

variable {β γ : Type} {sw : Switch β} {sw' : Switch γ}

theorem Like.length
    (h : sw.Like sw') :
    sw.arms.length = sw'.arms.length := by
  rw [← length_keys, ← length_keys, h.keys]

/- Aliases share the same outputs. -/
theorem Like.target?
    (h : sw.Like sw')
    (j : Nat) :
    sw.target? j = sw'.target? j := by
  have hAlias :
      sw.arms[j]?.bind Arm.alias? =
        sw'.arms[j]?.bind Arm.alias? := by
    have hMap := h.aliases j
    cases hArm : sw.arms[j]? <;>
      cases hArm' : sw'.arms[j]? <;> simp_all
  simp only [Switch.target?, hAlias, h.keys, h.resolve,
    h.index]

theorem Like.joined
    (h : sw.Like sw')
    (node : Nat)
    (opens : Nat → List Endpoint) :
    sw.joined node opens = sw'.joined node opens := by
  simp only [Switch.joined, h.length, h.target?]

end FlowGraph.Switch

namespace FlowGraph.Script

/-
  What a branch of a switch leaves open itself, if its body
  has left what `left` tells.
-/
def branchOpens
    (sw : Switch (List Stmt))
    (node : Nat)
    (left : Segment → List Endpoint)
    (j : Nat) :
    List Endpoint :=
  match sw.arms[j]? with
  | some (.body _) => left (armSegment j)
  | some .empty => [⟨node, j⟩]
  | _ => []

/- The statements that run one of several bodies. -/
def Stmt.joins : Stmt → Bool
  | .ifThen _ _ _ => true
  | .ifElse _ _ _ _ => true
  | .switch _ _ _ _ => true
  | _ => false

/-
  Where the flow goes on from after such a statement, if its
  bodies have left what `left` tells.
-/
def Stmt.joined
    (st : Stmt)
    (node : Nat)
    (left : Segment → List Endpoint) :
    List Endpoint :=
  match st with
  | .ifThen _ _ _ => left .thenBody ++ [⟨node, 1⟩]
  | .ifElse _ _ _ _ => left .thenBody ++ left .elseBody
  | .switch _ _ cases default =>
      (Switch.mk cases default).joined node
        (branchOpens (Switch.mk cases default) node left)
  | _ => []

variable {script : List Stmt} {path : Path} {st : Stmt}
variable {s s₁ s₂ : Session} {a b : Segment → Session}
variable {r : Result} {left : Segment → List Endpoint}
variable {P : Entry → Prop} {v : Value}
variable {cases : List (Label × Arm (List Stmt))}
variable {default : Arm (List Stmt)}
variable {branches : List (Option Branch)}
variable {join : List Endpoint}

/- The branches of a switch leave open what they should. -/
theorem branchTail_eq
    (hAssembled :
      Assembled P v (preparedSwitch path cases default) s
        branches s₁ join s₂)
    (hArms :
      ArmsTaken P s.graph.nextId 0
        (preparedSwitch path cases default).arms
        (s.placed
          (switchNode v (preparedSwitch path cases default)))
        branches s₁ (fun j => a (armSegment j))
        (fun j => b (armSegment j)))
    (hLeft :
      ∀ (j : Nat) body,
        (Switch.mk cases default).arms[j]? =
            some (.body body) →
          left (armSegment j) =
            (b (armSegment j)).frame.tail) :
    branchTail branches =
      branchOpens (Switch.mk cases default) s.graph.nextId
        left := by
  funext j
  have hArm :
      (preparedSwitch path cases default).arms[j]? =
        (Switch.mk cases default).arms[j]?.map
          (prepareArm (path ++ [armSegment j])) := by
    rw [preparedSwitch_eq, arms_mapArms]
  unfold branchTail branchOpens
  rcases hText : (Switch.mk cases default).arms[j]? with
    _ | body | next | _
  · -- There are no more branches than arms.
    rw [hText, Option.map_none, List.getElem?_eq_none_iff,
      ← hAssembled.ran.length, ← List.getElem?_eq_none_iff]
      at hArm
    rw [hArm]
  · rw [hText] at hArm
    rcases (hArms.bodies j _ hArm).own with ⟨br, hbr, hTail⟩
    rw [hbr, hLeft j body hText]
    exact hTail
  · rw [hText] at hArm
    have hLt := (List.getElem?_eq_some_iff.mp hArm).1
    rw [← hAssembled.ran.length] at hLt
    have hBranch := List.getElem?_eq_getElem hLt
    have hRan := hAssembled.ran.each j _ _ hArm hBranch
    rcases hKind : branches[j] with _ | br
    · rw [hBranch, hKind]
    · rw [hKind] at hRan
      exact hRan.elim
  · rw [hText] at hArm
    rcases hArms.empties j hArm with ⟨br, hbr, hTail⟩
    rw [Nat.zero_add] at hTail
    rw [hbr]
    exact hTail

/- What both bodies of a conditional left open is joined. -/
theorem joinTails_conditional
    {thenBody : List Stmt}
    {elseBody : Option (List Stmt)}
    {a₁ b₁ a₂ b₂ : Session}
    {n : Nat}
    (hThen :
      BodyRan script (path ++ [.thenBody]) thenBody a₁ b₁)
    (hFirst : a₁.frame.tail = [⟨n, 0⟩])
    (hBelow : n < a₁.graph.nextId)
    (hSecond : a₂ = b₁.withTail [⟨n, 1⟩])
    (hReady : a₂.Ready)
    (hElse :
      BranchRan script (path ++ [.elseBody]) elseBody a₂ b₂) :
    joinTails [b₁.frame.tail, b₂.frame.tail] =
      b₁.frame.tail ++ b₂.frame.tail := by
  have h₁ := hThen.leads
  have h₂ := hElse.leads hReady
  have hApart :
      ∀ e ∈ b₁.frame.tail, ∀ d ∈ b₂.frame.tail, e ≠ d := by
    intro e he d hd hEq
    rw [hSecond] at h₂
    have hOld := h₁.mem_tail he
    rw [hFirst] at hOld
    have hNew : b₁.graph.nextId ≤ d.node ∨ d = ⟨n, 1⟩ := by
      rcases (h₂.mem_tail hd).1 with hLater | hOwn
      · exact Or.inl hLater
      · exact Or.inr (List.mem_singleton.mp hOwn)
    rcases hNew with hLater | hOwn
    · rw [hEq] at hOld
      omega
    · rw [hEq, hOwn] at hOld
      rcases hOld.1 with hAfter | hStart
      · exact Nat.not_lt.mpr hAfter hBelow
      · cases List.mem_singleton.mp hStart
  have hNodup :
      (b₁.frame.tail ++ b₂.frame.tail).Nodup :=
    List.nodup_append.mpr
      ⟨h₁.ready.builder.cursor.nodup,
        h₂.ready.builder.cursor.nodup, hApart⟩
  have hFlatten :
      [b₁.frame.tail, b₂.frame.tail].flatten =
        b₁.frame.tail ++ b₂.frame.tail := by
    simp
  rw [← hFlatten] at hNodup ⊢
  exact joinTails_of_nodup hNodup

/- The cursor after a statement that joins its bodies. -/
theorem Unfolds.joined
    (h : Unfolds script path s a b st r s₁)
    (hJoins : st.joins = true)
    (hLeft :
      ∀ segment body, st.body? segment = some body →
        left segment = (b segment).frame.tail) :
    r = .node s.graph.nextId ∧
      s₁.frame.tail = st.joined s.graph.nextId left := by
  cases h with
  | action hActs => cases hJoins
  | function hStart hBody => cases hJoins
  | loop hRepeats hStart hBody =>
      cases hRepeats <;> cases hJoins
  | conditional hDecides hFirst hThen hSecond hReady hElse =>
      have hBelow :
          s.graph.nextId < (a .thenBody).graph.nextId := by
        rw [hFirst]
        exact Nat.lt_succ_self _
      have hTail :
          (a .thenBody).frame.tail =
            [⟨s.graph.nextId, 0⟩] := by
        rw [hFirst]
        rfl
      refine ⟨rfl, ?_⟩
      refine (joinTails_conditional hThen hTail hBelow hSecond
        hReady hElse).trans ?_
      cases hDecides with
      | ifThen hEval =>
          rw [Stmt.joined, hLeft .thenBody _ rfl,
            show b .elseBody = a .elseBody from hElse,
            hSecond]
          rfl
      | ifElse hEval =>
          rw [Stmt.joined, hLeft .thenBody _ rfl,
            hLeft .elseBody _ rfl]
  | switch hEval hAssembled hArms hBodies =>
      rename_i bind control v cases default branches s₂ s₃ join
      refine ⟨rfl, ?_⟩
      have hTails :
          branchTail branches =
            branchOpens (Switch.mk cases default)
              s.graph.nextId left := by
        apply branchTail_eq hAssembled hArms
        intro j body hArm
        exact hLeft _ body (body?_of_arms bind control hArm)
      rw [Stmt.joined, ← hTails, ← like_preparedSwitch.joined]
      exact hAssembled.join_eq

end FlowGraph.Script
