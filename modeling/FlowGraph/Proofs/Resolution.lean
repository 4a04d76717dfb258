import FlowGraph.Proofs.Chains

/-
  Resolved switches.

  When the branches of a switch have been run, the branch
  that an alias resolves to was one of them, so there is
  always a branch that the alias can share.

  Key definitions include:
    * `FlowGraph.Script.Recorded`
    * `FlowGraph.Script.wireAliasesOr`
    * `FlowGraph.Script.dispatchOr`

  Key theorems include:
    * `FlowGraph.Script.meets_runArms_recorded`
    * `FlowGraph.Script.recorded_of_checkSwitch`
    * `FlowGraph.Script.dispatchOr_eq`
    * `FlowGraph.Script.aliases_resolve_exactly`
-/

------------------------------------------------------------
-- Recorded Branches
------------------------------------------------------------

namespace FlowGraph.Script

/- Of the branches those were run that are no aliases. -/
def Recorded
    (arms : List (Arm (Run Unit)))
    (branches : List (Option Branch)) :
    Prop :=
  branches.map Option.isSome =
    arms.map fun arm => arm.alias?.isNone

variable {control : Value} {sw : Switch (Run Unit)}
variable {targets : List CaseKey}
variable {arms : List (Arm (Run Unit))}
variable {branches : List (Option Branch)}

theorem Recorded.length
    (h : Recorded arms branches) :
    branches.length = arms.length := by
  simpa using congrArg List.length h

/- A branch that is no alias has an outcome. -/
theorem Recorded.outcome
    (h : Recorded arms branches)
    {j : Nat}
    {arm : Arm (Run Unit)}
    (hArm : arms[j]? = some arm)
    (hOwn : arm.alias? = none) :
    ∃ b, branches[j]? = some (some b) := by
  have hSome :
      (branches.map Option.isSome)[j]? = some true := by
    rw [h, List.getElem?_map, hArm, Option.map_some, hOwn]
    rfl
  rw [List.getElem?_map, Option.map_eq_some_iff] at hSome
  rcases hSome with ⟨own, hBranch, hIs⟩
  rcases Option.isSome_iff_exists.mp hIs with ⟨b, rfl⟩
  exact ⟨b, hBranch⟩

/- Running the branches records their outcomes. -/
theorem meets_runArms_recorded
    (node : Nat)
    (arms : List (Arm (Run Unit)))
    (index : Nat)
    (z : Session) :
    (runArms node index arms).Meets z
      (fun branches _ => Recorded arms branches)
      (fun _ _ => True) := by
  induction arms generalizing index z with
  | nil => rfl
  | cons arm rest ih =>
      have hArm :
          (runArm node index arm).Meets z
            (fun own _ => own.isSome = arm.alias?.isNone)
            (fun _ _ => True) := by
        cases arm with
        | body body =>
            unfold runArm
            rw [Process.meets_bind]
            refine (Process.meets_true _ z).mono ?_
              fun _ _ _ => trivial
            intro b z' _
            rfl
        | empty => rfl
        | «alias» next => rfl
      unfold runArms
      rw [Process.meets_bind]
      refine hArm.mono ?_ fun _ _ _ => trivial
      intro own z' hOwn
      rw [Process.meets_bind]
      refine (ih (index + 1) z').mono ?_ fun _ _ _ => trivial
      intro branches z'' hRest
      rw [Recorded] at hRest
      rw [Process.meets_pure, Recorded, List.map_cons,
        List.map_cons, hOwn, hRest]

/-
  The branch at each exec output resolves to one that was
  run, and the outcome is recorded at the exec output of that
  branch.
-/
theorem recorded_of_checkSwitch
    (hCheck : checkSwitch control sw = .ok targets)
    (hRan : Recorded sw.arms branches)
    {i : Nat}
    {k : CaseKey}
    (hKey : sw.keys[i]? = some k) :
    sw.index k = i ∧
      ∃ t shared, sw.resolve k = .ok t ∧
        targets[i]? = some t ∧
        branches[sw.index t]? = some (some shared) := by
  have hIndex :=
    Switch.index_of_keys (passed_of_checkSwitch hCheck).2.1 hKey
  rcases Switch.mem_keys_iff.mp (List.mem_of_getElem? hKey) with
    ⟨arm, hDoes⟩
  have hArm := Switch.does_iff.mp hDoes
  rcases resolve_of_checkSwitch hCheck hArm with
    ⟨t, hResolve, hTarget⟩
  rcases Switch.resolve_isSome hArm hResolve with
    ⟨arm', hArm', hOwn⟩
  rw [← Switch.arms_index] at hArm'
  rcases hRan.outcome hArm' hOwn with ⟨shared, hShared⟩
  rw [hIndex] at hTarget
  exact ⟨hIndex, t, shared, hResolve, hTarget, hShared⟩

/- Every entry that is wired has a branch to share. -/
theorem shared_of_checkSwitch
    (hCheck : checkSwitch control sw = .ok targets)
    (hRan : Recorded sw.arms branches)
    {own : Option Branch}
    {target : Nat}
    (h : (own, target) ∈ branches.zip (targets.map sw.index)) :
    ∃ shared, branches[target]? = some (some shared) := by
  rcases List.getElem?_of_mem h with ⟨i, hEntry⟩
  rw [List.getElem?_zip_eq_some, List.getElem?_map,
    Option.map_eq_some_iff] at hEntry
  rcases hEntry with ⟨hOwn, t, hTarget, rfl⟩
  have hLt := (List.getElem?_eq_some_iff.mp hOwn).1
  rw [hRan.length, ← Switch.length_keys] at hLt
  rcases recorded_of_checkSwitch hCheck hRan
    (List.getElem?_eq_getElem hLt) with
    ⟨_, t', shared, _, hTarget', hShared⟩
  rw [hTarget] at hTarget'
  cases hTarget'
  exact ⟨shared, hShared⟩

end FlowGraph.Script

------------------------------------------------------------
-- Aliases Without A Branch
------------------------------------------------------------

namespace FlowGraph.Process

variable {σ α β : Type}

/- What follows a step matters only for its results. -/
theorem bind_congr_of_ok
    {m : Process σ α}
    {f g : α → Process σ β}
    {s : σ}
    (h : ∀ a s', m s = (.ok a, s') → f a s' = g a s') :
    (m >>= f) s = (m >>= g) s := by
  rcases hm : m s with ⟨e | a, s'⟩
  · rw [bind_of_error hm, bind_of_error hm]
  · rw [bind_of_ok hm, bind_of_ok hm]
    exact h a s' hm

end FlowGraph.Process

namespace FlowGraph.Script

/-
  Wire all aliases; `missing` stands in for the wiring of an
  alias for which no branch was run.
-/
def wireAliasesOr
    (missing : Nat → Nat → List Endpoint → Run (List Endpoint))
    (node : Nat)
    (branches : List (Option Branch)) :
    Nat → List (Option Branch × Nat) → List Endpoint →
      Run (List Endpoint)
  | _, [], join => return join
  | index, (some _, _) :: rest, join =>
      wireAliasesOr missing node branches (index + 1) rest join
  | index, (none, target) :: rest, join => do
      match branches[target]? with
      | some (some shared) =>
          let join ← wireAlias node index target shared join
          wireAliasesOr missing node branches (index + 1) rest
            join
      | _ =>
          let join ← missing index target join
          wireAliasesOr missing node branches (index + 1) rest
            join

/-
  Run one of several bodies; `missing` stands in for the
  wiring of an alias for which no branch was run.
-/
def dispatchOr
    (missing : Nat → Nat → List Endpoint → Run (List Endpoint))
    (control : Value)
    (s : Switch (Run Unit)) :
    Run Nat := do
  let targets ← checkSwitch control s
  let args := control :: s.labels.map Label.value
  let node ← Builder.placeBuiltin .multipleBranches args none
  let branches ← runArms node 0 s.arms
  let join := joinTails (branches.filterMap id |>.map Branch.tail)
  let resolved := branches.zip (targets.map s.index)
  let join ← wireAliasesOr missing node branches 0 resolved join
  Builder.onFrame fun f => f.setTail join
  return node

variable
  {missing : Nat → Nat → List Endpoint → Run (List Endpoint)}

/- If each alias has a branch to share, none is missing. -/
theorem wireAliasesOr_eq
    {node : Nat}
    {branches : List (Option Branch)}
    {resolved : List (Option Branch × Nat)}
    (h :
      ∀ own target, (own, target) ∈ resolved →
        ∃ shared, branches[target]? = some (some shared))
    (index : Nat)
    (join : List Endpoint) :
    wireAliasesOr missing node branches index resolved join =
      wireAliases node branches index resolved join := by
  induction resolved generalizing index join with
  | nil => rfl
  | cons entry rest ih =>
      have hRest := ih fun own target hMem =>
        h own target (List.mem_cons_of_mem _ hMem)
      rcases entry with ⟨own, target⟩
      cases own with
      | some b => exact hRest (index + 1) join
      | none =>
          rcases h none target List.mem_cons_self with
            ⟨shared, hShared⟩
          simp only [wireAliasesOr, wireAliases, hShared, hRest]

/- No alias of a switch is without a branch to share. -/
theorem dispatchOr_eq
    (missing : Nat → Nat → List Endpoint → Run (List Endpoint))
    (control : Value)
    (sw : Switch (Run Unit)) :
    dispatchOr missing control sw = dispatch control sw := by
  funext z
  refine Process.bind_congr_of_ok ?_
  intro targets z₁ hTargets
  refine Process.bind_congr_of_ok ?_
  intro node z₂ _
  refine Process.bind_congr_of_ok ?_
  intro branches z₃ hArms
  have hCheck : checkSwitch control sw = .ok targets :=
    congrArg Prod.fst hTargets
  have hRan :=
    (meets_runArms_recorded node sw.arms 0 z₂).of_ok hArms
  simp only [wireAliasesOr_eq fun _ _ hMem =>
    shared_of_checkSwitch hCheck hRan hMem]

end FlowGraph.Script

------------------------------------------------------------
-- Resolved Switches
------------------------------------------------------------

namespace FlowGraph.Script

/-
  The aliases of every branch are followed to an end, after
  at most one alias more than the table has cases, and a
  larger bound does not change the answer.  The answer is
  the branch with a body, or the empty one, that the aliases
  lead to; or the label that was not declared; or the walk up
  to the first branch that is passed a second time.  Once the
  branches of a switch were run, each of them resolves to one
  whose outcome is recorded at its exec output, so it does
  not matter what is done for an alias without an outcome.
-/
theorem aliases_resolve_exactly
    (s : Switch (Run Unit)) :
    (∀ k ∈ s.keys,
      (∃ n, s.Follows n [k] k (s.resolve k)) ∧
      (∀ n r, s.Follows n [k] k r →
        n ≤ s.kept.length + 1 ∧ r = s.resolve k) ∧
      (∀ fuel, s.kept.length + 1 ≤ fuel →
        s.follow fuel [k] k = s.resolve k) ∧
      (∀ t, s.resolve k = .ok t ↔
        Relation.ReflTransGen s.Leads k t ∧ s.Settles t) ∧
      (∀ l, s.resolve k = .error (.of (.unknownCase l)) ↔
        Relation.TransGen s.Leads k (.label l) ∧
          l ∉ s.labels) ∧
      (∀ path,
        s.resolve k = .error (.of (.aliasCycle path)) ↔
          s.Revisits k path) ∧
      ((∃ path,
        s.resolve k = .error (.of (.aliasCycle path))) ↔
          s.Circling k)) ∧
    (∀ control targets node z branches z',
      checkSwitch control s = .ok targets →
        runArms node 0 s.arms z = (.ok branches, z') →
          ∀ i k, s.keys[i]? = some k →
            s.index k = i ∧
              ∃ t shared, s.resolve k = .ok t ∧
                targets[i]? = some t ∧
                branches[s.index t]? = some (some shared)) ∧
    ∀ missing control,
      dispatchOr missing control s = dispatch control s := by
  refine ⟨?_, ?_, ?_⟩
  · intro k hKey
    refine ⟨Switch.follows_resolve hKey,
      fun n r h => h.eq_resolve hKey,
      fun fuel h => Switch.follow_eq_resolve hKey h,
      fun t => Switch.resolve_eq_ok_iff hKey,
      fun l => Switch.resolve_eq_unknown_iff hKey,
      fun path => Switch.resolve_eq_cycle_iff hKey, ?_⟩
    simp only [Switch.resolve_eq_cycle_iff hKey]
    exact Switch.exists_revisits_iff hKey
  · intro control targets node z branches z' hCheck hArms i k
      hKey
    have hRan :=
      (meets_runArms_recorded node s.arms 0 z).of_ok hArms
    exact recorded_of_checkSwitch hCheck hRan hKey
  · intro missing control
    exact dispatchOr_eq missing control s

/-
  The default leads into a circle that it is not part of, and
  the last case to a label that is not declared.  The second
  declaration of a label does not count.
-/
def strayAliases : Switch (Run Unit) :=
  ⟨[(.int 1, .alias (.label (.int 2))),
      (.int 2, .alias (.label (.int 3))),
      (.int 3, .alias (.label (.int 2))),
      (.int 1, .empty),
      (.int 4, .alias (.label (.int 9)))],
    .alias (.label (.int 1))⟩

/- A case shares an empty one by way of the default. -/
def sharedThroughDefault : Switch (Run Unit) :=
  ⟨[(.int 1, .empty), (.int 2, .alias .default)],
    .alias (.label (.int 1))⟩

/-
  The circle is reported with the way into it, and an alias
  of the default finds the outcome of the empty case.
-/
theorem stray_and_shared_aliases_resolve :
    (CaseKey.default ∈ strayAliases.keys ∧
      (∀ n r, strayAliases.Follows n [.default] .default r →
        n ≤ 5 ∧ r = strayAliases.resolve .default) ∧
      strayAliases.Revisits .default
        [.default, .label (.int 1), .label (.int 2),
          .label (.int 3), .label (.int 2)]) ∧
    (CaseKey.label (.int 4) ∈ strayAliases.keys ∧
      Relation.TransGen strayAliases.Leads (.label (.int 4))
        (.label (.int 9))) ∧
    checkSwitch (.int 7) sharedThroughDefault =
        .ok [.label (.int 1), .label (.int 1),
          .label (.int 1)] ∧
      ∃ branches z',
        runArms 1 0 sharedThroughDefault.arms
            (.new "demo" .default) = (.ok branches, z') ∧
          ∃ t shared,
            sharedThroughDefault.resolve (.label (.int 2)) =
                .ok t ∧
              branches[sharedThroughDefault.index t]? =
                some (some shared) := by
  have hDefault : CaseKey.default ∈ strayAliases.keys := by
    decide
  have hLast :
      CaseKey.label (.int 4) ∈ strayAliases.keys := by
    decide
  have hCheck :
      checkSwitch (.int 7) sharedThroughDefault =
        .ok [.label (.int 1), .label (.int 1),
          .label (.int 1)] := by
    decide
  have hArms :
      runArms 1 0 sharedThroughDefault.arms
          (.new "demo" .default) =
        (.ok [none, some ⟨false, [⟨1, 1⟩], none⟩, none],
          .new "demo" .default) :=
    rfl
  rcases (aliases_resolve_exactly strayAliases).1 .default
    hDefault with ⟨_, hShort, _, _, _, hCircle, _⟩
  rcases (aliases_resolve_exactly strayAliases).1
    (.label (.int 4)) hLast with ⟨_, _, _, _, hUnknown, _⟩
  rcases (aliases_resolve_exactly sharedThroughDefault).2.1 _ _
    _ _ _ _ hCheck hArms 2 (.label (.int 2)) rfl with
    ⟨_, t, shared, hResolve, _, hShared⟩
  exact ⟨⟨hDefault, hShort, (hCircle _).mp (by decide)⟩,
    ⟨hLast, ((hUnknown _).mp (by decide)).1⟩, hCheck, _, _,
    hArms, t, shared, hResolve, hShared⟩

end FlowGraph.Script
