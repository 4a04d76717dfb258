import FlowGraph.Proofs.Constructs

/-
  The machine runs switches.

  A switch is entered and an answer decides which of its exec
  outputs is followed.  That of an alias leads to where the
  branch leads which it resolves to, so the machine does what
  this branch means, and all branches go on from the join.

  Key theorems include:
    * `FlowGraph.Switch.resolve_self`
    * `FlowGraph.Script.Assembled.follows`
    * `FlowGraph.Script.executes_switch`
-/

------------------------------------------------------------
-- Keys And Answers
------------------------------------------------------------

namespace FlowGraph.Switch

variable {β : Type} {sw : Switch β}

/- A branch that is not an alias resolves to itself. -/
theorem resolve_self
    {k : CaseKey}
    {arm : Arm β}
    (hArm : sw.arm? k = some arm)
    (hNot : arm.alias? = none) :
    sw.resolve k = .ok k := by
  have hLength : sw.keys.length = sw.labels.length + 1 := by
    simp [keys]
  rw [resolve, hLength, follow, hArm]
  cases arm with
  | body b => rfl
  | empty => rfl
  | «alias» next => cases hNot

end FlowGraph.Switch

namespace FlowGraph.Script

/- An answer stands for one of the exec outputs. -/
theorem choose_lt
    {outputs : Nat}
    (h : 0 < outputs)
    (answer : Nat) :
    Machine.choose outputs answer < outputs := by
  unfold Machine.choose
  split
  · assumption
  · exact h

/- What the branch means that an answer stands for. -/
theorem Meaning.chosen_eq
    {sw : Switch (Run Unit)}
    {sw' : Switch Meaning}
    {answer : Nat}
    {k t : CaseKey}
    (hLike : sw'.Like sw)
    (hKey :
      sw.keys[Machine.choose sw.keys.length answer]? = some k)
    (hResolve : sw.resolve k = .ok t) :
    Meaning.chosen sw' answer =
      Meaning.ofArm sw'.arms[sw.index t]? := by
  unfold Meaning.chosen
  rw [hLike.keys, hKey]
  simp only [hLike.resolve, hResolve]
  rw [← Switch.arms_index, hLike.index]

end FlowGraph.Script

------------------------------------------------------------
-- Branches
------------------------------------------------------------

namespace FlowGraph.Script

open Machine

variable {P : Entry → Prop}
variable {M : Machine} {N : Path → Option Nat}
variable {s s' s₁ s₂ : Session} {path : Path}
variable {control : Value} {sw : Switch (Run Unit)}
variable {branches : List (Option Branch)}
variable {join : List Endpoint}

/- Endpoints that are paired lead the machine to one node. -/
theorem Session.Settled.paired
    (h : Session.Settled M N s s')
    {x y : Endpoint}
    (hx : s.graph.nextId ≤ x.node)
    (hy : s.graph.nextId ≤ y.node)
    (hPaired : s'.graph.Paired s'.frame.tail x y) :
    M.graph.execTarget x = M.graph.execTarget y := by
  by_cases hMem : x ∈ s'.frame.tail
  · rcases h.together with ⟨t, ht⟩
    rw [ht x hMem, ht y (hPaired.listed.mp hMem)]
  · have hOther : y ∉ s'.frame.tail :=
      fun hy => hMem (hPaired.listed.mpr hy)
    rw [h.links x (Or.inl hx) hPaired.left_lt hMem,
      h.links y (Or.inl hy) hPaired.right_lt hOther]
    exact hPaired.target

/-
  The exec output that the machine follows leads to where the
  branch leads which its own resolves to.
-/
theorem Assembled.follows
    (h : Assembled P control sw s branches s₁ join s₂)
    (hSettled :
      Session.Settled M N s (s₂.withTail join))
    {j : Nat}
    (hLt : j < sw.keys.length) :
    ∃ k t arm, sw.keys[j]? = some k ∧
      sw.resolve k = .ok t ∧ sw.arms[sw.index t]? = some arm ∧
        arm.alias? = none ∧
          M.follow s.graph.nextId j =
            M.follow s.graph.nextId (sw.index t) := by
  rcases h.wired with ⟨targets, tail', hCheck, hWired⟩
  rw [Switch.length_keys] at hLt
  rcases arm?_of_checkSwitch hCheck
      (List.getElem?_eq_getElem hLt) with
    ⟨k, hKey, hIndex, hArm⟩
  generalize sw.arms[j] = arm at hArm
  by_cases hAlias : arm.alias?.isSome = true
  · rcases h.dispatched.paired _ arm hArm hAlias with
      ⟨t, hResolve, hPaired⟩
    rcases Switch.resolve_isSome hArm hResolve with
      ⟨arm', hArm', hNot⟩
    rw [← Switch.arms_index] at hArm'
    refine ⟨_, t, arm', hKey, hResolve, hArm', hNot, ?_⟩
    rw [hIndex] at hPaired
    exact hSettled.paired (Nat.le_refl _) (Nat.le_refl _)
      hPaired
  · have hNot : arm.alias? = none := by
      simpa using hAlias
    have hResolve := Switch.resolve_self hArm hNot
    rw [← Switch.arms_index] at hArm
    refine ⟨_, _, arm, hKey, hResolve, hArm, hNot, ?_⟩
    rw [hIndex]

/- The machine asks which of the outputs it follows. -/
theorem enter_switchNode
    (m : State)
    (id : Nat) :
    M.enter m id (switchNode control sw) =
      ((m.visit id).ask).goto
        (M.follow id
          (choose sw.keys.length (M.answer m.asked))) := by
  have hOutputs :
      (switchNode control sw).execOutputs =
        sw.keys.length := by
    rw [switchNode_execOutputs]
    simp [Switch.keys, Switch.labels]
  rw [← hOutputs]
  rfl

/- The machine takes the branch that an answer stands for. -/
theorem executes_switch
    {sw' : Switch Meaning}
    {a b : Nat → Session}
    (hReady : s.Ready)
    (hLike : sw'.Like sw)
    (hEmpty :
      ∀ j : Nat, sw.arms[j]? = some .empty →
        Meaning.ofArm sw'.arms[j]? = .ends .done)
    (h : Assembled P control sw s branches s₁ join s₂)
    (hArms :
      ArmsTaken P s.graph.nextId 0 sw.arms
        (s.placed (switchNode control sw)) branches s₁ a b)
    (hFresh :
      ∀ (j : Nat) body, sw.arms[j]? = some (.body body) →
        (a j).Fresh (b j))
    (hBodies :
      ∀ (j : Nat) body, sw.arms[j]? = some (.body body) →
        Executes M N (Meaning.ofArm sw'.arms[j]?) (a j) (b j))
    (hNode : N path = some s.graph.nextId) :
    Executes M N
      ((Meaning.asks M.answer (Meaning.chosen sw')).visits
        path) s (s₂.withTail join) := by
  intro hSettled m hPoised
  have hReach :=
    (h.entered hReady).reaches hReady hSettled hPoised.next
  rw [enter_switchNode] at hReach
  have hDefault : CaseKey.default ∈ sw.keys :=
    List.mem_cons_self
  have hLt :=
    choose_lt (List.length_pos_of_mem hDefault)
      (M.answer m.asked)
  rcases h.follows hSettled hLt with
    ⟨k, t, arm, hKey, hResolve, hArm, hNot, hFollow⟩
  rw [hFollow] at hReach
  simp only [Meaning.visits, Meaning.asks,
    Meaning.chosen_eq hLike hKey hResolve]
  cases arm with
  | body body =>
      have hTaken := hArms.bodies _ body hArm
      rw [Nat.zero_add] at hTaken
      rcases h.within hReady hTaken with ⟨hWithin, hJoined⟩
      have hStart :
          (a (sw.index t)).Poised M
            (((m.visit s.graph.nextId).ask).goto
              (M.follow s.graph.nextId (sw.index t))) := by
        refine ⟨⟨⟨s.graph.nextId, sw.index t⟩, ?_, rfl⟩,
          hPoised.loops.trans hTaken.loops.symm,
          hPoised.down⟩
        rw [hTaken.tail]
        exact List.mem_singleton_self _
      exact (hBodies _ body hArm).enclosed hSettled hWithin
        (h.shares hReady hArms hFresh hArm) hTaken.leads
        hJoined hNode hReach hStart rfl rfl
  | empty =>
      rcases h.wired with ⟨targets, tail', _, hWired⟩
      rcases hArms.empties _ hArm with ⟨br, hbr, hTail⟩
      rw [Nat.zero_add] at hTail
      have hMem :
          (⟨s.graph.nextId, sw.index t⟩ : Endpoint) ∈
            ownJoin branches := by
        refine mem_ownJoin.mpr ⟨_, br, hbr, ?_⟩
        rw [hTail]
        exact List.mem_singleton_self _
      rw [hEmpty _ hArm]
      refine ⟨_, hReach, rfl, ?_,
        ⟨_, (hWired.joined _).mpr (Or.inl hMem), rfl⟩, rfl,
        hPoised.down⟩
      simp [State.goto, State.ask, State.visit, Meaning.ends,
        hNode]
  | «alias» next => cases hNot

end FlowGraph.Script
