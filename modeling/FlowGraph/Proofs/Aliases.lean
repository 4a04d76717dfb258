import FlowGraph.Proofs.Cursor

/-
  Aliases of a switch.

  Once a switch is complete, the exec output of an alias and
  that of the branch which it resolves to lead to the same
  node or are both open, and no statement that follows can
  tell them apart.

  Key theorems include:
    * `FlowGraph.Script.Session.History.tied_after`
    * `FlowGraph.Script.alias_shares_target`
-/

------------------------------------------------------------
-- What An Entry Ties
------------------------------------------------------------

namespace FlowGraph.Script

variable {P : Entry → Prop} {lo : Nat} {s s' : Session}

/- What an entry ties has one target from then on. -/
theorem Session.History.tied_after
    {before after : List Entry}
    {e : Entry}
    (h : Session.History P lo s
      (before ++ e :: after).reverse s')
    {a b : Endpoint}
    (hTies : e.Ties a b) :
    (∀ d ∈ e :: after,
        d.graph.execTarget a = d.graph.execTarget b) ∧
      s'.graph.execTarget a = s'.graph.execTarget b := by
  have hMem : e ∈ (before ++ e :: after).reverse := by
    simp
  refine ⟨?_, (h.tied e hMem a b hTies).target⟩
  intro d hd
  rcases List.mem_cons.mp hd with hEq | hLater
  · rw [hEq]
    exact hTies.paired.target
  · have hPairs := List.pairwise_reverse.mp h.later
    have hRest := (List.pairwise_append.mp hPairs).2.1
    exact (List.pairwise_cons.mp hRest).1 d hLater a b hTies

end FlowGraph.Script

------------------------------------------------------------
-- Aliases
------------------------------------------------------------

namespace FlowGraph.Script

/-
  In a structured script that is never refused, a finished
  switch has a node of its own, and every alias of it
  resolves to a branch whose exec output leads to the same
  node as its own, from then on to the end.
-/
theorem alias_shares_target
    (name : String)
    (config : Config)
    (script : List Stmt)
    (hScript : structured script = true)
    (hOk :
      ∀ e ∈ (run name config script).entries,
        e.event.isFailure = false)
    (before after : List Entry)
    (e : Entry)
    (hEntries :
      (run name config script).entries =
        before ++ e :: after)
    (r : Result)
    (hEvent : e.event = .finished r)
    (bind : Binding)
    (control : Operand)
    (sw : Switch (List Stmt))
    (hPlace :
      find? script e.path =
        some (.switch bind control sw.cases sw.default)) :
    ∃ n c, r = .node n ∧
      e.builder.graph.nodes.get? n =
        some (switchNode c sw) ∧
      ∀ k next, sw.arm? k = some (.alias next) →
        ∃ t arm, sw.resolve k = .ok t ∧
          sw.arm? t = some arm ∧ arm.alias? = none ∧
          (∀ d ∈ e :: after,
            d.builder.graph.execTarget ⟨n, sw.index k⟩ =
              d.builder.graph.execTarget
                ⟨n, sw.index t⟩) ∧
          (run name config script).builder.graph.execTarget
              ⟨n, sw.index k⟩ =
            (run name config script).builder.graph.execTarget
              ⟨n, sw.index t⟩ := by
  have hTold :=
    (Session.Told.new (P := Entry.Complete script) name
      config).runFrom hScript (holds_script script)
        fun d hd => hOk d (List.mem_reverse.mpr hd)
  have hJournal :
      (runFrom 0 script (.new name config)).journal =
        (before ++ e :: after).reverse := by
    rw [← hEntries, Session.entries, List.reverse_reverse,
      run]
  have hHistory := hTold.history
  rw [hJournal] at hHistory
  have hComplete := hHistory.holds e (by simp)
  rcases hComplete r bind control sw.cases sw.default hEvent
    hPlace with ⟨n, c, hResult, hNode, hAliases⟩
  refine ⟨n, c, hResult, hNode, ?_⟩
  intro k next hAlias
  rcases hAliases k next hAlias with ⟨t, hResolve, hPaired⟩
  rcases Switch.resolve_isSome hAlias hResolve with
    ⟨arm, hArm, hOwn⟩
  rw [hResult] at hEvent
  exact ⟨t, arm, hResolve, hArm, hOwn,
    hHistory.tied_after ⟨hEvent, hEvent, hPaired⟩⟩

/-
  Two aliases of a branch that returns, the second one by
  way of the first.  Both lead to the branch itself.
-/
theorem alias_shares_returning_branch :
    structured sharedReturn = true ∧
      (∀ e ∈ (run "demo" .default sharedReturn).entries,
        e.event.isFailure = false) ∧
      ∃ before e after,
        (run "demo" .default sharedReturn).entries =
          before ++ e :: after ∧
        e.event = .finished (.node 3) ∧
        (∀ d ∈ e :: after,
          d.builder.graph.execTarget ⟨3, 0⟩ =
            d.builder.graph.execTarget ⟨3, 1⟩) ∧
        (run "demo" .default
              sharedReturn).builder.graph.execTarget ⟨3, 0⟩ =
          (run "demo" .default
              sharedReturn).builder.graph.execTarget
            ⟨3, 1⟩ := by
  have hScript : structured sharedReturn = true := by
    decide
  have hOk :
      ∀ e ∈ (run "demo" .default sharedReturn).entries,
        e.event.isFailure = false := by
    decide +kernel
  have hEntry :
      ∃ e ∈ (run "demo" .default sharedReturn).entries,
        e.event = .finished (.node 3) ∧
          e.path =
            [.statement 1, .loopBody, .statement 0] := by
    decide +kernel
  rcases hEntry with ⟨e, hMem, hEvent, hPath⟩
  rcases List.append_of_mem hMem with
    ⟨before, after, hEntries⟩
  have hShared :=
    alias_shares_target "demo" .default sharedReturn hScript
      hOk before after e hEntries (.node 3) hEvent .none
      (.value (.int 1))
      ⟨[(.int 1, .body
            [.action .none (.print (.literal (.str "a"))),
              .action .none .returnNow]),
          (.int 2, .alias (.label (.int 1)))],
        .alias (.label (.int 2))⟩
      (by rw [hPath]; rfl)
  rcases hShared with ⟨n, c, hResult, -, hAliases⟩
  cases hResult
  rcases hAliases .default (.label (.int 2)) rfl with
    ⟨t, arm, hResolve, -, -, hShare⟩
  cases hResolve
  exact ⟨hScript, hOk, before, e, after, hEntries, hEvent,
    hShare⟩

end FlowGraph.Script
