import FlowGraph.Proofs.Closed
import FlowGraph.Proofs.Cursor
import FlowGraph.Proofs.Expansion

/-
  Graphs of closed scripts are accepted.

  The links of a script lead upwards and its arguments are
  taken from below, so neither the flow nor the data run in
  a circle and nothing is left for validation to refuse.

  Key theorems include:
    * `FlowGraph.Script.ordered_run`
    * `FlowGraph.Script.finish_accepts`
-/

------------------------------------------------------------
-- The Graph Of A Script
------------------------------------------------------------

namespace FlowGraph.Script

variable {name : String} {config : Config}
variable {script : List Stmt}

/- An ordered graph with ascending links is proper. -/
theorem proper_of_ordered
    {g : Graph}
    (hWf : g.Wf)
    (hOrdered : g.Ordered) :
    g.Proper := by
  refine ⟨hWf.source, hWf.target, hWf.ascends, hWf.node_lt,
    ?_⟩
  intro id n hNode v hv
  exact Builder.usable_anyway (hOrdered.args hNode v hv)

/- The graph of a script that was not refused. -/
theorem wf_run
    (hScript : structured script = true)
    (hOk :
      ∀ e ∈ (run name config script).entries,
        e.event.isFailure = false) :
    (run name config script).builder.graph.Wf := by
  have hTold :=
    (Session.Told.new (P := Entry.Complete script) name
      config).runFrom hScript (holds_script script)
        fun e he => hOk e (List.mem_reverse.mpr he)
  exact hTold.ready.builder.wf

/- A closed script has an ordered graph. -/
theorem ordered_run
    (hScript : structured script = true)
    (hClosed : closed script = true)
    (hOk :
      ∀ e ∈ (run name config script).entries,
        e.event.isFailure = false) :
    (run name config script).builder.graph.Ordered ∧
      (run name config script).builder.config = config := by
  have hSane :=
    (sane_new name config).runFrom hScript hClosed
      fun e he => hOk e (List.mem_reverse.mpr he)
  exact ⟨hSane.1.builder.ordered, hSane.2⟩

end FlowGraph.Script

------------------------------------------------------------
-- Acceptance
------------------------------------------------------------

namespace FlowGraph.Script

/-
  The graph of a closed structured script that was never
  refused has ascending links and descending arguments of
  exactly their types, so it has no circles and compiles.
  It is finished as well, unless an inline list that has to
  be expanded is empty or has more than a hundred items.
-/
theorem finish_accepts
    (name : String)
    (config : Config)
    (script : List Stmt)
    (hScript : structured script = true)
    (hClosed : closed script = true)
    (hOk :
      ∀ e ∈ (run name config script).entries,
        e.event.isFailure = false) :
    (∀ e t,
      (run name config script).builder.graph.execTarget e =
          some t →
        e.node < t) ∧
    (∀ id n v p,
      (run name config script).builder.graph.nodes.get? id =
          some n →
        v ∈ n.args → v.pin? = some p →
          p.node < id ∧
            ∃ m out,
              (run name config
                  script).builder.graph.nodes.get? p.node =
                some m ∧
              m.output? p.slot p.index = some out ∧
              out.type = v.type) ∧
    (∀ i,
      ¬ Relation.TransGen
          (run name config script).builder.graph.Flows i i) ∧
    (∀ i,
      ¬ Relation.TransGen
          (run name config script).builder.graph.Reads i i) ∧
    (∃ c,
      (run name config script).builder.graph.compile =
        .ok c) ∧
    (config.expandLists = false →
      ∃ c, (run name config script).builder.finish =
        .ok c) ∧
    (config.expandLists = true →
      ((∀ items,
          (run name config script).builder.graph.Inlines
              items →
            0 < items.length ∧ items.length ≤ 100) →
        ∃ c, (run name config script).builder.finish =
          .ok c) ∧
      (∀ items,
        (run name config script).builder.graph.Inlines
            items →
          (items.length = 0 ∨ 100 < items.length) →
            ∃ err,
              (run name config script).builder.finish =
                .error err ∧
              (err.cause = .emptyCollection .list ∨
                ∃ k, 100 < k ∧
                  err.cause =
                    .tooManyElements .list k))) := by
  have hWf := wf_run hScript hOk
  rcases ordered_run hScript hClosed hOk with
    ⟨hOrdered, hConfig⟩
  have hProper := proper_of_ordered hWf hOrdered
  have hArgs :
      ∀ id n v p,
        (run name config script).builder.graph.nodes.get?
            id = some n →
          v ∈ n.args → v.pin? = some p →
            p.node < id ∧
              ∃ m out,
                (run name config
                    script).builder.graph.nodes.get? p.node =
                  some m ∧
                m.output? p.slot p.index = some out ∧
                out.type = v.type := by
    intro id n v p hNode hv hp
    rcases (hOrdered.args hNode v hv).pin p hp with
      ⟨hNot, hOutput⟩
    exact ⟨Nat.lt_of_not_le hNot, hOutput⟩
  refine ⟨fun _ _ hTarget => hWf.ascends hTarget, hArgs,
    ?_, ?_, ⟨_, hProper.compile⟩, ?_, ?_⟩
  · intro i hCircle
    apply Nat.lt_irrefl i
    apply Graph.lt_of_transGen ?_ hCircle
    intro j k hFlows
    rcases hFlows with ⟨index, hTarget⟩
    exact hWf.ascends hTarget
  · intro i hCircle
    apply Nat.lt_irrefl i
    apply Graph.gt_of_transGen ?_ hCircle
    intro j k hReads
    rcases hReads with ⟨n, v, p, hNode, hv, hp, hEq⟩
    rw [← hEq]
    exact (hArgs j n v p hNode hv hp).1
  · intro hOff
    rw [← hConfig] at hOff
    exact ⟨_, Builder.finish_of_off hProper hOff⟩
  · intro hOn
    rw [← hConfig] at hOn
    refine ⟨Builder.finish_of_fits hProper hOn, ?_⟩
    intro items hItems hSize
    have hNot : ¬ fitsInline items.length := by
      intro hFits
      have hSome := hFits.1
      have hMost := hFits.2
      omega
    rcases Builder.finish_of_not_fits hProper hOn
      ⟨items, hItems, hNot⟩ with
      ⟨others, id, _, hBad, hFinish⟩
    refine ⟨_, hFinish, ?_⟩
    unfold sizeCause
    by_cases hNone : others.length = 0
    · rw [if_pos hNone]
      exact Or.inl rfl
    · rw [if_neg hNone]
      refine Or.inr ⟨others.length, ?_, rfl⟩
      apply Nat.lt_of_not_le
      intro hMost
      exact hBad ⟨Nat.pos_of_ne_zero hNone, hMost⟩

/- A loop over an empty inline list adds up its items. -/
def sumOfNothing : List Stmt :=
  [.action .none (.beginFunction "start"),
    .action ⟨some "total", none⟩ (.declare (.value (.int 0))),
    .forEach ⟨some "item", none⟩
      (.literal "int_list" (.list []))
      [.action ⟨some "next", none⟩
          (.binary .add (.ref "total") (.ref "item")),
        .action .none (.set "total" (.operand (.ref "next")))]]

/- Its graph compiles but the list cannot be expanded. -/
theorem finish_refuses_empty_list :
    structured sumOfNothing = true ∧
      closed sumOfNothing = true ∧
      (∀ e ∈ (run "demo" .default sumOfNothing).entries,
        e.event.isFailure = false) ∧
      (∃ c,
        (run "demo" .default
            sumOfNothing).builder.graph.compile = .ok c) ∧
      ∃ err,
        (run "demo" .default sumOfNothing).builder.finish =
          .error err ∧
        (err.cause = .emptyCollection .list ∨
          ∃ k, 100 < k ∧
            err.cause = .tooManyElements .list k) := by
  have hScript : structured sumOfNothing = true := by
    decide
  have hClosed : closed sumOfNothing = true := by
    decide +kernel
  have hOk :
      ∀ e ∈ (run "demo" .default sumOfNothing).entries,
        e.event.isFailure = false := by
    decide +kernel
  have hInline :
      ∃ inline ∈
          (run "demo" .default
            sumOfNothing).builder.graph.inlineLists,
        inline.items = [] := by
    decide +kernel
  have hAccepts :=
    finish_accepts "demo" .default sumOfNothing hScript
      hClosed hOk
  rcases hAccepts with
    ⟨-, -, -, -, hCompile, -, hExpand⟩
  rcases hInline with ⟨inline, hMem, hEmpty⟩
  rcases Graph.of_mem_inlineLists hMem with
    ⟨n, v, hNode, hArg, hValue⟩
  have hFinish :=
    (hExpand rfl).2 inline.items
      ⟨inline.node, n, v, inline.element, hNode, hArg,
        hValue⟩
      (Or.inl (by rw [hEmpty]; rfl))
  exact ⟨hScript, hClosed, hOk, hCompile, hFinish⟩

end FlowGraph.Script
