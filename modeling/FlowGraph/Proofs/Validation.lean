import FlowGraph.Compiled
import FlowGraph.Proofs.Circles
import FlowGraph.Proofs.Growth
import FlowGraph.Proofs.Refusal
import FlowGraph.Proofs.Values

/-
  Graphs that pass validation.

  A graph compiles exactly if its links join exec nodes, its
  pins name outputs of their types, and its flow does not run
  in a circle.  A graph whose links ascend and whose
  arguments are usable is such a graph.

  Key definitions include:
    * `FlowGraph.Graph.Reads`
    * `FlowGraph.Graph.SoundLinks`
    * `FlowGraph.Graph.SoundPins`
    * `FlowGraph.Graph.Proper`

  Key theorems include:
    * `FlowGraph.Graph.compile_of_sound`
    * `FlowGraph.Graph.compiles_iff`
    * `FlowGraph.Graph.compile_verdict`
    * `FlowGraph.Graph.Proper.compile`
-/

------------------------------------------------------------
-- Steps In A Circle
------------------------------------------------------------

namespace FlowGraph.Graph

/- A node takes an argument from another one. -/
def Reads
    (g : Graph)
    (i j : Nat) :
    Prop :=
  ∃ n v p, g.nodes.get? i = some n ∧ v ∈ n.args ∧
    v.pin? = some p ∧ p.node = j

/- Steps that go upwards never come back. -/
theorem lt_of_transGen
    {R : Nat → Nat → Prop}
    (h : ∀ i j, R i j → i < j)
    {i j : Nat}
    (hPath : Relation.TransGen R i j) :
    i < j := by
  induction hPath with
  | single hStep => exact h _ _ hStep
  | tail _ hStep ih => exact Nat.lt_trans ih (h _ _ hStep)

/- Steps that go downwards never come back. -/
theorem gt_of_transGen
    {R : Nat → Nat → Prop}
    (h : ∀ i j, R i j → j < i)
    {i j : Nat}
    (hPath : Relation.TransGen R i j) :
    j < i := by
  induction hPath with
  | single hStep => exact h _ _ hStep
  | tail _ hStep ih => exact Nat.lt_trans (h _ _ hStep) ih

end FlowGraph.Graph

------------------------------------------------------------
-- Checks
------------------------------------------------------------

namespace FlowGraph

/- Checks succeed one after another if all of them do. -/
theorem forM_eq_ok_iff
    {α : Type}
    {f : α → Except Error Unit}
    {items : List α} :
    items.forM f = .ok () ↔ ∀ a ∈ items, f a = .ok () := by
  constructor
  · exact of_forM_ok
  · intro h
    induction items with
    | nil => rfl
    | cons a rest ih =>
        have hRest :=
          ih fun b hb => h b (List.mem_cons_of_mem _ hb)
        show (f a >>= fun _ => rest.forM f) = .ok ()
        rw [h a List.mem_cons_self]
        exact hRest

/- The refusal of several checks is that of one of them. -/
theorem of_forM_error
    {α : Type}
    {f : α → Except Error Unit}
    {items : List α}
    {e : Error}
    (h : items.forM f = .error e) :
    ∃ a ∈ items, f a = .error e := by
  induction items with
  | nil => cases h
  | cons a rest ih =>
      have hCases : (f a >>= fun _ => rest.forM f) = .error e := h
      cases hFirst : f a with
      | error e' =>
          rw [hFirst] at hCases
          cases hCases
          exact ⟨a, List.mem_cons_self, hFirst⟩
      | ok u =>
          rw [hFirst] at hCases
          rcases ih hCases with ⟨b, hb, hError⟩
          exact ⟨b, List.mem_cons_of_mem _ hb, hError⟩

namespace Graph

variable {g : Graph}

/- Every link leads from an exec output to an exec node. -/
def SoundLinks
    (g : Graph) :
    Prop :=
  ∀ e t, g.execTarget e = some t → g.IsOutput e ∧ g.IsExec t

/- Every pin argument names an output of its type. -/
def SoundPins
    (g : Graph) :
    Prop :=
  ∀ id n v p,
    g.nodes.get? id = some n → v ∈ n.args →
      v.pin? = some p →
        ∃ m out,
          g.nodes.get? p.node = some m ∧
            m.output? p.slot p.index = some out ∧
            out.type = v.type

/- Exec nodes are found as such. -/
theorem execNode_eq_ok
    {id : Nat}
    {n : Node} :
    g.execNode id = .ok n ↔
      g.nodes.get? id = some n ∧ n.nodeClass = .exec := by
  unfold execNode node
  cases hNode : g.nodes.get? id with
  | none => simp [bind, Except.bind]
  | some m =>
      simp only [bind, Except.bind, Option.some.injEq]
      by_cases hExec : m.nodeClass = .exec
      · rw [if_pos hExec]
        constructor
        · intro h
          cases h
          exact ⟨rfl, hExec⟩
        · intro h
          rw [h.1]
      · rw [if_neg hExec]
        constructor
        · intro h
          cases h
        · intro h
          rw [h.1] at hExec
          exact absurd h.2 hExec

/- A link is valid if both of its ends are. -/
theorem checkLink_eq_ok
    {e : Endpoint}
    {t : Nat} :
    g.checkLink e t = .ok () ↔ g.IsOutput e ∧ g.IsExec t := by
  unfold checkLink
  rw [bind_eq_ok]
  constructor
  · intro h
    rcases h with ⟨n, hSource, hRest⟩
    rcases execNode_eq_ok.mp hSource with ⟨hNode, hExec⟩
    by_cases hIndex : e.index < n.execOutputs
    · rw [if_pos hIndex, bind_eq_ok] at hRest
      rcases hRest with ⟨m, hTarget, _⟩
      exact ⟨⟨n, hNode, hExec, hIndex⟩, m,
        execNode_eq_ok.mp hTarget⟩
    · rw [if_neg hIndex] at hRest
      cases hRest
  · intro h
    rcases h with ⟨⟨n, hNode, hExec, hIndex⟩, m, hTarget⟩
    refine ⟨n, execNode_eq_ok.mpr ⟨hNode, hExec⟩, ?_⟩
    rw [if_pos hIndex, execNode_eq_ok.mpr hTarget]
    rfl

/- An argument is valid unless it is a pin that does not fit. -/
theorem checkArg_eq_ok
    {user : Nat}
    {v : Value} :
    g.checkArg user v = .ok () ↔
      ∀ p, v.pin? = some p →
        ∃ m out,
          g.nodes.get? p.node = some m ∧
            m.output? p.slot p.index = some out ∧
            out.type = v.type := by
  unfold checkArg
  cases hPin : v.pin? with
  | none => simp
  | some p =>
      cases hNode : g.nodes.get? p.node with
      | none => simp [hNode]
      | some m =>
          cases hOut : m.output? p.slot p.index with
          | none => simp [hNode, hOut]
          | some out => simp [hNode, hOut]

theorem checkLinks_eq_ok :
    g.checkLinks = .ok () ↔ g.SoundLinks := by
  unfold checkLinks SoundLinks
  rw [forM_eq_ok_iff]
  constructor
  · intro h e t hTarget
    exact checkLink_eq_ok.mp
      (h (e, t) (Table.get?_eq_some_iff.mp hTarget))
  · intro h link hLink
    exact checkLink_eq_ok.mpr
      (h link.1 link.2 (Table.get?_eq_some_iff.mpr hLink))

theorem checkArgs_eq_ok :
    g.checkArgs = .ok () ↔ g.SoundPins := by
  unfold checkArgs SoundPins
  rw [forM_eq_ok_iff]
  constructor
  · intro h id n v p hNode hv hp
    have hArgs := h (id, n) (Table.get?_eq_some_iff.mp hNode)
    exact checkArg_eq_ok.mp (forM_eq_ok_iff.mp hArgs v hv) p hp
  · intro h entry hEntry
    have hNode : g.nodes.get? entry.1 = some entry.2 :=
      Table.get?_eq_some_iff.mpr hEntry
    apply forM_eq_ok_iff.mpr
    intro v hv
    exact checkArg_eq_ok.mpr fun p hp =>
      h entry.1 entry.2 v p hNode hv hp

end Graph

end FlowGraph

------------------------------------------------------------
-- Refusals
------------------------------------------------------------

namespace FlowGraph.Graph

variable {g : Graph} {e : Error}

/- A link is refused for its nodes, not for a circle. -/
theorem cause_of_checkLinks
    (h : g.checkLinks = .error e) :
    e.cause ≠ .execCycle := by
  rcases of_forM_error h with ⟨link, _, hLink⟩
  have hRegistry := isRegistry_of_checkLink hLink
  intro hCircle
  rw [Error.isRegistry, hCircle] at hRegistry
  cases hRegistry

theorem cause_of_checkArgs
    (h : g.checkArgs = .error e) :
    e.cause ≠ .execCycle := by
  rcases of_forM_error h with ⟨entry, _, hEntry⟩
  rcases of_forM_error hEntry with ⟨v, _, hArg⟩
  unfold checkArg at hArg
  split at hArg
  · cases hArg
  · split at hArg
    · cases hArg
      nofun
    · split at hArg
      · cases hArg
        nofun
      · split at hArg
        · cases hArg
        · cases hArg
          nofun

end FlowGraph.Graph

------------------------------------------------------------
-- Verdicts
------------------------------------------------------------

namespace FlowGraph.Graph

variable {g : Graph}

theorem eq_of_compile
    {c : Compiled}
    (h : g.compile = .ok c) :
    c = g.finished := by
  rcases bind_eq_ok.mp h with ⟨_, _, h⟩
  cases h
  rfl

/- Once links and pins are sound, only circles matter. -/
theorem compile_of_sound
    (hLinks : g.SoundLinks)
    (hPins : g.SoundPins) :
    g.compile =
      match g.cyclicNode? with
      | none => .ok g.finished
      | some id => .error (.onNode .execCycle id) := by
  unfold compile validate
  rw [checkLinks_eq_ok.mpr hLinks, checkArgs_eq_ok.mpr hPins]
  cases hNode : g.cyclicNode? with
  | none => rfl
  | some id => rfl

/- A graph with an unsound link or pin is refused for it. -/
theorem compile_of_unsound
    (h : ¬(g.SoundLinks ∧ g.SoundPins)) :
    ∃ e, g.compile = .error e ∧ e.cause ≠ .execCycle := by
  unfold compile validate
  cases hLinks : g.checkLinks with
  | error e => exact ⟨e, rfl, cause_of_checkLinks hLinks⟩
  | ok u =>
      cases hArgs : g.checkArgs with
      | error e => exact ⟨e, rfl, cause_of_checkArgs hArgs⟩
      | ok u' =>
          exact absurd
            ⟨checkLinks_eq_ok.mp hLinks, checkArgs_eq_ok.mp hArgs⟩
            h

/- What leads into a circle is a node of the graph. -/
theorem mem_keys_of_circling
    (h : g.SoundLinks)
    {id : Nat}
    (hCircling : Circling g.Flows id) :
    id ∈ g.nodes.keys := by
  have hFlows : ∃ j, g.Flows id j := by
    rcases hCircling with ⟨c, hPath, hCircle⟩
    rcases Relation.TransGen.head'_iff.mp
      (Relation.TransGen.trans_right hPath hCircle) with
      ⟨j, hStep, _⟩
    exact ⟨j, hStep⟩
  rcases hFlows with ⟨j, index, hTarget⟩
  rcases (h _ j hTarget).1 with ⟨n, hNode, _⟩
  exact List.mem_map.mpr
    ⟨_, Table.get?_eq_some_iff.mp hNode, rfl⟩

/- Circles are searched for among all nodes. -/
theorem cyclicNode?_iff
    (h : g.SoundLinks) :
    g.cyclicNode? = none ↔
      ∀ i, ¬Relation.TransGen g.Flows i i := by
  constructor
  · intro hNone i hCircle
    have hCircling : Circling g.Flows i :=
      ⟨i, .refl, hCircle⟩
    exact cyclicNode?_eq_none hNone i
      (mem_keys_of_circling h hCircling) hCircling
  · intro hFree
    cases hNode : g.cyclicNode? with
    | none => rfl
    | some id =>
        rcases (cyclicNode?_eq_some hNode).1 with
          ⟨c, _, hCircle⟩
        exact absurd hCircle (hFree c)

/- A graph compiles if it is sound and has no circle. -/
theorem compiles_iff :
    (∃ c, g.compile = .ok c) ↔
      g.SoundLinks ∧ g.SoundPins ∧
        ∀ i, ¬Relation.TransGen g.Flows i i := by
  constructor
  · intro h
    rcases h with ⟨c, hOk⟩
    by_cases hSound : g.SoundLinks ∧ g.SoundPins
    · rw [compile_of_sound hSound.1 hSound.2] at hOk
      cases hNode : g.cyclicNode? with
      | none =>
          exact ⟨hSound.1, hSound.2,
            (cyclicNode?_iff hSound.1).mp hNode⟩
      | some id =>
          rw [hNode] at hOk
          cases hOk
    · rcases compile_of_unsound hSound with ⟨e, hError, _⟩
      rw [hError] at hOk
      cases hOk
  · intro h
    rcases h with ⟨hLinks, hPins, hFree⟩
    rw [compile_of_sound hLinks hPins,
      (cyclicNode?_iff hLinks).mpr hFree]
    exact ⟨_, rfl⟩

/- A circle is reported where the search has found it. -/
theorem execCycle_iff
    {e : Error} :
    g.compile = .error e ∧ e.cause = .execCycle ↔
      (g.SoundLinks ∧ g.SoundPins) ∧
        ∃ id, g.cyclicNode? = some id ∧
          e = .onNode .execCycle id := by
  constructor
  · intro h
    rcases h with ⟨hError, hCause⟩
    by_cases hSound : g.SoundLinks ∧ g.SoundPins
    · rw [compile_of_sound hSound.1 hSound.2] at hError
      cases hNode : g.cyclicNode? with
      | none =>
          rw [hNode] at hError
          cases hError
      | some id =>
          rw [hNode] at hError
          cases hError
          exact ⟨hSound, id, rfl, rfl⟩
    · rcases compile_of_unsound hSound with ⟨e', hOther, hNot⟩
      rw [hOther] at hError
      cases hError
      exact absurd hCause hNot
  · intro h
    rcases h with ⟨⟨hLinks, hPins⟩, id, hNode, hEq⟩
    rw [compile_of_sound hLinks hPins, hNode, hEq]
    exact ⟨rfl, rfl⟩

end FlowGraph.Graph

------------------------------------------------------------
-- Proper Graphs
------------------------------------------------------------

namespace FlowGraph.Graph

/-
  Links lead upwards from exec outputs to exec nodes, and
  arguments are usable.
-/
structure Proper
    (g : Graph) :
    Prop where
  source :
    ∀ {e t}, g.execTarget e = some t → g.IsOutput e
  target :
    ∀ {e t}, g.execTarget e = some t → g.IsExec t
  ascends :
    ∀ {e t}, g.execTarget e = some t → e.node < t
  below :
    ∀ {id n}, g.nodes.get? id = some n → id < g.nextId
  args :
    ∀ {id n}, g.nodes.get? id = some n →
      ∀ v ∈ n.args, v.Usable g (fun _ => False)

variable {g : Graph}

namespace Proper

theorem soundLinks
    (h : g.Proper) :
    g.SoundLinks :=
  fun _ _ hTarget => ⟨h.source hTarget, h.target hTarget⟩

theorem soundPins
    (h : g.Proper) :
    g.SoundPins := by
  intro id n v p hNode hv hp
  exact ((h.args hNode v hv).pin p hp).2

/- The flow does not run in a circle. -/
theorem cyclicNode?
    (h : g.Proper) :
    g.cyclicNode? = none := by
  rw [cyclicNode?_iff h.soundLinks]
  intro i hCircle
  apply Nat.lt_irrefl i
  apply lt_of_transGen ?_ hCircle
  intro j k hFlows
  rcases hFlows with ⟨index, hTarget⟩
  exact h.ascends hTarget

/- Such a graph compiles. -/
theorem compile
    (h : g.Proper) :
    g.compile = .ok g.finished := by
  rw [compile_of_sound h.soundLinks h.soundPins,
    h.cyclicNode?]

end Proper

end FlowGraph.Graph
