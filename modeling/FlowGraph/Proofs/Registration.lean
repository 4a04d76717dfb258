import FlowGraph.Proofs.Appending
import FlowGraph.Proofs.Expansion

/-
  Graphs that are built by calls.

  A graph comes about by nodes that are registered, outputs
  that are linked and lists that are expanded.  A refused
  call leaves the graph as it was, or with some of its lists
  expanded.  Whatever the calls, no link is left that
  validation would refuse, so a finished graph is refused
  for its pins or for a circle.

  Key definitions include:
    * `FlowGraph.Graph.Call`
    * `FlowGraph.Graph.Call.after`
    * `FlowGraph.Graph.built`
    * `FlowGraph.Graph.BadPin`

  Key theorems include:
    * `FlowGraph.Graph.Grounded.after`
    * `FlowGraph.Graph.badPin_of_checkArgs`
    * `FlowGraph.Graph.refusal_of_built`
-/

------------------------------------------------------------
-- Calls
------------------------------------------------------------

namespace FlowGraph.Graph

/- The calls that change a graph. -/
inductive Call where
  | register (n : Node)
  | connect (source : Endpoint) (target : Nat)
  | connectOutput (node index target : Nat)
  | expandLists

/- The graph after an output is to be linked. -/
def tryConnect
    (g : Graph)
    (source : Endpoint)
    (target : Nat) :
    Graph :=
  match g.connect source target with
  | .ok g' => g'
  | .error _ => g

/- The graph after a call, whether refused or not. -/
def Call.after
    (g : Graph) :
    Call → Graph
  | .register n => (g.add n).2
  | .connect source target => g.tryConnect source target
  | .connectOutput node index target =>
      g.tryConnect ⟨node, index⟩ target
  | .expandLists => g.expandLists.2

/- The graph that calls build from nothing. -/
def built
    (name : String)
    (calls : List Call) :
    Graph :=
  calls.foldl Call.after (.empty name)

end FlowGraph.Graph

------------------------------------------------------------
-- Runs Of Calls
------------------------------------------------------------

namespace FlowGraph.Graph.Grounded

variable {g g' : Graph}

theorem empty
    (name : String) :
    (Graph.empty name).Grounded where
  below := by
    intro id n hNode
    cases hNode
  links := by
    intro e t hTarget
    cases hTarget

/- A link is made between the nodes that it was checked for. -/
theorem connect
    (h : g.Grounded)
    {source : Endpoint}
    {target : Nat}
    (hConnect : g.connect source target = .ok g') :
    g'.Grounded := by
  rcases of_connect hConnect with ⟨hOpen, hExec, hEq⟩
  rw [hEq]
  refine ⟨h.below, ?_⟩
  intro e t hTarget
  by_cases hSame : e = source
  · rw [hSame, execTarget_link_self] at hTarget
    cases hTarget
    rw [hSame]
    exact ⟨hOpen.1, hExec⟩
  · rw [execTarget_link_of_ne hSame] at hTarget
    exact h.links e t hTarget

theorem expandList
    (h : g.Grounded)
    {inline : InlineList}
    (hExpand : g.expandList inline = .ok g') :
    g'.Grounded := by
  rcases of_expandList hExpand with ⟨args, _, _, hEq⟩
  rw [hEq]
  exact (h.add _).replaceArg _ _ _

theorem tryConnect
    (h : g.Grounded)
    (source : Endpoint)
    (target : Nat) :
    (g.tryConnect source target).Grounded := by
  unfold Graph.tryConnect
  cases hConnect : g.connect source target with
  | ok g' => exact h.connect hConnect
  | error e => exact h

/- One call, refused or not. -/
theorem after
    (h : g.Grounded)
    (call : Call) :
    (call.after g).Grounded := by
  cases call with
  | register n => exact h.add n
  | connect source target => exact h.tryConnect source target
  | connectOutput node index target =>
      exact h.tryConnect ⟨node, index⟩ target
  | expandLists =>
      exact expandEach_induction
        (fun hBefore => hBefore.expandList) h

/- All calls, one after another. -/
theorem foldl_after
    (h : g.Grounded)
    (calls : List Call) :
    (calls.foldl Call.after g).Grounded := by
  induction calls generalizing g with
  | nil => exact h
  | cons call rest ih => exact ih (h.after call)

end FlowGraph.Graph.Grounded

------------------------------------------------------------
-- Refusals Of A Finished Graph
------------------------------------------------------------

namespace FlowGraph.Graph

/-
  A refusal for a pin among the arguments of a node: its node
  is missing, its output is missing, or the output has
  another type.
-/
def BadPin
    (g : Graph)
    (e : Error) :
    Prop :=
  ∃ user n v p,
    g.nodes.get? user = some n ∧ v ∈ n.args ∧
    v.pin? = some p ∧
    ((g.nodes.get? p.node = none ∧
        e = .onNode .unknownNode user) ∨
      ∃ m, g.nodes.get? p.node = some m ∧
        ((m.output? p.slot p.index = none ∧
            e = .onNode (.unknownPin p.slot p.index) user) ∨
          ∃ out, m.output? p.slot p.index = some out ∧
            out.type ≠ v.type ∧
            e = .onNode
              (.typeMismatch (.type v.type) (.type out.type)
                none)
              user))

variable {g : Graph} {e : Error}

/- Arguments are refused for nothing but their pins. -/
theorem badPin_of_checkArgs
    (h : g.checkArgs = .error e) :
    g.BadPin e := by
  rcases of_forM_error h with ⟨⟨user, n⟩, hEntry, hArgs⟩
  rcases of_forM_error hArgs with ⟨v, hv, hArg⟩
  have hNode : g.nodes.get? user = some n :=
    Table.get?_eq_some_iff.mpr hEntry
  unfold checkArg at hArg
  cases hPin : v.pin? with
  | none =>
      rw [hPin] at hArg
      cases hArg
  | some p =>
      refine ⟨user, n, v, p, hNode, hv, hPin, ?_⟩
      rw [hPin] at hArg
      cases hUsed : g.nodes.get? p.node with
      | none =>
          simp only [hUsed] at hArg
          cases hArg
          exact Or.inl ⟨rfl, rfl⟩
      | some m =>
          refine Or.inr ⟨m, rfl, ?_⟩
          cases hOut : m.output? p.slot p.index with
          | none =>
              simp only [hUsed, hOut] at hArg
              cases hArg
              exact Or.inl ⟨rfl, rfl⟩
          | some out =>
              simp only [hUsed, hOut] at hArg
              by_cases hType : out.type = v.type
              · rw [if_pos hType] at hArg
                cases hArg
              · rw [if_neg hType] at hArg
                cases hArg
                exact Or.inr ⟨out, rfl, hType, rfl⟩

/- Once the links are sound, pins and circles are left. -/
theorem refusal_of_soundLinks
    (hLinks : g.SoundLinks)
    (h : g.compile = .error e) :
    (∃ id, e = .onNode .execCycle id) ∨ g.BadPin e := by
  unfold compile validate at h
  rw [checkLinks_eq_ok.mpr hLinks] at h
  cases hArgs : g.checkArgs with
  | error e' =>
      rw [hArgs] at h
      cases h
      exact Or.inr (badPin_of_checkArgs hArgs)
  | ok u =>
      rw [hArgs] at h
      cases hCircle : g.cyclicNode? with
      | none =>
          rw [hCircle] at h
          cases h
      | some id =>
          rw [hCircle] at h
          cases h
          exact Or.inl ⟨id, rfl⟩

/- A free output is linked exactly if the link is valid. -/
theorem connects_iff
    {source : Endpoint}
    {target : Nat}
    (hFree : g.execTarget source = none) :
    (∃ g', g.connect source target = .ok g') ↔
      g.checkLink source target = .ok () := by
  rw [checkLink_eq_ok]
  constructor
  · intro h
    rcases h with ⟨g', hConnect⟩
    rcases of_connect hConnect with ⟨hOpen, hExec, _⟩
    exact ⟨hOpen.1, hExec⟩
  · intro h
    exact ⟨_, connect_eq_ok ⟨h.1, hFree⟩ h.2⟩

/-
  Whatever calls have built a graph, refused ones and halfway
  expansions included, every link passes the check of links,
  which also decides on the links to come.  So the graph is
  refused only for a circle or for a pin argument, which is
  found where the refusal says.
-/
theorem refusal_of_built
    (name : String)
    (calls : List Call) :
    (∀ e t, (built name calls).execTarget e = some t →
      (built name calls).checkLink e t = .ok ()) ∧
    (∀ e t, (built name calls).execTarget e = none →
      ((∃ g, (built name calls).connect e t = .ok g) ↔
        (built name calls).checkLink e t = .ok ())) ∧
    (built name calls).checkLinks = .ok () ∧
    ∀ e, (built name calls).compile = .error e →
      (∃ id, e = .onNode .execCycle id) ∨
        (built name calls).BadPin e := by
  have hLinks : (built name calls).SoundLinks :=
    ((Grounded.empty name).foldl_after calls).links
  refine ⟨?_, ?_, checkLinks_eq_ok.mpr hLinks, ?_⟩
  · intro e t hTarget
    exact checkLink_eq_ok.mpr (hLinks e t hTarget)
  · intro e t hFree
    exact connects_iff hFree
  · intro e hError
    exact refusal_of_soundLinks hLinks hError

end FlowGraph.Graph
