import FlowGraph.Proofs.Transport
import FlowGraph.Proofs.Wiring
import Mathlib.Algebra.Group.Nat.Defs
import Mathlib.Logic.Equiv.Defs

/-
  Functions in either order.

  Two functions that do not use what the other one keeps may
  be made in either order.  The second one has its numbers
  put up by as many nodes as the first one has, so that the
  two graphs differ in the numbers of the new nodes alone.

  Key definitions include:
    * `FlowGraph.exchange`
    * `FlowGraph.Node.renumber`
    * `FlowGraph.Graph.Renumbered`
    * `FlowGraph.Graph.Spares`
    * `FlowGraph.Graph.Stacked`

  Key theorems include:
    * `FlowGraph.Graph.renumbered_exchange`
    * `FlowGraph.Script.moved_function`
    * `FlowGraph.Script.functions_commute`
-/

------------------------------------------------------------
-- Numbers That Are Exchanged
------------------------------------------------------------

namespace FlowGraph

/-
  The `f` numbers from `k` on change places with the `g`
  numbers that come after them.
-/
def exchangeNat
    (k f g i : Nat) :
    Nat :=
  if i < k then i
  else if i < k + f then i + g
  else if i < k + f + g then i - f
  else i

theorem exchangeNat_exchangeNat
    (k f g i : Nat) :
    exchangeNat k g f (exchangeNat k f g i) = i := by
  unfold exchangeNat
  grind

/- Exchanging the blocks again undoes it. -/
def exchange
    (k f g : Nat) :
    Equiv.Perm Nat where
  toFun := exchangeNat k f g
  invFun := exchangeNat k g f
  left_inv := exchangeNat_exchangeNat k f g
  right_inv := exchangeNat_exchangeNat k g f

variable {k f g i : Nat}

theorem exchange_of_lt
    (h : i < k) :
    exchange k f g i = i :=
  if_pos h

/- The first block is put up. -/
theorem exchange_first
    (h : i < k + f) :
    exchange k f g i = shift k g i := by
  show exchangeNat k f g i = _
  unfold exchangeNat shift
  grind

/- The second block, which had been put up, comes down. -/
theorem exchange_shift
    (h : i < k + g) :
    exchange k f g (shift k f i) = i := by
  show exchangeNat k f g _ = _
  unfold exchangeNat shift
  grind

theorem exchange_of_le
    (h : k + f + g ≤ i) :
    exchange k f g i = i := by
  show exchangeNat k f g i = _
  unfold exchangeNat
  grind

/- The block that a number is in. -/
theorem exchange_cases
    (k f g i : Nat) :
    i < k + f ∨
      (∃ j, k ≤ j ∧ j < k + g ∧ i = shift k f j) ∨
        k + f + g ≤ i := by
  by_cases hFirst : i < k + f
  · exact Or.inl hFirst
  · by_cases hSecond : i < k + f + g
    · refine Or.inr (Or.inl ⟨i - f, by omega, by omega, ?_⟩)
      rw [shift_of_le (by omega)]
      omega
    · exact Or.inr (Or.inr (Nat.not_lt.mp hSecond))

end FlowGraph

------------------------------------------------------------
-- Nodes With Other Numbers
------------------------------------------------------------

namespace FlowGraph

/- A loop that is to be stopped is known by its number. -/
def Value.renumberLoop
    (π : Nat → Nat)
    (v : Value) :
    Value :=
  match v.source with
  | .literal (.int i) =>
      ⟨v.type, .literal
        (.int (Int64.ofNat (π i.toNatClampNeg)))⟩
  | _ => v.renumber π

/-
  All numbers in a node: those of pins, and those of loops if
  it is one that stops loops.
-/
def Node.renumber
    (π : Nat → Nat)
    (m : Node) :
    Node :=
  { m with
    args := m.args.map
      (if m.nodeType = "break_loop" then
        Value.renumberLoop π
      else Value.renumber π) }

variable {k d n : Nat} {π σ τ : Nat → Nat} {v : Value}
variable {m m' : Node}

theorem Value.renumber_id
    (v : Value) :
    v.renumber id = v := by
  rcases v with ⟨t, l | p⟩ <;> rfl

/- Only numbers that were given out matter. -/
theorem Value.Below.renumber
    (h : v.Below n)
    (hπ : ∀ x < n, π (σ x) = τ x) :
    (v.renumber σ).renumber π = v.renumber τ := by
  rcases v with ⟨t, l | p⟩
  · rfl
  · show pin t ⟨π (σ p.node), p.slot, p.index⟩ =
      pin t ⟨τ p.node, p.slot, p.index⟩
    rw [hπ p.node (h p rfl)]

/- A number that a word has room for can be read back. -/
theorem Value.renumberLoop_int
    {id : Nat}
    (h : id < 2 ^ 63) :
    (Value.int (Int64.ofNat id)).renumberLoop π =
      Value.int (Int64.ofNat (π id)) := by
  show Value.int (Int64.ofNat
    (π (Int64.ofNat id).toNatClampNeg)) = _
  rw [Int64.toNatClampNeg_ofNat_of_lt h]

theorem Builder.renumber_breakNode
    {ids : List Nat}
    (hIds : ∀ id ∈ ids, id < 2 ^ 63) :
    (breakNode ids).renumber π = breakNode (ids.map π) := by
  have hArgs :
      (ids.map fun id => Value.int (Int64.ofNat id)).map
          (Value.renumberLoop π) =
        (ids.map π).map
          fun id => Value.int (Int64.ofNat id) := by
    rw [List.map_map, List.map_map]
    apply List.map_congr_left
    intro id hId
    exact Value.renumberLoop_int (hIds id hId)
  exact congrArg (Builtin.breakLoop.node · none) hArgs

/-
  A node that is moved is one of many copies, which differ in
  their numbers.
-/
theorem Node.Moved.copies
    (h : m.Moved k d n m') :
    ∃ copy : (Nat → Nat) → Node,
      copy id = m ∧ copy (shift k d) = m' ∧
        ∀ {π σ τ : Nat → Nat}, (∀ x < n, σ x < 2 ^ 63) →
          (∀ x < n, π (σ x) = τ x) →
            (copy σ).renumber π = copy τ := by
  cases h with
  | @plain _ args hType hArgs =>
      have hBelow : ∀ v ∈ m.args, v.Below n :=
        ((List.forall₂_and_left _ _).mp
          (hArgs.imp fun _ _ hArg => ⟨hArg.below, hArg⟩)).1
      refine ⟨fun σ =>
        { m with args := m.args.map (Value.renumber σ) },
        ?_, ?_, ?_⟩
      · show { m with args := _ } = m
        rw [List.map_congr_left fun v _ => v.renumber_id,
          List.map_id']
      · show { m with args := _ } = { m with args := _ }
        congr 1
        rw [← List.forall₂_eq_eq_eq, List.forall₂_map_left_iff]
        exact hArgs.imp fun _ _ hArg => hArg.eq.symm
      · intro π σ τ _ hπ
        show { m with args := _ } = { m with args := _ }
        rw [if_neg hType, List.map_map]
        congr 1
        apply List.map_congr_left
        intro v hv
        exact (hBelow v hv).renumber hπ
  | @stop ids hIds =>
      -- The numbers are literals here and have to fit.
      refine ⟨fun σ => Builder.breakNode (ids.map σ),
        ?_, rfl, ?_⟩
      · show Builder.breakNode (ids.map id) = _
        rw [List.map_id]
      · intro π σ τ hBound hπ
        have hRoom : ∀ id ∈ ids.map σ, id < 2 ^ 63 := by
          intro id hId
          rcases List.mem_map.mp hId with ⟨x, hx, rfl⟩
          exact hBound x (hIds x hx)
        rw [Builder.renumber_breakNode hRoom, List.map_map]
        congr 1
        apply List.map_congr_left
        intro x hx
        exact hπ x (hIds x hx)

/- The node that was moved, found from the first one. -/
theorem Node.Moved.renumber
    (h : m.Moved k d n m')
    (hπ : ∀ x < n, π x = shift k d x)
    (hBound : n ≤ 2 ^ 63) :
    m.renumber π = m' := by
  rcases h.copies with ⟨copy, rfl, rfl, hCopy⟩
  exact hCopy (fun x hx => Nat.lt_of_lt_of_le hx hBound) hπ

/- The first node, found from the one that was moved. -/
theorem Node.Moved.renumber_back
    (h : m.Moved k d n m')
    (hπ : ∀ x < n, π (shift k d x) = x)
    (hBound : n + d ≤ 2 ^ 63) :
    m'.renumber π = m := by
  rcases h.copies with ⟨copy, rfl, rfl, hCopy⟩
  refine hCopy ?_ hπ
  intro x hx
  unfold shift
  split <;> omega

end FlowGraph

------------------------------------------------------------
-- Graphs With Other Numbers
------------------------------------------------------------

namespace FlowGraph.Graph

/-
  The second graph is the first with other numbers for the
  nodes from `k` on.  Links are followed in both graphs from
  the same exec outputs to the same nodes.
-/
structure Renumbered
    (k : Nat)
    (π : Nat → Nat)
    (g g' : Graph) :
    Prop where
  name : g'.name = g.name
  nextId : g'.nextId = g.nextId
  old : ∀ i < k, g'.nodes.get? i = g.nodes.get? i
  new :
    ∀ i, k ≤ i →
      g'.nodes.get? (π i) =
        (g.nodes.get? i).map (Node.renumber π)
  links :
    ∀ e, g'.execTarget (e.renumber π) =
      (g.execTarget e).map π

/- Nothing was changed but by new nodes and their links. -/
structure Spares
    (g g' : Graph) :
    Prop where
  le : g.nextId ≤ g'.nextId
  nodes :
    ∀ {i}, i < g.nextId → g'.nodes.get? i = g.nodes.get? i
  links :
    ∀ {e}, e.node < g.nextId →
      g'.execTarget e = g.execTarget e

variable {g g' : Graph} {i : Nat} {e : Endpoint}

theorem Spares.refl
    (g : Graph) :
    g.Spares g :=
  ⟨Nat.le_refl _, fun _ => rfl, fun _ => rfl⟩

/- Links lead to nodes whose numbers are in use. -/
theorem Orderly.map_execTarget
    (h : g.Orderly)
    (σ τ : Nat → Nat)
    (hAgree : ∀ t < g.nextId, σ t = τ t)
    (e : Endpoint) :
    (g.execTarget e).map σ = (g.execTarget e).map τ := by
  cases hLink : g.execTarget e with
  | none => rfl
  | some t => exact congrArg some (hAgree t (h.link_lt hLink).2)

/- Nodes are only added, so that links alone matter. -/
theorem Appends.spares
    (h : g.Appends g')
    (hBefore : g.Consecutive)
    (hAfter : g'.Consecutive)
    (hLe : g.nextId ≤ g'.nextId)
    (hLinks :
      ∀ {e}, e.node < g.nextId →
        g'.execTarget e = g.execTarget e) :
    g.Spares g' := by
  refine ⟨hLe, ?_, hLinks⟩
  intro i hi
  cases hNode : g.nodes.get? i with
  | some m => exact h.get? hNode
  | none =>
      rw [Option.eq_none_iff_forall_ne_some]
      intro m hNew
      have hOne := (hAfter.exists_node_iff.mp ⟨m, hNew⟩).1
      rcases hBefore.exists_node_iff.mpr ⟨hOne, hi⟩ with
        ⟨m', hOld⟩
      rw [hNode] at hOld
      cases hOld

/- The graph that was added to has given out more numbers. -/
theorem Spares.moved
    (h : g.Spares g')
    (hOrderly : g.Orderly)
    (hOrderly' : g'.Orderly) :
    g.Moved g.nextId (g'.nextId - g.nextId) g' where
  base := Nat.le_refl _
  nextId := (Nat.add_sub_cancel' h.le).symm
  used := hOrderly.consecutive.node_lt
  old := h.nodes
  new hLe hNode :=
    absurd (hOrderly.consecutive.node_lt hNode)
      (Nat.not_lt.mpr hLe)
  links e := by
    have hLe := h.le
    by_cases hLt : e.node < g.nextId
    · have hSame :
          e.renumber (shift g.nextId (g'.nextId - g.nextId)) =
            e := by
        unfold Endpoint.renumber
        rw [shift_of_lt hLt]
      rw [hSame, h.links hLt]
      rw [hOrderly.map_execTarget (shift g.nextId _) id
        fun t ht => shift_of_lt ht, Option.map_id]
      rfl
    · rw [hOrderly.execTarget_eq_none (Nat.not_lt.mp hLt),
        hOrderly'.execTarget_eq_none]
      · rfl
      · show _ ≤ shift _ _ _
        rw [shift_of_le (Nat.not_lt.mp hLt)]
        omega

end FlowGraph.Graph

------------------------------------------------------------
-- Blocks Of Nodes
------------------------------------------------------------

namespace FlowGraph.Graph

/-
  The graph `ab` has the nodes of `a`, which are `f` from
  number `k` on, and after them those of `b`, put up.
-/
structure Stacked
    (k f : Nat)
    (a b ab : Graph) :
    Prop where
  nextId : a.nextId = k + f
  base : a.Orderly
  spares : a.Spares ab
  moved : b.Moved k f ab
  whole : ab.Orderly

variable {k f g : Nat} {a b ab ba : Graph}

theorem Stacked.nextId_whole
    (h : Stacked k f a b ab)
    (hSecond : b.nextId = k + g) :
    ab.nextId = k + f + g := by
  rw [h.moved.nextId, hSecond]
  omega

/- Nodes of the first block, of the second, and no others. -/
theorem node_exchange
    (hAB : Stacked k f a b ab)
    (hBA : Stacked k g b a ba)
    (hk : 1 ≤ k)
    (hRoom : ab.nextId ≤ 2 ^ 63)
    {i : Nat}
    (hi : k ≤ i) :
    ba.nodes.get? (exchange k f g i) =
      (ab.nodes.get? i).map
        (Node.renumber (exchange k f g)) := by
  have hNext := hAB.nextId
  have hNext' := hBA.nextId
  have hWhole := hAB.nextId_whole hNext'
  have hWhole' := hBA.nextId_whole hNext
  rcases exchange_cases k f g i with
    hFirst | ⟨j, hj, hSecond, rfl⟩ | hBeyond
  · have hLt : i < a.nextId := by omega
    rcases hAB.base.consecutive.exists_node_iff.mpr
      ⟨Nat.le_trans hk hi, hLt⟩ with ⟨m, hNode⟩
    rcases hBA.moved.new hi hNode with ⟨m', hNode', hMoved⟩
    have hNumbers :
        ∀ x < a.nextId, exchange k f g x = shift k g x := by
      intro x hx
      exact exchange_first (hNext ▸ hx)
    rw [exchange_first hFirst, shift_of_le hi, hNode',
      hAB.spares.nodes hLt, hNode]
    exact congrArg some
      (hMoved.renumber hNumbers (by omega)).symm
  · have hLt : j < b.nextId := by omega
    rcases hBA.base.consecutive.exists_node_iff.mpr
      ⟨Nat.le_trans hk hj, hLt⟩ with ⟨m, hNode⟩
    rcases hAB.moved.new hj hNode with ⟨m', hNode', hMoved⟩
    have hNumbers :
        ∀ x < b.nextId,
          exchange k f g (shift k f x) = x := by
      intro x hx
      exact exchange_shift (hNext' ▸ hx)
    rw [exchange_shift hSecond, hBA.spares.nodes hLt, hNode,
      shift_of_le hj, hNode']
    exact congrArg some
      (hMoved.renumber_back hNumbers (by omega)).symm
  · rw [exchange_of_le hBeyond,
      hBA.whole.consecutive.node_eq_none (by omega),
      hAB.whole.consecutive.node_eq_none (by omega)]
    rfl

theorem link_exchange
    (hAB : Stacked k f a b ab)
    (hBA : Stacked k g b a ba)
    (e : Endpoint) :
    ba.execTarget (e.renumber (exchange k f g)) =
      (ab.execTarget e).map (exchange k f g) := by
  have hNext := hAB.nextId
  have hNext' := hBA.nextId
  have hWhole := hAB.nextId_whole hNext'
  have hWhole' := hBA.nextId_whole hNext
  rcases e with ⟨i, index⟩
  rcases exchange_cases k f g i with
    hFirst | ⟨j, hj, hSecond, rfl⟩ | hBeyond
  · have hLt : i < a.nextId := by omega
    have hLinks := hBA.moved.links ⟨i, index⟩
    unfold Endpoint.renumber at hLinks ⊢
    rw [exchange_first hFirst, hLinks, hAB.spares.links hLt]
    apply hAB.base.map_execTarget
    intro t ht
    exact (exchange_first (hNext ▸ ht)).symm
  · have hLt : j < b.nextId := by omega
    have hLinks := hAB.moved.links ⟨j, index⟩
    unfold Endpoint.renumber at hLinks ⊢
    rw [exchange_shift hSecond, hLinks,
      hBA.spares.links hLt, Option.map_map,
      hBA.base.map_execTarget _ id, Option.map_id]
    · rfl
    · intro t ht
      exact exchange_shift (hNext' ▸ ht)
  · unfold Endpoint.renumber
    rw [exchange_of_le hBeyond,
      hBA.whole.execTarget_eq_none (by show _ ≤ i; omega),
      hAB.whole.execTarget_eq_none (by show _ ≤ i; omega)]
    rfl

/- The blocks in either order. -/
theorem renumbered_exchange
    (hAB : Stacked k f a b ab)
    (hBA : Stacked k g b a ba)
    (hName : ba.name = ab.name)
    (hk : 1 ≤ k)
    (hRoom : ab.nextId ≤ 2 ^ 63) :
    ab.Renumbered k (exchange k f g) ba where
  name := hName
  nextId := by
    rw [hAB.nextId_whole hBA.nextId,
      hBA.nextId_whole hAB.nextId]
    omega
  old i hi := by
    have hLt : i < a.nextId := by
      rw [hAB.nextId]
      omega
    rw [hBA.moved.old hi, hAB.spares.nodes hLt]
  new i hi := node_exchange hAB hBA hk hRoom hi
  links := link_exchange hAB hBA

end FlowGraph.Graph

------------------------------------------------------------
-- Functions
------------------------------------------------------------

namespace FlowGraph.Script

/- Names stand for what has a number from before `n`. -/
structure Names.Below
    (n : Nat)
    (names : Names) :
    Prop where
  values : ∀ p ∈ names.values, p.2.Below n
  locals :
    ∀ p ∈ names.locals,
      p.2.handle.Below n ∧ p.2.value.Below n
  nodes : ∀ p ∈ names.nodes, p.2 < n

instance
    (n : Nat)
    (names : Names) :
    Decidable (names.Below n) :=
  decidable_of_iff
    ((∀ p ∈ names.values, p.2.Below n) ∧
      (∀ p ∈ names.locals,
        p.2.handle.Below n ∧ p.2.value.Below n) ∧
      ∀ p ∈ names.nodes, p.2 < n)
    ⟨fun h => ⟨h.1, h.2.1, h.2.2⟩,
      fun h => ⟨h.values, h.locals, h.nodes⟩⟩

variable {V : String → Bool} {L : List String}
variable {k d : Nat} {s s' t : Session}
variable {Q : Unit → Session → Prop}
variable {E : Error → Session → Prop}
variable {bind : Binding} {event : String} {body : List Stmt}
variable {path : Path}

/- The same is found for a name in both lists. -/
theorem rel_lookup
    {α : Type}
    {Q : α → α → Prop}
    {kept kept' : List (String × α)}
    {x : String}
    (hSame : kept'.lookup x = kept.lookup x)
    (hKept : ∀ p ∈ kept, Q p.2 p.2) :
    Option.Rel Q (kept.lookup x) (kept'.lookup x) := by
  rw [hSame]
  cases hFound : kept.lookup x with
  | none => exact .none
  | some a => exact .some (hKept _ (mem_of_lookup hFound))

/- What was not kept under a listed name is as it was. -/
theorem Names.Below.moved
    {names names' : Names}
    (h : names.Below k)
    (hSame : names.Same L names') :
    names.Moved (fun x => !L.contains x) k d k names' := by
  have hUnlisted :
      ∀ x, (!L.contains x) = true → x ∉ L := by
    intro x hx
    simpa using hx
  refine ⟨?_, ?_, ?_⟩
  · intro x hx
    apply rel_lookup (hSame.values x (hUnlisted x hx))
    intro p hp
    exact Value.moved_of_below (h.values p hp) (Nat.le_refl k)
  · intro x hx
    apply rel_lookup (hSame.locals x (hUnlisted x hx))
    intro p hp
    exact ⟨Value.moved_of_below (h.locals p hp).1
      (Nat.le_refl k), Value.moved_of_below (h.locals p hp).2
        (Nat.le_refl k)⟩
  · intro x hx
    apply rel_lookup (hSame.nodes x (hUnlisted x hx))
    intro p hp
    exact ⟨h.nodes p hp, (shift_of_lt (h.nodes p hp)).symm⟩

/- A function is its body, run in a frame of its own. -/
theorem meets_function :
    (runStmt path (.function bind event body)).Meets s Q E ↔
      (entered (path ++ [.function])
        (runBlock (path ++ [.function]) 0 body)).Meets
          (s.opened event)
          (fun _ t =>
            Q () ((t.onFrame fun _ => s.frame).finish path
              bind (.node s.graph.nextId)))
          (fun e t =>
            E e ((t.onFrame fun _ => s.frame).record path
              (.failed e))) := by
  rw [runStmt, meets_journaled, Process.meets_bind,
    meets_inFunction]
  simp only [Process.meets_pure]

/-
  A function leaves the frame as it was, and all that was in
  the graph.
-/
theorem function_spares
    (hStructured :
      (Stmt.function bind event body).every Stmt.structured =
        true)
    (hOrderly : s.graph.Orderly)
    (hRun :
      runStmt path (.function bind event body) s =
        (.ok (), t)) :
    t.graph.Orderly ∧ s.graph.Spares t.graph ∧
      t.graph.name = s.graph.name ∧ t.frame = s.frame := by
  have hInner :=
    ((Stmt.every_iff _).mp hStructured).2 body
      (by simp [Stmt.bodies])
  have hTame :=
    (tame_runStmt.2 body (path ++ [.function]) 0
      hInner).entered (path ++ [.function])
  have hMeets :
      (runStmt path (.function bind event body)).Meets s
        (fun _ t => s.graph.nextId ≤ t.graph.nextId ∧
          (∀ {e}, e.node < s.graph.nextId →
            t.graph.execTarget e = s.graph.execTarget e) ∧
          t.frame = s.frame)
        (fun _ _ => True) := by
    rw [meets_function]
    refine (hTame (s.opened event)).mono ?_
      fun _ _ _ => trivial
    intro _ t hCame
    refine ⟨Nat.le_of_succ_le hCame.goesOn.nextId_le, ?_, rfl⟩
    -- The body goes on from the new entry, which is not old.
    intro e he
    apply hCame.goesOn.apart (Nat.lt_succ_of_lt he)
    intro hIn
    cases List.mem_singleton.mp hIn
    exact Nat.lt_irrefl _ he
  rcases hMeets.of_ok hRun with ⟨hLe, hLinks, hFrame⟩
  have hPasses :=
    (Session.passes_runStmt Graph.stepwise_orderly path
      (.function bind event body) s).ends hOrderly
  have hName :=
    (Session.passes_runStmt Graph.stepwise_name path
      (.function bind event body) s).ends
  rw [hRun] at hPasses hName
  exact ⟨hPasses.1, hPasses.2.spares hOrderly.consecutive
    hPasses.1.consecutive hLe hLinks, hName, hFrame⟩

/-
  A function that comes through does so from a graph with
  further nodes as well, whatever the frames are.
-/
theorem moved_function
    (hPortable :
      (Stmt.function bind event body).every
        (Stmt.portable k V L) = true)
    (hGraph : s.graph.Moved k d s'.graph)
    (hNames : s.names.Moved V k d s.graph.nextId s'.names)
    (hConfig : s'.builder.config = s.builder.config)
    (hRun :
      runStmt path (.function bind event body) s =
        (.ok (), t))
    (path' : Path) :
    ∃ t',
      runStmt path' (.function bind event body) s' =
          (.ok (), t') ∧
        t.graph.Moved k d t'.graph ∧
        t'.builder.config = s.builder.config ∧
        s.names.Same L t.names := by
  rcases (Stmt.every_iff _).mp hPortable with ⟨hSelf, hInner⟩
  have hBind : bind.within L = true :=
    (Bool.and_eq_true_iff.mp hSelf).2
  have hBody :=
    tracks_entered (tracks_runStmt.2 body
      (path ++ [.function]) (path' ++ [.function]) 0 0
        (hInner body (by simp [Stmt.bodies])))
          (path ++ [.function]) (path' ++ [.function])
            (s.opened event) (s'.opened event)
              (Nat.zero_le _)
                (moved_opened hGraph hNames hConfig event)
  have hMeets :
      (runStmt path (.function bind event body)).Meets s
        (fun _ t =>
          (runStmt path' (.function bind event body)).Meets s'
            (fun _ t' => t.graph.Moved k d t'.graph ∧
              t'.builder.config = s.builder.config ∧
              s.names.Same L t.names)
            fun _ _ => False)
        (fun _ _ => True) := by
    rw [meets_function]
    refine hBody.mono ?_ fun _ _ h => h
    intro _ t hRun'
    rw [meets_function]
    refine hRun'.mono ?_ fun _ _ h => h
    rintro _ t' ⟨hOnward, -, hMoved⟩
    exact ⟨hMoved.builder.graph,
      hMoved.builder.config.trans hOnward.1.config,
      hOnward.2.trans (Names.same_keep hBind t.names
        (.node s.graph.nextId))⟩
  rcases (hMeets.of_ok hRun).comes_through with
    ⟨⟨⟩, t', hRun', hAll⟩
  exact ⟨t', hRun', hAll⟩

section Pairs

variable {s₁ s₂ : Session} {first second : List String}
variable {bind' : Binding} {event' : String}
variable {body' : List Stmt} {path' : Path}

/- The second function is put after the first one. -/
theorem stacked_functions
    (hOrderly : s.graph.Orderly)
    (hBelow : s.names.Below s.graph.nextId)
    (hFirst :
      (Stmt.function bind event body).every
        (Stmt.portable s.graph.nextId
          (fun x => !second.contains x) first) = true)
    (hSecond :
      (Stmt.function bind' event' body').every
        (Stmt.portable s.graph.nextId
          (fun x => !first.contains x) second) = true)
    (hRun₁ :
      runStmt path (.function bind event body) s =
        (.ok (), s₁))
    (hRun₂ :
      runStmt path' (.function bind' event' body') s =
        (.ok (), s₂))
    (later : Path) :
    ∃ s₁₂,
      runStmt later (.function bind' event' body') s₁ =
          (.ok (), s₁₂) ∧
        s₁₂.frame = s.frame ∧
        s₁₂.builder.config = s.builder.config ∧
        s₁₂.graph.name = s.graph.name ∧
        Graph.Stacked s.graph.nextId
          (s₁.graph.nextId - s.graph.nextId) s₁.graph s₂.graph
          s₁₂.graph := by
  rcases function_spares (structured_of_portable hFirst)
      hOrderly hRun₁ with
    ⟨hOrderly₁, hSpares₁, hName₁, hFrame₁⟩
  -- The first function, followed by itself at a distance of
  -- zero, keeps no other names than its own.
  have hSelf :=
    (Graph.Spares.refl s.graph).moved hOrderly hOrderly
  rcases moved_function hFirst hSelf
      (hBelow.moved (.refl s.names)) rfl hRun₁ path with
    ⟨_, hAgain, -, hConfig₁, hSame₁⟩
  cases hRun₁.symm.trans hAgain
  rcases moved_function hSecond
      (hSpares₁.moved hOrderly hOrderly₁) (hBelow.moved hSame₁)
        hConfig₁ hRun₂ later with
    ⟨s₁₂, hRun, hMoved, hConfig, -⟩
  rcases function_spares (structured_of_portable hSecond)
      hOrderly₁ hRun with
    ⟨hOrderly₁₂, hSpares₁₂, hName₁₂, hFrame₁₂⟩
  refine ⟨s₁₂, hRun, hFrame₁₂.trans hFrame₁, hConfig,
    hName₁₂.trans hName₁, ?_⟩
  exact ⟨(Nat.add_sub_cancel' hSpares₁.le).symm, hOrderly₁,
    hSpares₁₂, hMoved, hOrderly₁₂⟩

/-
  The order of functions does not matter.  From a session of
  any script, with names for nodes that are there, let two
  functions come through, neither of which uses what the
  other one keeps.  Then they come through one after the
  other, in either order, and leave the frame as it was.  As
  long as all numbers fit into a word of 32 bits, the graphs
  differ in the numbers of the new nodes alone, in pins, in
  both ends of links and in stopped loops alike.
-/
theorem functions_commute
    (hOrderly : s.graph.Orderly)
    (hBelow : s.names.Below s.graph.nextId)
    (hFirst :
      (Stmt.function bind event body).every
        (Stmt.portable s.graph.nextId
          (fun x => !second.contains x) first) = true)
    (hSecond :
      (Stmt.function bind' event' body').every
        (Stmt.portable s.graph.nextId
          (fun x => !first.contains x) second) = true)
    (hRun₁ :
      runStmt path (.function bind event body) s =
        (.ok (), s₁))
    (hRun₂ :
      runStmt path' (.function bind' event' body') s =
        (.ok (), s₂))
    (later later' : Path) :
    ∃ s₁₂ s₂₁,
      runStmt later (.function bind' event' body') s₁ =
          (.ok (), s₁₂) ∧
        runStmt later' (.function bind event body) s₂ =
          (.ok (), s₂₁) ∧
        s₁₂.frame = s.frame ∧
        s₂₁.frame = s.frame ∧
        s₁₂.builder.config = s.builder.config ∧
        s₂₁.builder.config = s.builder.config ∧
        (s₁₂.graph.nodes.size < 2 ^ 32 - 1 →
          ∃ π : Equiv.Perm Nat,
            (∀ i < s.graph.nextId, π i = i) ∧
              s₁₂.graph.Renumbered s.graph.nextId π
                s₂₁.graph) := by
  rcases stacked_functions hOrderly hBelow hFirst hSecond
      hRun₁ hRun₂ later with
    ⟨s₁₂, hRun, hFrame, hConfig, hName, hStacked⟩
  rcases stacked_functions hOrderly hBelow hSecond hFirst
      hRun₂ hRun₁ later' with
    ⟨s₂₁, hRun', hFrame', hConfig', hName', hStacked'⟩
  refine ⟨s₁₂, s₂₁, hRun, hRun', hFrame, hFrame', hConfig,
    hConfig', ?_⟩
  intro hSize
  have hBase := hOrderly.consecutive.nextId
  have hRoom := hStacked.whole.consecutive.nextId
  have hRenumbered :=
    Graph.renumbered_exchange hStacked hStacked'
      (hName'.trans hName.symm) (by omega) (by omega)
  exact ⟨_, fun i hi => exchange_of_lt hi, hRenumbered⟩

end Pairs

/- What is left by a run that comes through. -/
theorem eq_of_fst
    {m : Run Unit}
    (h : (m s).1 = .ok ()) :
    m s = (.ok (), (m s).2) :=
  Prod.ext h rfl

/- The flow is in the middle of a function. -/
def halfway : Session :=
  run "demo" .default
    [.action .none (.beginFunction "start"),
      .action ⟨some "count", none⟩
        (.declare (.value (.int 3))),
      .action .none (.print (.literal (.str "before")))]

/- The body stops a loop and sets a variable. -/
def stopping : List Stmt :=
  [.forRange ⟨some "round", some "rounds"⟩
    (.literal (.int 0)) (.operand (.ref "count"))
    [.ifThen .none (.value (.bool true))
      [.action .none (.breakLoop [.name "rounds"])],
      .action .none (.set "count" (.operand (.ref "round")))],
    .action .none (.print (.literal (.str "stopped")))]

/- The body stops a loop and returns, as the variable says. -/
def returning : List Stmt :=
  [.forRange .none (.literal (.int 0)) (.literal (.int 9))
    [.switch .none (.ref "count")
      [(.int 1, .body [.action .none .returnNow]),
        (.int 2, .body [.action .none (.breakLoop [])]),
        (.int 3, .alias (.label (.int 1)))]
      .empty],
    .action .none (.print (.literal (.str "done")))]

/-
  A function that stops a loop of its own, and one that may
  return, in the middle of a third.
-/
theorem stopping_and_returning_commute :
    ∃ s₁ s₂ s₁₂ s₂₁ : Session,
      runStmt [] (.function .none "stops" stopping) halfway =
          (.ok (), s₁) ∧
        runStmt [] (.function .none "returns" returning)
            halfway = (.ok (), s₂) ∧
        runStmt [] (.function .none "returns" returning) s₁ =
          (.ok (), s₁₂) ∧
        runStmt [] (.function .none "stops" stopping) s₂ =
          (.ok (), s₂₁) ∧
        s₁₂.frame = halfway.frame ∧
        s₂₁.frame = halfway.frame ∧
        ∃ π : Equiv.Perm Nat,
          (∀ i < halfway.graph.nextId, π i = i) ∧
            s₁₂.graph.Renumbered halfway.graph.nextId π
              s₂₁.graph := by
  have hOrderly : halfway.graph.Orderly :=
    orderly_run "demo" .default _
  have hStops :
      (Stmt.function .none "stops" stopping).every
        (Stmt.portable halfway.graph.nextId
          (fun x => !(List.contains [] x))
          ["round", "rounds"]) =
            true := by
    decide +kernel
  have hReturns :
      (Stmt.function .none "returns" returning).every
        (Stmt.portable halfway.graph.nextId
          (fun x => !(["round", "rounds"].contains x)) []) =
            true := by
    decide +kernel
  have hRun₁ :
      runStmt [] (.function .none "stops" stopping) halfway =
        (.ok (), (runStmt [] (.function .none "stops" stopping)
          halfway).2) :=
    eq_of_fst (by decide +kernel)
  have hRun₂ :
      runStmt [] (.function .none "returns" returning)
          halfway =
        (.ok (), (runStmt []
          (.function .none "returns" returning) halfway).2) :=
    eq_of_fst (by decide +kernel)
  have hSize :
      (runStmt [] (.function .none "returns" returning)
        (runStmt [] (.function .none "stops" stopping)
          halfway).2).2.graph.nodes.size < 2 ^ 32 - 1 := by
    decide +kernel
  rcases functions_commute hOrderly (by decide +kernel)
      hStops hReturns hRun₁ hRun₂ [] [] with
    ⟨s₁₂, s₂₁, hRun, hRun', hFrame, hFrame', -, -, hGraphs⟩
  rw [hRun] at hSize
  exact ⟨_, _, s₁₂, s₂₁, hRun₁, hRun₂, hRun, hRun', hFrame,
    hFrame', hGraphs hSize⟩

end FlowGraph.Script
