import FlowGraph.Proofs.Appending
import FlowGraph.Proofs.Values
import Mathlib.Data.List.Forall2

/-
  Values, nodes and graphs with other numbers.

  A graph that holds a block of further nodes has given out
  higher numbers.  What is made in it later is what would
  have been made without the block, with the numbers put up.

  Key definitions include:
    * `FlowGraph.Value.Moved`
    * `FlowGraph.Carries`
    * `FlowGraph.Node.Moved`
    * `FlowGraph.Graph.Moved`

  Key theorems include:
    * `FlowGraph.carries_operands`
    * `FlowGraph.Graph.Moved.add`
    * `FlowGraph.Graph.Moved.link`
-/

------------------------------------------------------------
-- Numbers That Are Put Up
------------------------------------------------------------

namespace FlowGraph

/- Numbers from `k` on are put up by `d`. -/
def shift
    (k d i : Nat) :
    Nat :=
  if i < k then i else i + d

variable {k d i j : Nat}

theorem shift_of_lt
    (h : i < k) :
    shift k d i = i :=
  if_pos h

theorem shift_of_le
    (h : k ≤ i) :
    shift k d i = i + d :=
  if_neg (Nat.not_lt.mpr h)

@[simp] theorem shift_inj :
    shift k d i = shift k d j ↔ i = j := by
  unfold shift
  split <;> split <;> omega

/- An exec output of a node with another number. -/
def Endpoint.renumber
    (π : Nat → Nat)
    (e : Endpoint) :
    Endpoint :=
  ⟨π e.node, e.index⟩

@[simp] theorem Endpoint.renumber_shift_inj
    {e e' : Endpoint} :
    e.renumber (shift k d) = e'.renumber (shift k d) ↔
      e = e' := by
  cases e
  cases e'
  simp [Endpoint.renumber]

end FlowGraph

------------------------------------------------------------
-- Values
------------------------------------------------------------

namespace FlowGraph

/- A pin refers to its node by another number. -/
def Value.renumber
    (π : Nat → Nat)
    (v : Value) :
    Value :=
  match v.source with
  | .literal _ => v
  | .pin p => .pin v.type ⟨π p.node, p.slot, p.index⟩

/- A pin is one of a node with a lower number. -/
def Value.Below
    (n : Nat)
    (v : Value) :
    Prop :=
  ∀ p ∈ v.pin?, p.node < n

instance
    (n : Nat)
    (v : Value) :
    Decidable (v.Below n) :=
  inferInstanceAs (Decidable (∀ p ∈ v.pin?, p.node < n))

/-
  The second value is the first with its number put up.  The
  number was given out before `n`.
-/
structure Value.Moved
    (k d n : Nat)
    (v v' : Value) :
    Prop where
  below : v.Below n
  eq : v' = v.renumber (shift k d)

/- The same for an argument. -/
inductive Input.Moved
    (k d n : Nat) :
    Input → Input → Prop
  | literal (l : Literal) :
      Moved k d n (.literal l) (.literal l)
  | value
      {v v' : Value}
      (h : v.Moved k d n v') :
      Moved k d n (.value v) (.value v')

/- The same for a variable. -/
structure Variable.Moved
    (k d n : Nat)
    (v v' : Variable) :
    Prop where
  handle : v.handle.Moved k d n v'.handle
  value : v.value.Moved k d n v'.value

variable {k d n n' : Nat} {v v' w w' : Value}
variable {g : Graph}

namespace Value

theorem Moved.mono
    (h : v.Moved k d n v')
    (hLe : n ≤ n') :
    v.Moved k d n' v' :=
  ⟨fun p hp => Nat.lt_of_lt_of_le (h.below p hp) hLe, h.eq⟩

theorem Moved.type
    (h : v.Moved k d n v') :
    v'.type = v.type := by
  rw [h.eq]
  unfold renumber
  split <;> rfl

theorem Moved.literal?
    (h : v.Moved k d n v') :
    v'.literal? = v.literal? := by
  rw [h.eq]
  rcases v with ⟨t, l | p⟩ <;> rfl

/- A literal stays as it is. -/
theorem moved_of_usable
    (h : v.Usable g fun _ => True) :
    v.Moved k d n v := by
  rcases v with ⟨t, l | p⟩
  · refine ⟨?_, rfl⟩
    intro p hp
    cases hp
  · exact absurd trivial (h.pin p rfl).1

theorem moved_pin
    {id : Nat}
    (hId : id < n)
    (t : ValueType)
    (slot : String)
    (index : Nat) :
    (pin t ⟨id, slot, index⟩).Moved k d n
      (pin t ⟨shift k d id, slot, index⟩) := by
  refine ⟨?_, rfl⟩
  intro p hp
  cases hp
  exact hId

/- A value from before stays as it is. -/
theorem moved_of_below
    (h : v.Below k)
    (hLe : k ≤ n) :
    v.Moved k d n v := by
  refine ⟨fun p hp => Nat.lt_of_lt_of_le (h p hp) hLe, ?_⟩
  rcases v with ⟨t, l | p⟩
  · rfl
  · show _ = pin t ⟨shift k d p.node, p.slot, p.index⟩
    rw [shift_of_lt (h p rfl)]
    rfl

end Value

theorem Input.Moved.mono
    {input input' : Input}
    (h : input.Moved k d n input')
    (hLe : n ≤ n') :
    input.Moved k d n' input' := by
  cases h with
  | literal l => exact .literal l
  | value h => exact .value (h.mono hLe)

theorem Variable.Moved.mono
    {v v' : Variable}
    (h : v.Moved k d n v')
    (hLe : n ≤ n') :
    v.Moved k d n' v' :=
  ⟨h.handle.mono hLe, h.value.mono hLe⟩

end FlowGraph

------------------------------------------------------------
-- Checks
------------------------------------------------------------

namespace FlowGraph

variable {α β α' β' : Type}

/- If the first yields something, so does the second. -/
def Carries
    (Q : α → α' → Prop)
    (r : Except Error α)
    (r' : Except Error α') :
    Prop :=
  ∀ a, r = .ok a → ∃ a', r' = .ok a' ∧ Q a a'

namespace Carries

theorem ok
    {Q : α → α' → Prop}
    {a : α}
    {a' : α'}
    (h : Q a a') :
    Carries Q (.ok a) (.ok a') := by
  intro b hb
  cases hb
  exact ⟨a', rfl, h⟩

theorem error
    {Q : α → α' → Prop}
    {e : Error}
    {r : Except Error α'} :
    Carries Q (.error e) r := by
  intro a ha
  cases ha

theorem bind
    {Q : α → α' → Prop}
    {P : β → β' → Prop}
    {r : Except Error α}
    {r' : Except Error α'}
    {f : α → Except Error β}
    {f' : α' → Except Error β'}
    (hr : Carries Q r r')
    (hf : ∀ a a', Q a a' → Carries P (f a) (f' a')) :
    Carries P (r >>= f) (r' >>= f') := by
  intro b hb
  rcases bind_eq_ok.mp hb with ⟨a, ha, hb⟩
  rcases hr a ha with ⟨a', ha', hQ⟩
  rcases hf a a' hQ b hb with ⟨b', hb', hP⟩
  exact ⟨b', bind_eq_ok.mpr ⟨a', ha', hb'⟩, hP⟩

/- A check that does not look at numbers. -/
theorem same
    (r : Except Error α) :
    Carries Eq r r :=
  fun a ha => ⟨a, ha, rfl⟩

theorem mapM
    {P : α → α' → Prop}
    {Q : β → β' → Prop}
    {f : α → Except Error β}
    {f' : α' → Except Error β'}
    (hf : ∀ a a', P a a' → Carries Q (f a) (f' a'))
    {items : List α}
    {items' : List α'}
    (h : List.Forall₂ P items items') :
    Carries (List.Forall₂ Q) (items.mapM f)
      (items'.mapM f') := by
  induction h with
  | nil => exact ok .nil
  | cons hHead _ ih =>
      rw [List.mapM_cons, List.mapM_cons]
      refine (hf _ _ hHead).bind fun b b' hb => ?_
      exact ih.bind fun bs bs' hbs => ok (.cons hb hbs)

/- One list of items, looked at in two ways. -/
theorem mapM_same
    {Q : β → β' → Prop}
    {f : α → Except Error β}
    {f' : α → Except Error β'}
    {items : List α}
    (hf : ∀ a ∈ items, Carries Q (f a) (f' a)) :
    Carries (List.Forall₂ Q) (items.mapM f)
      (items.mapM f') := by
  refine mapM (P := fun a a' => a' = a ∧ a ∈ items) ?_ ?_
  · rintro a _ ⟨rfl, ha⟩
    exact hf _ ha
  · exact List.forall₂_same.mpr fun a ha => ⟨rfl, ha⟩

end Carries

variable {k d n : Nat} {v v' w w' : Value}

namespace Value.Moved

theorem expect
    (h : v.Moved k d n v')
    (t : ValueType) :
    Carries (Value.Moved k d n) (v.expect t)
      (v'.expect t) := by
  unfold Value.expect
  rw [h.type]
  split
  · exact .ok h
  · exact .error

theorem expectNumber
    (h : v.Moved k d n v') :
    Carries (Value.Moved k d n) v.expectNumber
      v'.expectNumber := by
  unfold Value.expectNumber
  rw [h.type]
  split
  · exact .ok h
  · exact .error

theorem widen
    (hv : v.Moved k d n v')
    (hw : w.Moved k d n w') :
    Carries (Value.Moved k d n) (v.widen w)
      (v'.widen w') := by
  unfold Value.widen
  rw [hv.literal?, hv.type, hw.type]
  split
  · split
    · intro u hu
      exact ⟨u, hu, moved_of_usable (g := .empty "")
        (usable_literal hu)⟩
    · exact .ok hv
  · exact .ok hv

end Value.Moved

theorem Input.Moved.read
    {input input' : Input}
    (h : input.Moved k d n input')
    (t : ValueType) :
    Carries (Value.Moved k d n) (input.read t)
      (input'.read t) := by
  cases h with
  | literal l =>
      intro v hv
      exact ⟨v, hv, Value.moved_of_usable (g := .empty "")
        (usable_literal hv)⟩
  | value h => exact h.expect t

/- Operands are checked by their type. -/
theorem Value.Moved.checkBinary
    (op : BinaryOp)
    (h : v.Moved k d n v') :
    Carries Eq (op.checkOperand v) (op.checkOperand v') := by
  unfold BinaryOp.checkOperand
  split
  · exact h.expectNumber.bind fun _ _ _ => .ok rfl
  · split
    · exact (h.expect _).bind fun _ _ _ => .ok rfl
    · exact .ok rfl

theorem Value.Moved.checkUnary
    (op : UnaryOp)
    (h : v.Moved k d n v') :
    Carries Eq (op.checkOperand v) (op.checkOperand v') := by
  cases op with
  | neg | abs =>
      exact h.expectNumber.bind fun _ _ _ => .ok rfl
  | not => exact (h.expect _).bind fun _ _ _ => .ok rfl

theorem carries_operands
    (op : BinaryOp)
    (hv : v.Moved k d n v')
    (hw : w.Moved k d n w') :
    Carries
      (fun p p' => p.1.Moved k d n p'.1 ∧ p.2.Moved k d n p'.2)
      (op.operands v w) (op.operands v' w') := by
  refine (hv.widen hw).bind fun a a' ha => ?_
  refine (hw.widen ha).bind fun b b' hb => ?_
  rw [ha.type]
  refine (hb.expect _).bind fun _ _ _ => ?_
  exact (ha.checkBinary op).bind fun _ _ _ => .ok ⟨ha, hb⟩

theorem carries_readItems
    {items items' : List Input}
    (h : List.Forall₂ (Input.Moved k d n) items items')
    (t : ValueType) :
    Carries (List.Forall₂ (Value.Moved k d n))
      (Builder.readItems t items)
      (Builder.readItems t items') :=
  .mapM (fun _ _ hItem => hItem.read t) h

theorem carries_readPairs
    {pairs pairs' : List (Input × Input)}
    (h :
      List.Forall₂
        (fun p p' => p.1.Moved k d n p'.1 ∧
          p.2.Moved k d n p'.2) pairs pairs')
    (key value : ValueType) :
    Carries (List.Forall₂ (Value.Moved k d n))
      (Builder.readPairs key value pairs)
      (Builder.readPairs key value pairs') := by
  refine (Carries.mapM (Q := List.Forall₂ (Value.Moved k d n))
    ?_ h).bind ?_
  · intro p p' hp
    refine (hp.1.read key).bind fun a a' ha => ?_
    exact (hp.2.read value).bind fun b b' hb =>
      .ok (.cons ha (.cons hb .nil))
  · intro rows rows' hRows
    exact .ok (List.rel_flatten hRows)

theorem Value.Moved.foldBinary
    (enabled : Bool)
    (op : BinaryOp)
    (hv : v.Moved k d n v')
    (hw : w.Moved k d n w') :
    Folding.binary enabled op v' w' =
      Folding.binary enabled op v w := by
  unfold Folding.binary
  rw [hv.type, hw.type, hv.literal?, hw.literal?]

theorem Value.Moved.foldUnary
    (enabled : Bool)
    (op : UnaryOp)
    (h : v.Moved k d n v') :
    Folding.unary enabled op v' =
      Folding.unary enabled op v := by
  unfold Folding.unary
  rw [h.literal?]

end FlowGraph
------------------------------------------------------------
-- Nodes
------------------------------------------------------------

namespace FlowGraph

/-
  The second node is the first with its numbers put up: those
  of pins among its arguments, or those of the loops that it
  stops.
-/
inductive Node.Moved
    (k d n : Nat) :
    Node → Node → Prop
  | plain
      {m : Node}
      {args : List Value}
      (hType : m.nodeType ≠ "break_loop")
      (hArgs : List.Forall₂ (Value.Moved k d n) m.args args) :
      Moved k d n m { m with args := args }
  | stop
      {ids : List Nat}
      (hIds : ∀ id ∈ ids, id < n) :
      Moved k d n (Builder.breakNode ids)
        (Builder.breakNode (ids.map (shift k d)))

variable {k d n n' : Nat} {m m' : Node}

namespace Node.Moved

theorem mono
    (h : m.Moved k d n m')
    (hLe : n ≤ n') :
    m.Moved k d n' m' := by
  cases h with
  | plain hType hArgs =>
      exact .plain hType
        (hArgs.imp fun _ _ hArg => hArg.mono hLe)
  | stop hIds =>
      exact .stop fun id hId =>
        Nat.lt_of_lt_of_le (hIds id hId) hLe

theorem nodeClass
    (h : m.Moved k d n m') :
    m'.nodeClass = m.nodeClass := by
  cases h <;> rfl

theorem execOutputs
    (h : m.Moved k d n m') :
    m'.execOutputs = m.execOutputs := by
  cases h <;> rfl

theorem outputs
    (h : m.Moved k d n m') :
    m'.outputs = m.outputs := by
  cases h <;> rfl

end Node.Moved

/- A node of a built-in type with other numbers. -/
theorem Builtin.moved_node
    {kind : Builtin}
    {args args' : List Value}
    (hKind : kind ≠ .breakLoop)
    (hArgs : List.Forall₂ (Value.Moved k d n) args args')
    (dynamic : Option ValueType) :
    (kind.node args dynamic).Moved k d n
      (kind.node args' dynamic) := by
  have hName : kind.name ≠ Builtin.breakLoop.name := by
    intro hEq
    have hSome := Builtin.ofName?_name kind
    rw [hEq, Builtin.ofName?_name] at hSome
    exact hKind (Option.some.inj hSome).symm
  have hNode :
      kind.node args' dynamic =
        { kind.node args dynamic with args := args' } := by
    simp [Builtin.node, Builtin.execOutputCount,
      hArgs.length_eq]
  rw [hNode]
  exact .plain hName hArgs

end FlowGraph

------------------------------------------------------------
-- Graphs
------------------------------------------------------------

namespace FlowGraph

/-
  The second graph holds further nodes, with numbers from `k`
  on.  What the first graph has got since then has its
  numbers put up by their count.
-/
structure Graph.Moved
    (k d : Nat)
    (g g' : Graph) :
    Prop where
  base : k ≤ g.nextId
  nextId : g'.nextId = g.nextId + d
  used : ∀ {i m}, g.nodes.get? i = some m → i < g.nextId
  old : ∀ {i}, i < k → g'.nodes.get? i = g.nodes.get? i
  new :
    ∀ {i m}, k ≤ i → g.nodes.get? i = some m →
      ∃ m', g'.nodes.get? (i + d) = some m' ∧
        m.Moved k d g.nextId m'
  links :
    ∀ e, g'.execTarget (e.renumber (shift k d)) =
      (g.execTarget e).map (shift k d)

namespace Graph.Moved

variable {k d : Nat} {g g' : Graph} {m m' : Node}

/- The number that is given out next. -/
theorem shift_nextId
    (h : g.Moved k d g') :
    g'.nextId = shift k d g.nextId := by
  rw [h.nextId, shift_of_le h.base]

/- A node is found under its number, if it is put up. -/
theorem node
    (h : g.Moved k d g')
    {i : Nat}
    (hNode : g.nodes.get? i = some m) :
    ∃ m', g'.nodes.get? (shift k d i) = some m' ∧
      m'.nodeClass = m.nodeClass ∧
        m'.execOutputs = m.execOutputs ∧
          m'.outputs = m.outputs := by
  by_cases hOld : i < k
  · rw [shift_of_lt hOld]
    exact ⟨m, (h.old hOld).trans hNode, rfl, rfl, rfl⟩
  · have hLe := Nat.not_lt.mp hOld
    rw [shift_of_le hLe]
    rcases h.new hLe hNode with ⟨m', hNode', hMoved⟩
    exact ⟨m', hNode', hMoved.nodeClass, hMoved.execOutputs,
      hMoved.outputs⟩

theorem add
    (h : g.Moved k d g')
    (hMoved : m.Moved k d g.nextId m') :
    (g.add m).2.Moved k d (g'.add m').2 := by
  have hBase := h.base
  have hNext := h.nextId
  refine ⟨Nat.le_succ_of_le hBase, ?_, ?_, ?_, ?_, h.links⟩
  · show g'.nextId + 1 = g.nextId + 1 + d
    omega
  · intro i n hNode
    show i < g.nextId + 1
    by_cases hEq : i = g.nextId
    · omega
    · rw [show (g.add m).2.nodes.get? i = g.nodes.get? i from
        Table.get?_insert_of_ne _ _ hEq] at hNode
      have hLt := h.used hNode
      omega
  · intro i hLt
    have hNe : i ≠ g.nextId := by omega
    have hNe' : i ≠ g'.nextId := by omega
    show (g'.nodes.insert _ _).get? i =
      (g.nodes.insert _ _).get? i
    rw [Table.get?_insert_of_ne _ _ hNe,
      Table.get?_insert_of_ne _ _ hNe']
    exact h.old hLt
  · intro i n hLe hNode
    show ∃ n', (g'.nodes.insert _ _).get? (i + d) = some n' ∧
      n.Moved k d (g.nextId + 1) n'
    by_cases hEq : i = g.nextId
    · subst hEq
      rw [show (g.add m).2.nodes.get? g.nextId = some m from
        Table.get?_insert_self _ _ _] at hNode
      cases hNode
      rw [← hNext, Table.get?_insert_self]
      exact ⟨m', rfl, hMoved.mono (Nat.le_succ _)⟩
    · have hNe : i + d ≠ g'.nextId := by omega
      rw [show (g.add m).2.nodes.get? i = g.nodes.get? i from
        Table.get?_insert_of_ne _ _ hEq] at hNode
      rw [Table.get?_insert_of_ne _ _ hNe]
      rcases h.new hLe hNode with ⟨n', hNode', hMoved'⟩
      exact ⟨n', hNode', hMoved'.mono (Nat.le_succ _)⟩

/- An output of a node is looked up. -/
theorem pinValue
    (h : g.Moved k d g')
    (id : Nat)
    (slot : String)
    (index : Nat) :
    Carries (Value.Moved k d g.nextId)
      (g.pinValue id slot index)
      (g'.pinValue (shift k d id) slot index) := by
  unfold Graph.pinValue Graph.node
  cases hNode : g.nodes.get? id with
  | none => exact .error
  | some m =>
      rcases h.node hNode with ⟨m', hNode', -, -, hOutputs⟩
      rw [hNode']
      refine Carries.bind (Q := fun a a' => a = m ∧ a' = m')
        (.ok ⟨rfl, rfl⟩) ?_
      rintro _ _ ⟨rfl, rfl⟩
      unfold Node.output?
      rw [hOutputs]
      split
      · exact .ok (Value.moved_pin (h.used hNode) _ _ _)
      · exact .error

theorem isExec
    (h : g.Moved k d g')
    {t : Nat}
    (hExec : g.IsExec t) :
    g'.IsExec (shift k d t) := by
  rcases hExec with ⟨m, hNode, hClass⟩
  rcases h.node hNode with ⟨m', hNode', hClass', -, -⟩
  exact ⟨m', hNode', hClass'.trans hClass⟩

theorem isOpen
    (h : g.Moved k d g')
    {e : Endpoint}
    (hOpen : g.IsOpen e) :
    g'.IsOpen (e.renumber (shift k d)) := by
  rcases hOpen with ⟨⟨m, hNode, hClass, hIndex⟩, hTarget⟩
  rcases h.node hNode with
    ⟨m', hNode', hClass', hOutputs, -⟩
  refine ⟨⟨m', hNode', hClass'.trans hClass, ?_⟩, ?_⟩
  · rw [hOutputs]
    exact hIndex
  · rw [h.links, hTarget]
    rfl

theorem link
    (h : g.Moved k d g')
    (e : Endpoint)
    (t : Nat) :
    (g.link e t).Moved k d
      (g'.link (e.renumber (shift k d)) (shift k d t)) := by
  refine ⟨h.base, h.nextId, h.used, h.old, h.new, ?_⟩
  intro e'
  by_cases hEq : e' = e
  · subst hEq
    rw [Graph.execTarget_link_self,
      Graph.execTarget_link_self]
    rfl
  · have hNe :
        e'.renumber (shift k d) ≠ e.renumber (shift k d) :=
      fun h => hEq (Endpoint.renumber_shift_inj.mp h)
    rw [Graph.execTarget_link_of_ne hEq,
      Graph.execTarget_link_of_ne hNe]
    exact h.links e'

end Graph.Moved

end FlowGraph
