import FlowGraph.Builder.Operations
import FlowGraph.Proofs.Refusal

/-
  Values that stand for something.

  What a type accepts it brings into one form, and a literal
  in that form is accepted as it is.  A literal is usable if
  it is of its own type, and a pin if it is an output of its
  type of a node that is there and not hidden.  Whatever is
  computed from usable values is usable again.

  Key definitions include:
    * `FlowGraph.Literal.OfScalar`
    * `FlowGraph.Literal.OfType`
    * `FlowGraph.Value.Usable`
    * `FlowGraph.Input.Usable`

  Key theorems include:
    * `FlowGraph.Literal.ofType_of_conform`
    * `FlowGraph.Literal.conform_eq_self_iff`
    * `FlowGraph.Literal.conform_idem`
    * `FlowGraph.usable_read`
    * `FlowGraph.usable_operands`
    * `FlowGraph.usable_binary`
-/

------------------------------------------------------------
-- Literals Of A Type
------------------------------------------------------------

namespace FlowGraph.Literal

/-
  A literal has the form that a scalar type asks for.  No
  literal has a type whose values come from pins only.
-/
inductive OfScalar : Scalar → Literal → Prop where
  | bool (b : Bool) : OfScalar .bool (.bool b)
  | int (i : Int64) : OfScalar .int (.int i)
  | float (x : Float) : OfScalar .float (.float x)
  | str (s : String) : OfScalar .str (.str s)
  | enumeration (s : String) : OfScalar .enumeration (.str s)
  | vec3 (x y z : Float) : OfScalar .vec3 (.vec3 x y z)
  | guid {i : Int64} : 0 ≤ i → OfScalar .guid (.int i)
  | faction {i : Int64} : 0 ≤ i → OfScalar .faction (.int i)
  | configId {i : Int64} : 0 ≤ i → OfScalar .configId (.int i)
  | prefabId {i : Int64} : 0 ≤ i → OfScalar .prefabId (.int i)

/-
  A literal has the form that a type asks for.  A list has
  one form for all of its items.
-/
inductive OfType : ValueType → Literal → Prop where
  | scalar
      {s : Scalar}
      {l : Literal} :
      l.OfScalar s → OfType (.scalar s) l
  | list
      {s : Scalar}
      {items : List Literal} :
      (∀ l ∈ items, l.OfScalar s) →
        OfType (.list s) (.list items)

variable {s : Scalar} {t : ValueType} {l l' : Literal}

/- A literal in the form of a scalar type is accepted. -/
theorem OfScalar.conform
    (h : l.OfScalar s) :
    conformScalar s l = .ok l := by
  have hIdentifier :
      ∀ {s : Scalar} {i : Int64},
        0 ≤ i →
          (if i < 0 then
              .error (refuse s (.int i) (some .nonNegative))
            else
              .ok (.int i)) =
            (.ok (.int i) : Except Error Literal) := by
    intro s i hSign
    exact if_neg (Int64.not_lt.mpr hSign)
  cases h with
  | bool | int | float | str | enumeration | vec3 => rfl
  | guid hSign | faction hSign | configId hSign
  | prefabId hSign => exact hIdentifier hSign

/- A number that is not negative identifies something. -/
theorem ofScalar_identifier
    {i : Int64}
    (h : s.isIdentifier = true)
    (hSign : 0 ≤ i) :
    (Literal.int i).OfScalar s := by
  cases s with
  | guid => exact .guid hSign
  | faction => exact .faction hSign
  | configId => exact .configId hSign
  | prefabId => exact .prefabId hSign
  | _ => cases h

/- What a scalar type accepts has its form. -/
theorem ofScalar_of_conform
    (h : conformScalar s l = .ok l') :
    l'.OfScalar s := by
  unfold conformScalar at h
  split at h
  · unfold conformInline at h
    split at h
    case h_1 =>
      cases h
      exact .bool _
    case h_2 =>
      cases h
      exact .int _
    case h_4 | h_5 =>
      cases h
      exact .float _
    case h_6 =>
      cases h
      exact .str _
    case h_7 =>
      cases h
      exact .enumeration _
    case h_8 =>
      cases h
      exact .vec3 _ _ _
    case h_9 =>
      rcases bind_eq_ok.mp h with ⟨x, _, h⟩
      rcases bind_eq_ok.mp h with ⟨y, _, h⟩
      rcases bind_eq_ok.mp h with ⟨z, _, h⟩
      cases h
      exact .vec3 x y z
    case h_11 =>
      -- Identifiers are what is left of the whole numbers.
      split at h
      · rename_i hIdentifier
        split at h
        · cases h
        · rename_i hSign
          cases h
          exact ofScalar_identifier hIdentifier
            (Int64.not_lt.mp hSign)
      · cases h
    case h_3 | h_10 | h_12 => cases h
  · cases h

/- What a scalar type has accepted it accepts as it is. -/
theorem conformScalar_idem
    (h : conformScalar s l = .ok l') :
    conformScalar s l' = .ok l' :=
  (ofScalar_of_conform h).conform

/- Items that are accepted as they are make up a list. -/
theorem mapM_conformScalar
    {items : List Literal}
    (h : ∀ l ∈ items, conformScalar s l = .ok l) :
    items.mapM (conformScalar s) = .ok items := by
  induction items with
  | nil => rfl
  | cons l rest ih =>
      have hRest :=
        ih fun k hk => h k (List.mem_cons_of_mem _ hk)
      rw [List.mapM_cons, h l List.mem_cons_self, hRest]
      rfl

/- What a type accepts has its form. -/
theorem ofType_of_conform
    (h : conform t l = .ok l') :
    l'.OfType t := by
  unfold conform at h
  split at h
  · exact .scalar (ofScalar_of_conform h)
  · rcases bind_eq_ok.mp h with ⟨items, hItems, h⟩
    cases h
    apply OfType.list
    intro k hk
    rcases exists_of_mem_mapM hItems hk with ⟨_, _, hEq⟩
    exact ofScalar_of_conform hEq
  all_goals cases h

/- A type accepts as they are just the literals in its form. -/
theorem conform_eq_self_iff :
    conform t l = .ok l ↔ l.OfType t := by
  constructor
  · exact ofType_of_conform
  · intro h
    cases h with
    | scalar hForm => exact hForm.conform
    | list hForms =>
        simp only [conform,
          mapM_conformScalar fun l hl => (hForms l hl).conform]
        rfl

/- What a type has accepted it accepts as it is. -/
theorem conform_idem
    (h : conform t l = .ok l') :
    conform t l' = .ok l' :=
  conform_eq_self_iff.mpr (ofType_of_conform h)

end FlowGraph.Literal

------------------------------------------------------------
-- Usable Values
------------------------------------------------------------

namespace FlowGraph

/-
  The value is a literal of its type, or an output of its
  type of a node that is there and not hidden.
-/
structure Value.Usable
    (g : Graph)
    (hidden : Nat → Prop)
    (v : Value) :
    Prop where
  literal :
    ∀ l, v.literal? = some l → l.conform v.type = .ok l
  pin :
    ∀ p, v.pin? = some p → ¬ hidden p.node ∧
      ∃ n out, g.nodes.get? p.node = some n ∧
        n.output? p.slot p.index = some out ∧
        out.type = v.type

/- The same for an argument. -/
def Input.Usable
    (g : Graph)
    (hidden : Nat → Prop) :
    Input → Prop
  | .literal _ => True
  | .value v => v.Usable g hidden

variable {g g' : Graph} {hidden hidden' : Nat → Prop}
variable {v w : Value}

/- A usable value stays so as nodes are added. -/
theorem Value.Usable.mono
    (h : v.Usable g hidden)
    (hNodes :
      ∀ id n, g.nodes.get? id = some n →
        g'.nodes.get? id = some n)
    (hHidden :
      ∀ id n, g.nodes.get? id = some n → hidden' id →
        hidden id) :
    v.Usable g' hidden' := by
  refine ⟨h.literal, ?_⟩
  intro p hp
  rcases h.pin p hp with ⟨hNot, n, out, hNode, hOut, hType⟩
  exact ⟨fun hId => hNot (hHidden p.node n hNode hId),
    n, out, hNodes _ _ hNode, hOut, hType⟩

/- A literal of its own type is usable. -/
theorem usable_of_literal
    {t : ValueType}
    {l : Literal}
    (h : l.conform t = .ok l) :
    Value.Usable g hidden ⟨t, .literal l⟩ := by
  constructor
  · intro k hk
    cases hk
    exact h
  · intro p hp
    cases hp

/- An output of a node that is not hidden is usable. -/
theorem usable_pin
    {id index : Nat}
    {slot : String}
    {n : Node}
    {out : OutputPin}
    (hNot : ¬ hidden id)
    (hNode : g.nodes.get? id = some n)
    (hOut : n.output? slot index = some out) :
    Value.Usable g hidden
      (.pin out.type ⟨id, slot, index⟩) := by
  constructor
  · intro l hl
    cases hl
  · intro p hp
    cases hp
    exact ⟨hNot, n, out, hNode, hOut, rfl⟩

theorem usable_bool
    (b : Bool) :
    Value.Usable g hidden (.bool b) :=
  usable_of_literal rfl

theorem usable_int
    (i : Int64) :
    Value.Usable g hidden (.int i) :=
  usable_of_literal rfl

theorem usable_float
    (x : Float) :
    Value.Usable g hidden (.float x) :=
  usable_of_literal rfl

theorem usable_str
    (s : String) :
    Value.Usable g hidden (.str s) :=
  usable_of_literal rfl

/- The label of a case is usable. -/
theorem usable_label
    (l : Label) :
    Value.Usable g hidden l.value := by
  cases l with
  | int i => exact usable_int i
  | str s => exact usable_str s

end FlowGraph

------------------------------------------------------------
-- Reading
------------------------------------------------------------

namespace FlowGraph

variable {g : Graph} {hidden : Nat → Prop}
variable {v w : Value} {t : ValueType}

/- A literal that was accepted is usable. -/
theorem usable_literal
    {l : Literal}
    (h : Value.literal t l = .ok v) :
    v.Usable g hidden := by
  rcases bind_eq_ok.mp h with ⟨l', hConform, hv⟩
  cases hv
  exact usable_of_literal (Literal.conform_idem hConform)

/- A value that was accepted is the same value. -/
theorem eq_of_expect
    (h : v.expect t = .ok w) :
    w = v ∧ v.type = t := by
  unfold Value.expect at h
  split at h
  · rename_i hType
    cases h
    exact ⟨rfl, hType⟩
  · cases h

/- What is read at a type is of that type. -/
theorem type_of_read
    {input : Input}
    (h : input.read t = .ok v) :
    v.type = t := by
  cases input with
  | literal l =>
      rcases bind_eq_ok.mp h with ⟨_, _, hv⟩
      cases hv
      rfl
  | value w =>
      rcases eq_of_expect h with ⟨hEq, hType⟩
      rw [hEq]
      exact hType

/- What is read from a usable argument is usable. -/
theorem usable_read
    {input : Input}
    (hInput : input.Usable g hidden)
    (h : input.read t = .ok v) :
    v.Usable g hidden := by
  cases input with
  | literal l => exact usable_literal h
  | value w =>
      have hEq := (eq_of_expect h).1
      rw [hEq]
      exact hInput

/- What is read from usable items is usable. -/
theorem usable_readItems
    {items : List Input}
    {args : List Value}
    (hItems : ∀ i ∈ items, i.Usable g hidden)
    (h : Builder.readItems t items = .ok args) :
    ∀ v ∈ args, v.Usable g hidden := by
  intro v hv
  rcases exists_of_mem_mapM h hv with ⟨i, hi, hRead⟩
  exact usable_read (hItems i hi) hRead

/- What is read from usable pairs is usable. -/
theorem usable_readPairs
    {key value : ValueType}
    {pairs : List (Input × Input)}
    {args : List Value}
    (hPairs :
      ∀ p ∈ pairs,
        p.1.Usable g hidden ∧ p.2.Usable g hidden)
    (h : Builder.readPairs key value pairs = .ok args) :
    ∀ v ∈ args, v.Usable g hidden := by
  rcases bind_eq_ok.mp h with ⟨rows, hRows, hArgs⟩
  cases hArgs
  intro v hv
  rcases List.mem_flatten.mp hv with ⟨row, hRow, hMem⟩
  rcases exists_of_mem_mapM hRows hRow with ⟨p, hp, hPair⟩
  rcases bind_eq_ok.mp hPair with ⟨a, ha, hPair⟩
  rcases bind_eq_ok.mp hPair with ⟨b, hb, hPair⟩
  cases hPair
  have hUsable := hPairs p hp
  rcases List.mem_cons.mp hMem with hEq | hMem
  · rw [hEq]
    exact usable_read hUsable.1 ha
  · rw [List.mem_singleton.mp hMem]
    exact usable_read hUsable.2 hb

end FlowGraph

------------------------------------------------------------
-- Operators
------------------------------------------------------------

namespace FlowGraph

variable {g : Graph} {hidden : Nat → Prop}
variable {v w x y x' y' : Value}

/- A usable value stays usable when it is widened. -/
theorem usable_widen
    (h : v.Usable g hidden)
    (hWiden : v.widen w = .ok x) :
    x.Usable g hidden := by
  unfold Value.widen at hWiden
  split at hWiden
  · split at hWiden
    · exact usable_literal hWiden
    · cases hWiden
      exact h
  · cases hWiden
    exact h

/- The operands of a binary operator are usable. -/
theorem usable_operands
    {op : BinaryOp}
    (hx : x.Usable g hidden)
    (hy : y.Usable g hidden)
    (h : op.operands x y = .ok (x', y')) :
    x'.Usable g hidden ∧ y'.Usable g hidden := by
  rcases bind_eq_ok.mp h with ⟨a, ha, h⟩
  rcases bind_eq_ok.mp h with ⟨b, hb, h⟩
  rcases bind_eq_ok.mp h with ⟨_, _, h⟩
  rcases bind_eq_ok.mp h with ⟨_, _, h⟩
  cases h
  exact ⟨usable_widen hx ha, usable_widen hy hb⟩

theorem usable_finite
    {f : Float}
    (h : Folding.finite? f = some v) :
    v.Usable g hidden := by
  unfold Folding.finite? at h
  split at h
  · cases h
    exact usable_float f
  · cases h

theorem usable_map_int
    {i : Option Int64}
    (h : i.map .int = some v) :
    v.Usable g hidden := by
  rcases Option.map_eq_some_iff.mp h with ⟨k, _, hk⟩
  rw [← hk]
  exact usable_int k

theorem usable_map_bool
    {b : Option Bool}
    (h : b.map .bool = some v) :
    v.Usable g hidden := by
  rcases Option.map_eq_some_iff.mp h with ⟨c, _, hc⟩
  rw [← hc]
  exact usable_bool c

/- What an operator yields for literals is usable. -/
theorem usable_literals
    {op : BinaryOp}
    {a b : Literal}
    (h : Folding.literals op a b = some v) :
    v.Usable g hidden := by
  unfold Folding.literals at h
  split at h
  · unfold Folding.ints at h
    split at h
    case h_6 => exact usable_map_bool h
    all_goals exact usable_map_int h
  · unfold Folding.floats at h
    split at h
    case h_6 =>
      rcases Option.bind_eq_some_iff.mp h with ⟨o, _, h⟩
      exact usable_map_bool h
    all_goals exact usable_finite h
  · unfold Folding.bools at h
    split at h <;> cases h <;> exact usable_bool _
  · unfold Folding.strs at h
    split at h <;> cases h <;> exact usable_bool _
  · cases h

/- What a binary operator is folded to is usable. -/
theorem usable_binary
    {enabled : Bool}
    {op : BinaryOp}
    (h : Folding.binary enabled op x y = some v) :
    v.Usable g hidden := by
  unfold Folding.binary at h
  split at h
  · rcases Option.bind_eq_some_iff.mp h with ⟨a, _, h⟩
    rcases Option.bind_eq_some_iff.mp h with ⟨b, _, h⟩
    exact usable_literals h
  · cases h

/- What a unary operator is folded to is usable. -/
theorem usable_unary
    {enabled : Bool}
    {op : UnaryOp}
    (h : Folding.unary enabled op x = some v) :
    v.Usable g hidden := by
  unfold Folding.unary at h
  split at h
  · rcases Option.bind_eq_some_iff.mp h with ⟨a, _, h⟩
    unfold Folding.literal at h
    split at h
    · exact usable_map_int h
    · exact usable_finite h
    · exact usable_map_int h
    · exact usable_finite h
    · cases h
      exact usable_bool _
    · cases h
  · cases h

end FlowGraph
