import FlowGraph.Proofs.Building
import FlowGraph.Proofs.Documents
import FlowGraph.Proofs.Expansion

/-
  Literals that stay as they are.

  Every literal value has the form of its type and stays the
  same however often it is checked, whether it was written
  down, computed, or taken out of a list.

  Key definitions include:
    * `FlowGraph.Value.Stable`
    * `FlowGraph.Graph.StableSince`

  Key theorems include:
    * `FlowGraph.Value.stable_of_conform`
    * `FlowGraph.Builder.stable_binary`
    * `FlowGraph.Graph.stable_expandLists`
    * `FlowGraph.Value.stable_once_accepted`
-/

------------------------------------------------------------
-- Types Of Pins
------------------------------------------------------------

namespace FlowGraph.Literal

variable {l : Literal}

/- Of a type that only pins have there is only a list. -/
theorem OfType.eq_nil
    {t : ValueType}
    (h : l.OfType t)
    (hPins : ∀ s, t.base? = some s → s.acceptsLiteral = false) :
    l = .list [] := by
  have hNone :
      ∀ {k : Literal} {s : Scalar},
        s.acceptsLiteral = false → ¬ k.OfScalar s := by
    intro k s hNot hForm
    cases hForm with
    | _ => cases hNot
  cases h with
  | scalar hForm => exact absurd hForm (hNone (hPins _ rfl))
  | @list s items hForms =>
      cases items with
      | nil => rfl
      | cons k rest =>
          exact absurd (hForms k List.mem_cons_self)
            (hNone (hPins _ rfl))

end FlowGraph.Literal

------------------------------------------------------------
-- Stable Values
------------------------------------------------------------

namespace FlowGraph

/-
  A literal value has the form of its type, and checking the
  literal again yields the same value.
-/
def Value.Stable
    (v : Value) :
    Prop :=
  ∀ l, v.literal? = some l →
    l.OfType v.type ∧ Value.literal v.type l = .ok v

namespace Value

variable {v : Value} {t : ValueType} {l : Literal}

/- A literal is made into a value if it has the form. -/
theorem literal_eq_self_iff :
    Value.literal t l = .ok ⟨t, .literal l⟩ ↔ l.OfType t := by
  rw [← Literal.conform_eq_self_iff]
  constructor
  · intro h
    rcases bind_eq_ok.mp h with ⟨l', hConform, hEq⟩
    cases hEq
    exact hConform
  · intro h
    exact bind_eq_ok.mpr ⟨l, h, rfl⟩

/- A literal value is stable if its type accepts it as it is. -/
theorem stable_of_conform
    (h : ∀ l, v.literal? = some l → l.conform v.type = .ok l) :
    v.Stable := by
  intro l hl
  have hForm := Literal.conform_eq_self_iff.mp (h l hl)
  refine ⟨hForm, ?_⟩
  rw [literal_eq_self_iff.mpr hForm]
  rcases v with ⟨t, source⟩
  cases source with
  | literal k =>
      cases hl
      rfl
  | pin p => cases hl

theorem Usable.stable
    {g : Graph}
    {hidden : Nat → Prop}
    (h : v.Usable g hidden) :
    v.Stable :=
  stable_of_conform h.literal

theorem Made.stable
    (h : v.Made) :
    v.Stable :=
  stable_of_conform fun _ hl => h.conform hl

/- Checking brings a literal into the form of its type. -/
theorem of_literal
    (h : Value.literal t l = .ok v) :
    ∃ l', v = ⟨t, .literal l'⟩ ∧ l'.OfType t := by
  rcases bind_eq_ok.mp h with ⟨l', hConform, hEq⟩
  cases hEq
  exact ⟨l', rfl, Literal.ofType_of_conform hConform⟩

/- An argument that is read is stable if it was before. -/
theorem stable_read
    {input : Input}
    (hInput : ∀ w, input = .value w → w.Made)
    (h : input.read t = .ok v) :
    v.Stable := by
  cases input with
  | literal l => exact (Made.literal h).stable
  | value w =>
      rw [(eq_of_expect h).1]
      exact (hInput w rfl).stable

end Value

namespace Builder

variable {b b' : Builder} {x y v : Value}

/- An operator yields a pin, or a literal of its type. -/
theorem stable_binary
    {op : BinaryOp}
    (h : binary op x y b = (.ok v, b')) :
    v.Stable := by
  have hMeets :
      (binary op x y).Meets b (fun w _ => w.Stable)
        (fun _ _ => True) := by
    rw [meets_binary]
    refine ⟨?_, fun _ _ => trivial⟩
    intro x' y' _
    split
    · rename_i w hFold
      have hUsable : w.Usable b.graph (fun _ => False) :=
        usable_binary hFold
      exact hUsable.stable
    · exact (Value.Made.pin _ _).stable
  exact hMeets.of_ok h

theorem stable_unary
    {op : UnaryOp}
    (h : unary op x b = (.ok v, b')) :
    v.Stable := by
  have hMeets :
      (unary op x).Meets b (fun w _ => w.Stable)
        (fun _ _ => True) := by
    rw [meets_unary]
    refine ⟨?_, fun _ _ => trivial⟩
    intro _ _
    split
    · rename_i w hFold
      have hUsable : w.Usable b.graph (fun _ => False) :=
        usable_unary hFold
      exact hUsable.stable
    · exact (Value.Made.pin _ _).stable
  exact hMeets.of_ok h

end Builder

end FlowGraph

------------------------------------------------------------
-- Expanded Lists
------------------------------------------------------------

namespace FlowGraph.Graph

/- Every argument is stable or was there in graph `g`. -/
def StableSince
    (g g' : Graph) :
    Prop :=
  ∀ id n v, g'.nodes.get? id = some n → v ∈ n.args →
    v.Stable ∨ ∃ m, g.nodes.get? id = some m ∧ v ∈ m.args

variable {g g₁ g₂ : Graph}

/- The items of a list are checked once more. -/
theorem StableSince.expandList
    {inline : InlineList}
    (h : g.StableSince g₁)
    (hExpand : g₁.expandList inline = .ok g₂) :
    g.StableSince g₂ := by
  rcases of_expandList hExpand with ⟨args, _, hArgs, hEq⟩
  rw [hEq]
  intro id n v hNode hv
  rcases of_replaceArg hNode with ⟨m, hm, hCases⟩
  rcases hCases v hv with hPin | hOld
  · rw [hPin]
    exact Or.inl (Value.Made.pin _ _).stable
  · by_cases hNew : id = g₁.nextId
    · rw [hNew, get?_attach_self] at hm
      cases hm
      rcases exists_of_mem_mapM hArgs hOld with
        ⟨l, _, hLiteral⟩
      exact Or.inl (Value.Made.literal hLiteral).stable
    · rw [get?_attach_of_ne hNew] at hm
      exact h id m v hm hOld

/- Expansion stores stable values only, even if refused. -/
theorem stable_expandLists
    (g : Graph) :
    g.StableSince g.expandLists.2 := by
  apply expandEach_induction
  · intro g₁ g₂ inline h hExpand
    exact h.expandList hExpand
  · intro id n v hNode hv
    exact Or.inr ⟨n, hNode, hv⟩

end FlowGraph.Graph

------------------------------------------------------------
-- Values Of A Program
------------------------------------------------------------

namespace FlowGraph.Value

/-
  A type accepts as they are just the literals in its form,
  and into this form it brings whatever else it accepts.  Of
  a type that only pins have this is the empty list.  So
  every literal value is stable: one that was checked, made
  by a constructor, read as an argument, computed by an
  operator in any state, or stored by an expansion, whether
  the expansion was refused or not.  The items of a list are
  accepted one by one as well.
-/
theorem stable_once_accepted :
    (∀ t l,
      Value.literal t l = .ok ⟨t, .literal l⟩ ↔
        l.OfType t) ∧
    (∀ t l v, Value.literal t l = .ok v →
      ∃ l', v = ⟨t, .literal l'⟩ ∧ l'.OfType t ∧
        Value.literal t l' = .ok v ∧
        ((∀ s, t.base? = some s →
          s.acceptsLiteral = false) → l' = .list [])) ∧
    (∀ s l v, Value.literal (.list s) l = .ok v →
      ∃ items, v = ⟨.list s, .literal (.list items)⟩ ∧
        ∀ k ∈ items,
          Value.literal (.scalar s) k =
            .ok ⟨.scalar s, .literal k⟩) ∧
    (∀ v : Value, v.Made → v.Stable) ∧
    (∀ input t v, (∀ w, input = .value w → w.Made) →
      Input.read input t = .ok v → v.type = t ∧ v.Stable) ∧
    (∀ op x y v b b',
      Builder.binary op x y b = (.ok v, b') → v.Stable) ∧
    (∀ op x v b b',
      Builder.unary op x b = (.ok v, b') → v.Stable) ∧
    ∀ g : Graph, g.StableSince g.expandLists.2 := by
  refine ⟨fun _ _ => literal_eq_self_iff, ?_, ?_,
    fun _ hMade => hMade.stable, ?_, ?_, ?_,
    Graph.stable_expandLists⟩
  · intro t l v h
    rcases of_literal h with ⟨l', hEq, hForm⟩
    refine ⟨l', hEq, hForm, ?_, hForm.eq_nil⟩
    rw [hEq]
    exact literal_eq_self_iff.mpr hForm
  · intro s l v h
    rcases of_literal h with ⟨l', hEq, hForm⟩
    cases hForm with
    | @list _ items hForms =>
        refine ⟨items, hEq, ?_⟩
        intro k hk
        exact literal_eq_self_iff.mpr (.scalar (hForms k hk))
  · intro input t v hInput h
    exact ⟨type_of_read h, stable_read hInput h⟩
  · intro op x y v b b' h
    exact Builder.stable_binary h
  · intro op x v b b' h
    exact Builder.stable_unary h

end FlowGraph.Value
