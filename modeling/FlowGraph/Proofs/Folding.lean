import FlowGraph.Proofs.Arms
import FlowGraph.Proofs.Closed

/-
  Folding and the acceptance of operators.

  An operator that is folded yields a literal where it would
  have yielded a pin of the same type.  A whole number that
  is a literal may meet a float, a pin may not, and this is
  the one way in which folding changes what is accepted.

  Key definitions include:
    * `FlowGraph.Value.meet`
    * `FlowGraph.Value.Computes`
    * `FlowGraph.Script.Stmt.Mixes`

  Key theorems include:
    * `FlowGraph.operands_cases`
    * `FlowGraph.meet_of_computes`
    * `FlowGraph.Script.folding_admits_mixed_only`
-/

------------------------------------------------------------
-- Operands Of An Operator
------------------------------------------------------------

namespace FlowGraph

/- A literal value is one of its type. -/
def Value.Typed
    (v : Value) :
    Prop :=
  ∀ l, v.literal? = some l → l.conform v.type = .ok l

/-
  The type at which two values meet as operands: a whole
  number that is written down may meet a float.
-/
def Value.meet
    (v w : Value) :
    Option ValueType :=
  if v.type = w.type then some v.type
  else if v.type = .int ∧ v.isLiteral ∧ w.type = .float ∨
      w.type = .int ∧ w.isLiteral ∧ v.type = .float then
    some .float
  else none

/- Whether an operator takes operands of a type. -/
def BinaryOp.accepts
    (op : BinaryOp)
    (t : ValueType) :
    Bool :=
  if op.isArithmetic || op.isOrdering then t.isNumeric
  else if op.isLogical then decide (t = .bool)
  else true

variable {v w : Value} {op : BinaryOp}

theorem typed_pin
    (t : ValueType)
    (p : PinRef) :
    (Value.pin t p).Typed := by
  intro l hl
  cases hl

/- A whole number that meets a float becomes one. -/
theorem widen_int
    (hTyped : v.Typed)
    (hInt : v.type = .int)
    (hLiteral : v.isLiteral = true)
    (hFloat : w.type = .float) :
    ∃ x, v.widen w = .ok (.float x) := by
  rcases Option.isSome_iff_exists.mp hLiteral with ⟨l, hl⟩
  have hConform := hTyped l hl
  rw [hInt] at hConform
  unfold Value.widen
  rw [hl]
  simp only [hInt, hFloat, and_self, if_true]
  cases l with
  | int i => exact ⟨_, rfl⟩
  | _ => cases hConform

/- Any other value stays as it is. -/
theorem widen_other
    (h :
      ¬(v.type = .int ∧ v.isLiteral = true ∧
        w.type = .float)) :
    v.widen w = .ok v := by
  unfold Value.widen
  split
  · rename_i l hl
    rw [if_neg]
    rintro ⟨hInt, hFloat⟩
    exact h ⟨hInt, by rw [Value.isLiteral, hl]; rfl, hFloat⟩
  · rfl

/- Operands are checked by their type. -/
theorem checkOperand_cases
    (op : BinaryOp)
    (v : Value) :
    (op.accepts v.type = true ∧ op.checkOperand v = .ok ()) ∨
      op.accepts v.type = false ∧
        ∃ e, op.checkOperand v = .error e := by
  unfold BinaryOp.accepts BinaryOp.checkOperand
  split
  · unfold Value.expectNumber
    cases hNumeric : v.type.isNumeric with
    | true => exact Or.inl ⟨rfl, rfl⟩
    | false => exact Or.inr ⟨rfl, _, rfl⟩
  · split
    · unfold Value.expect
      by_cases hBool : v.type = .bool
      · rw [if_pos hBool]
        exact Or.inl ⟨decide_eq_true hBool, rfl⟩
      · rw [if_neg hBool]
        exact Or.inr ⟨decide_eq_false hBool, _, rfl⟩
    · exact Or.inl ⟨rfl, rfl⟩

/- Operands that are widened to one type are checked once. -/
theorem operands_of_widen
    {v' w' : Value}
    (hv : v.widen w = .ok v')
    (hw : w.widen v' = .ok w')
    (hType : w'.type = v'.type) :
    op.operands v w =
      (op.checkOperand v').map fun _ => (v', w') := by
  unfold BinaryOp.operands
  rw [hv]
  show (w.widen v' >>= _) = _
  rw [hw]
  show (w'.expect v'.type >>= _) = _
  unfold Value.expect
  rw [if_pos hType]
  show (op.checkOperand v' >>= _) = _
  cases op.checkOperand v' <;> rfl

/- What becomes of the operands of an operator. -/
theorem operands_cases
    (op : BinaryOp)
    (hv : v.Typed)
    (hw : w.Typed) :
    (∃ t v' w',
      v.meet w = some t ∧ v'.type = t ∧ w'.type = t ∧
        v'.Typed ∧ w'.Typed ∧
          op.operands v w =
            (op.checkOperand v').map fun _ => (v', w')) ∨
      v.meet w = none ∧
        ∃ e, op.operands v w = .error e := by
  have hFloat : ∀ x, (Value.float x).Typed := by
    intro x l hl
    cases hl
    rfl
  unfold Value.meet
  by_cases hSame : v.type = w.type
  · refine Or.inl ⟨v.type, v, w, if_pos hSame, rfl,
      hSame.symm, hv, hw, operands_of_widen ?_ ?_
        hSame.symm⟩
    · apply widen_other
      rintro ⟨hInt, _, hOther⟩
      rw [hInt, hOther] at hSame
      cases hSame
    · apply widen_other
      rintro ⟨hInt, _, hOther⟩
      rw [hInt, hOther] at hSame
      cases hSame
  · rw [if_neg hSame]
    by_cases hLeft :
        v.type = .int ∧ v.isLiteral ∧ w.type = .float
    · rcases widen_int hv hLeft.1 hLeft.2.1 hLeft.2.2 with
        ⟨x, hWiden⟩
      refine Or.inl ⟨.float, .float x, w,
        if_pos (Or.inl hLeft), rfl, hLeft.2.2, hFloat x, hw,
        operands_of_widen hWiden (widen_other ?_) hLeft.2.2⟩
      rintro ⟨hInt, _⟩
      rw [hInt] at hLeft
      cases hLeft.2.2
    · have hStays : v.widen w = .ok v := widen_other hLeft
      by_cases hRight :
          w.type = .int ∧ w.isLiteral ∧ v.type = .float
      · rcases widen_int hw hRight.1 hRight.2.1
            hRight.2.2 with
          ⟨x, hWiden⟩
        exact Or.inl ⟨.float, v, .float x,
          if_pos (Or.inr hRight), hRight.2.2, rfl, hv,
          hFloat x,
          operands_of_widen hStays hWiden hRight.2.2.symm⟩
      · refine Or.inr ⟨if_neg (not_or.mpr ⟨hLeft, hRight⟩),
          ?_⟩
        unfold BinaryOp.operands
        rw [hStays]
        show ∃ e, (w.widen v >>= _) = Except.error e
        rw [widen_other hRight]
        show ∃ e, (w.expect v.type >>= _) = Except.error e
        unfold Value.expect
        rw [if_neg fun hEq => hSame hEq.symm]
        exact ⟨_, rfl⟩

end FlowGraph

------------------------------------------------------------
-- Types Of Results
------------------------------------------------------------

namespace FlowGraph

variable {v w r : Value} {op : BinaryOp}

/- The type of a number that is written down. -/
def Literal.numberType : Literal → ValueType
  | .float _ => .float
  | _ => .int

/- There are two types of numbers. -/
theorem numeric_cases
    {t : ValueType}
    (h : t.isNumeric = true) :
    t = .int ∨ t = .float := by
  cases t with
  | scalar s =>
      cases s with
      | int => exact Or.inl rfl
      | float => exact Or.inr rfl
      | _ => cases h
  | _ => cases h

/- A number that is a literal is written down as one. -/
theorem numberType_of_typed
    (hTyped : v.Typed)
    {l : Literal}
    (hl : v.literal? = some l)
    (hNumeric : v.type.isNumeric = true) :
    l.numberType = v.type := by
  have hConform := hTyped l hl
  rcases numeric_cases hNumeric with hInt | hFloat
  · rw [hInt] at hConform ⊢
    cases l with
    | float x => cases hConform
    | _ => rfl
  · rw [hFloat] at hConform ⊢
    cases l with
    | float x => rfl
    | _ => cases hConform

theorem type_of_finite
    {x : Float}
    (h : Folding.finite? x = some r) :
    r.type = .float := by
  unfold Folding.finite? at h
  split at h
  · cases h
    rfl
  · cases h

theorem type_of_map_int
    {i : Option Int64}
    (h : i.map .int = some r) :
    r.type = .int := by
  rcases Option.map_eq_some_iff.mp h with ⟨k, _, hk⟩
  rw [← hk]
  rfl

theorem type_of_map_bool
    {b : Option Bool}
    (h : b.map .bool = some r) :
    r.type = .bool := by
  rcases Option.map_eq_some_iff.mp h with ⟨c, _, hc⟩
  rw [← hc]
  rfl

/- What an operator on literals is folded to. -/
theorem type_of_literals
    {x y : Literal}
    (h : Folding.literals op x y = some r) :
    r.type = op.resultType x.numberType := by
  unfold Folding.literals at h
  split at h
  · unfold Folding.ints at h
    cases op with
    | add | sub | mul | div | mod =>
        exact type_of_map_int h
    | _ => exact type_of_map_bool h
  · cases op with
    | add | sub | mul | div | mod => exact type_of_finite h
    | _ =>
        rcases Option.bind_eq_some_iff.mp h with ⟨_, _, h⟩
        exact type_of_map_bool h
  · cases op <;> cases h <;> rfl
  · cases op <;> cases h <;> rfl
  · cases h

/- A folded operator yields what it is said to yield. -/
theorem type_of_binary
    {enabled : Bool}
    (hTyped : v.Typed)
    (hAccepts : op.accepts v.type = true)
    (h : Folding.binary enabled op v w = some r) :
    r.type = op.resultType v.type := by
  unfold Folding.binary at h
  split at h
  · rcases Option.bind_eq_some_iff.mp h with ⟨x, hx, h⟩
    rcases Option.bind_eq_some_iff.mp h with ⟨y, _, h⟩
    rw [type_of_literals h]
    unfold BinaryOp.resultType
    split
    · rename_i hArithmetic
      apply numberType_of_typed hTyped hx
      unfold BinaryOp.accepts at hAccepts
      rw [hArithmetic] at hAccepts
      exact hAccepts
    · rfl
  · cases h

/- Whether an operator takes an operand of a type. -/
def UnaryOp.accepts
    (op : UnaryOp)
    (t : ValueType) :
    Bool :=
  match op with
  | .neg | .abs => t.isNumeric
  | .not => decide (t = .bool)

theorem checkUnary_cases
    (op : UnaryOp)
    (v : Value) :
    (op.accepts v.type = true ∧ op.checkOperand v = .ok ()) ∨
      op.accepts v.type = false ∧
        ∃ e, op.checkOperand v = .error e := by
  unfold UnaryOp.accepts UnaryOp.checkOperand
  split
  · unfold Value.expectNumber
    cases hNumeric : v.type.isNumeric with
    | true => exact Or.inl ⟨rfl, rfl⟩
    | false => exact Or.inr ⟨rfl, _, rfl⟩
  · unfold Value.expectNumber
    cases hNumeric : v.type.isNumeric with
    | true => exact Or.inl ⟨rfl, rfl⟩
    | false => exact Or.inr ⟨rfl, _, rfl⟩
  · unfold Value.expect
    by_cases hBool : v.type = .bool
    · rw [if_pos hBool]
      exact Or.inl ⟨decide_eq_true hBool, rfl⟩
    · rw [if_neg hBool]
      exact Or.inr ⟨decide_eq_false hBool, _, rfl⟩

/- A folded operator keeps the type of its operand. -/
theorem type_of_unary
    {op : UnaryOp}
    {enabled : Bool}
    (hTyped : v.Typed)
    (hAccepts : op.accepts v.type = true)
    (h : Folding.unary enabled op v = some r) :
    r.type = v.type := by
  unfold Folding.unary at h
  split at h
  · rcases Option.bind_eq_some_iff.mp h with ⟨x, hx, h⟩
    unfold Folding.literal at h
    split at h
    · rw [type_of_map_int h]
      exact numberType_of_typed hTyped hx hAccepts
    · rw [type_of_finite h]
      exact numberType_of_typed hTyped hx hAccepts
    · rw [type_of_map_int h]
      exact numberType_of_typed hTyped hx hAccepts
    · rw [type_of_finite h]
      exact numberType_of_typed hTyped hx hAccepts
    · cases h
      exact (of_decide_eq_true hAccepts).symm
    · cases h
  · cases h

end FlowGraph

------------------------------------------------------------
-- Operators
------------------------------------------------------------

namespace FlowGraph

variable {v w : Value} {b : Builder}

/- The type of what a binary operator yields, if it does. -/
def BinaryOp.yields
    (op : BinaryOp)
    (v w : Value) :
    Option ValueType :=
  ((v.meet w).filter op.accepts).map op.resultType

/- The type of what a unary operator yields, if it does. -/
def UnaryOp.yields
    (op : UnaryOp)
    (v : Value) :
    Option ValueType :=
  if op.accepts v.type then some v.type else none

/-
  A value that an operator has yielded: it has a type, and
  it is a literal only where operators are folded.
-/
structure Builder.Computed
    (b : Builder)
    (t : ValueType)
    (r : Value) :
    Prop where
  type : r.type = t
  typed : r.Typed
  pin : b.config.precompute = false → r.isLiteral = false

/- The step yields a value of the type, or is refused. -/
def Builder.Gives
    (b : Builder)
    (m : Build Value) :
    Option ValueType → Prop
  | some t =>
      ∃ r b', m b = (.ok r, b') ∧ b.Computed t r ∧
        b'.config = b.config
  | none => ∃ e, m b = (.error e, b)

/- What a binary operator yields is known from its types. -/
theorem gives_binary
    {op : BinaryOp}
    (hv : v.Typed)
    (hw : w.Typed) :
    b.Gives (Builder.binary op v w) (op.yields v w) := by
  have hRun := Builder.meets_binary.mp
    (Process.meets_self (Builder.binary op v w) b)
  unfold BinaryOp.yields
  rcases operands_cases op hv hw with
    ⟨t, v', w', hMeet, hv', hw', hvTyped, hwTyped, hEq⟩ |
      ⟨hMeet, e, hEq⟩
  · rw [hMeet]
    rcases checkOperand_cases op v' with
      ⟨hAccepts, hCheck⟩ | ⟨hAccepts, e, hCheck⟩
    · rw [hCheck] at hEq
      have hFold := hRun.1 v' w' hEq
      rw [hv'] at hAccepts hFold
      simp only [Option.filter_some, hAccepts, if_true,
        Option.map_some]
      split at hFold
      · rename_i r hr
        rw [← hv'] at hAccepts
        refine ⟨r, b, hFold, ⟨?_, ?_, ?_⟩, rfl⟩
        · rw [type_of_binary hvTyped hAccepts hr, hv']
        · have hUsable : r.Usable b.graph fun _ => False :=
            usable_binary hr
          exact hUsable.literal
        · intro hOff
          rw [hOff] at hr
          cases hr
      · exact ⟨_, _, hFold, ⟨rfl, typed_pin _ _,
          fun _ => rfl⟩, rfl⟩
    · rw [hCheck] at hEq
      rw [hv'] at hAccepts
      simp only [Option.filter_some, hAccepts]
      exact ⟨e, hRun.2 e hEq⟩
  · rw [hMeet]
    exact ⟨e, hRun.2 e hEq⟩

/- The same for a unary operator. -/
theorem gives_unary
    {op : UnaryOp}
    (hv : v.Typed) :
    b.Gives (Builder.unary op v) (op.yields v) := by
  have hRun := Builder.meets_unary.mp
    (Process.meets_self (Builder.unary op v) b)
  unfold UnaryOp.yields
  rcases checkUnary_cases op v with
    ⟨hAccepts, hCheck⟩ | ⟨hAccepts, e, hCheck⟩
  · have hFold := hRun.1 () hCheck
    rw [if_pos hAccepts]
    split at hFold
    · rename_i r hr
      refine ⟨r, b, hFold, ⟨?_, ?_, ?_⟩, rfl⟩
      · exact type_of_unary hv hAccepts hr
      · have hUsable : r.Usable b.graph fun _ => False :=
          usable_unary hr
        exact hUsable.literal
      · intro hOff
        rw [hOff] at hr
        cases hr
    · exact ⟨_, _, hFold, ⟨rfl, typed_pin _ _,
        fun _ => rfl⟩, rfl⟩
  · rw [if_neg (by rw [hAccepts]; nofun)]
    exact ⟨e, hRun.2 e hCheck⟩

end FlowGraph

------------------------------------------------------------
-- Values With And Without Folding
------------------------------------------------------------

namespace FlowGraph

variable {v w v' w' : Value}

/-
  What stands for a value where operators are folded: it has
  the same type, and a literal stands for itself.
-/
structure Value.Computes
    (v w : Value) :
    Prop where
  type : v.type = w.type
  literal : w.isLiteral = true → v = w
  typed : v.Typed

/- The value is a whole number only after folding. -/
structure Value.FoldsToInt
    (v w : Value) :
    Prop where
  type : v.type = .int
  literal : v.isLiteral = true
  pin : w.isLiteral = false

theorem Value.Computes.refl
    (h : v.Typed) :
    v.Computes v :=
  ⟨rfl, fun _ => rfl, h⟩

theorem Value.Computes.typed_right
    (h : v.Computes w) :
    w.Typed := by
  intro l hl
  have hEq : v = w :=
    h.literal (by rw [Value.isLiteral, hl]; rfl)
  rw [← hEq] at hl ⊢
  exact h.typed l hl

/- A literal is folded, or it was one already. -/
theorem Value.Computes.foldsToInt
    (h : v.Computes w)
    (hInt : v.type = .int)
    (hLiteral : v.isLiteral = true)
    (hNot : ¬(w.type = .int ∧ w.isLiteral = true)) :
    v.FoldsToInt w := by
  refine ⟨hInt, hLiteral, ?_⟩
  cases hPin : w.isLiteral with
  | true => exact absurd ⟨h.type.symm.trans hInt, hPin⟩ hNot
  | false => rfl

/-
  Folding changes at which type two values meet only where a
  whole number that is folded meets a float.
-/
theorem meet_of_computes
    (hv : v.Computes v')
    (hw : w.Computes w') :
    v.meet w = v'.meet w' ∨
      v.meet w = some .float ∧ v'.meet w' = none ∧
        (v.FoldsToInt v' ∧ w.type = .float ∨
          w.FoldsToInt w' ∧ v.type = .float) := by
  unfold Value.meet
  rw [← hv.type, ← hw.type]
  by_cases hSame : v.type = w.type
  · rw [if_pos hSame, if_pos hSame]
    exact Or.inl rfl
  · rw [if_neg hSame, if_neg hSame]
    by_cases hPlain :
        v.type = .int ∧ v'.isLiteral ∧ w.type = .float ∨
          w.type = .int ∧ w'.isLiteral ∧ v.type = .float
    · rw [if_pos hPlain]
      left
      apply if_pos
      rcases hPlain with ⟨hInt, hLit, hFloat⟩ |
        ⟨hInt, hLit, hFloat⟩
      · exact Or.inl ⟨hInt, by rwa [hv.literal hLit], hFloat⟩
      · exact Or.inr ⟨hInt, by rwa [hw.literal hLit], hFloat⟩
    · rw [if_neg hPlain]
      by_cases hFolded :
          v.type = .int ∧ v.isLiteral ∧ w.type = .float ∨
            w.type = .int ∧ w.isLiteral ∧ v.type = .float
      · rw [if_pos hFolded]
        refine Or.inr ⟨rfl, rfl, ?_⟩
        rcases hFolded with ⟨hInt, hLit, hFloat⟩ |
          ⟨hInt, hLit, hFloat⟩
        · refine Or.inl ⟨hv.foldsToInt hInt hLit ?_, hFloat⟩
          intro h
          exact hPlain (Or.inl ⟨hInt, h.2, hFloat⟩)
        · refine Or.inr ⟨hw.foldsToInt hInt hLit ?_, hFloat⟩
          intro h
          exact hPlain (Or.inr ⟨hInt, h.2, hFloat⟩)
      · rw [if_neg hFolded]
        exact Or.inl rfl

end FlowGraph

------------------------------------------------------------
-- Operands With And Without Folding
------------------------------------------------------------

namespace FlowGraph.Script

/- Both are refused, or they yield what is related. -/
inductive Alike
    {α β : Type}
    (R : α → β → Prop) :
    Except Error α → Except Error β → Prop where
  | refused {e e' : Error} : Alike R (.error e) (.error e')
  | yields {a : α} {b : β} (h : R a b) : Alike R (.ok a) (.ok b)

/- A value that is written down is one of its type. -/
def Operand.typed : Operand → Bool
  | .value v => v.pin?.isSome || isOwnLiteral v
  | _ => true

/- Names stand for values of their types. -/
structure Names.Typed
    (names : Names) :
    Prop where
  values : ∀ p ∈ names.values, p.2.Typed
  locals :
    ∀ p ∈ names.locals, p.2.handle.Typed ∧ p.2.value.Typed

/- A run starts with no names. -/
theorem typed_empty :
    Names.empty.Typed := by
  constructor
  · intro p hp
    cases hp
  · intro p hp
    cases hp

/- Names with and without folding. -/
structure Names.Computes
    (on off : Names) :
    Prop where
  values :
    ∀ name, Alike Value.Computes
      (on.findValue name) (off.findValue name)
  locals : on.locals = off.locals
  handles :
    ∀ name v, off.findVariable name = .ok v → v.handle.Typed
  nodes : on.nodes = off.nodes

variable {names on off : Names} {v w : Value}

theorem Names.Typed.computes
    (h : names.Typed) :
    names.Computes names := by
  refine ⟨?_, rfl, ?_, rfl⟩
  · intro name
    unfold Names.findValue
    split
    · rename_i v hv
      exact .yields (.refl (h.values _ (mem_of_lookup hv)))
    · split
      · rename_i v hv
        exact .yields
          (.refl (h.locals _ (mem_of_lookup hv)).2)
      · exact .refused
  · intro name v hv
    unfold Names.findVariable at hv
    split at hv
    · rename_i w hw
      cases hv
      exact (h.locals _ (mem_of_lookup hw)).1
    · cases hv

theorem findValue_bindValue
    (names : Names)
    (name key : String)
    (v : Value) :
    (names.bindValue name v).findValue key =
      if key = name then .ok v else names.findValue key := by
  unfold Names.findValue Names.bindValue
  simp only [List.lookup_cons]
  by_cases hEq : key = name
  · rw [if_pos hEq, beq_iff_eq.mpr hEq]
  · rw [if_neg hEq, beq_eq_false_iff_ne.mpr hEq]

/- Results of an operator may be named. -/
theorem Names.Computes.keep
    (h : on.Computes off)
    (bind : Binding)
    (hv : v.Computes w) :
    (on.keep bind (.value v)).Computes
      (off.keep bind (.value w)) := by
  rcases bind with ⟨name, node⟩
  cases name with
  | none => exact h
  | some name =>
      refine ⟨?_, h.locals, h.handles, h.nodes⟩
      intro key
      show Alike Value.Computes
        ((on.bindValue name v).findValue key)
        ((off.bindValue name w).findValue key)
      rw [findValue_bindValue, findValue_bindValue]
      split
      · exact .yields hv
      · exact h.values key

/- What is the same with and without folding. -/
theorem alike_of_typed
    {r : Except Error Value}
    (h : ∀ v, r = .ok v → v.Typed) :
    Alike Value.Computes r r := by
  cases r with
  | error e => exact .refused
  | ok v => exact .yields (.refl (h v rfl))

/- An operand with and without folding. -/
theorem Names.Computes.eval
    (h : on.Computes off)
    {o : Operand}
    (hTyped : o.typed = true) :
    Alike Value.Computes (o.eval on) (o.eval off) := by
  cases o with
  | value v =>
      apply alike_of_typed
      intro w hw
      cases hw
      intro l hl
      rcases Bool.or_eq_true_iff.mp hTyped with hPin | hOwn
      · unfold Value.pin? Value.literal? at *
        split at hPin
        · cases hPin
        · rename_i hSource
          rw [hSource] at hl
          cases hl
      · have hUsable : v.Usable (.empty "") fun _ => False :=
          usable_ownLiteral hOwn
        exact hUsable.literal l hl
  | literal typeName l =>
      apply alike_of_typed
      intro v hv
      rcases bind_eq_ok.mp hv with ⟨t, _, hv⟩
      have hUsable : v.Usable (.empty "") fun _ => False :=
        usable_literal hv
      exact hUsable.literal
  | pin typeName node slot index =>
      have hSame : node.eval on = node.eval off := by
        cases node with
        | id n => rfl
        | name s =>
            unfold NodeRef.eval Names.findNode
            rw [h.nodes]
      simp only [Operand.eval, hSame]
      apply alike_of_typed
      intro v hv
      rcases bind_eq_ok.mp hv with ⟨t, _, hv⟩
      rcases bind_eq_ok.mp hv with ⟨id, _, hv⟩
      cases hv
      exact typed_pin t _
  | ref name => exact h.values name
  | handle name =>
      have hSame :
          on.findVariable name = off.findVariable name := by
        unfold Names.findVariable
        rw [h.locals]
      simp only [Operand.eval, hSame]
      apply alike_of_typed
      intro v hv
      rcases bind_eq_ok.mp hv with ⟨w, hw, hv⟩
      cases hv
      exact h.handles name w hw

end FlowGraph.Script

------------------------------------------------------------
-- Calls Of Operators
------------------------------------------------------------

namespace FlowGraph.Script

/- An operator on operands of their types. -/
def Action.isOperator : Action → Bool
  | .binary _ x y => x.typed && y.typed
  | .unary _ x => x.typed
  | _ => false

/- The type of what a call of an operator yields. -/
def Action.yields
    (names : Names) :
    Action → Option ValueType
  | .binary op x y =>
      match x.eval names, y.eval names with
      | .ok v, .ok w => op.yields v w
      | _, _ => none
  | .unary op x =>
      match x.eval names with
      | .ok v => op.yields v
      | .error _ => none
  | _ => none

/- The call yields a value of the type, or is refused. -/
def Session.Gives
    (s : Session)
    (path : Path)
    (bind : Binding)
    (a : Action) :
    Option ValueType → Prop
  | some t =>
      ∃ r b',
        runStmt path (.action bind a) s =
          (.ok (), (s.withBuilder b').finish path bind
            (.value r)) ∧
        s.builder.Computed t r ∧ b'.config = s.builder.config
  | none =>
      ∃ e s', runStmt path (.action bind a) s = (.error e, s')

variable {s : Session} {path : Path} {bind : Binding}
variable {a : Action}

/- A call is what its step is. -/
theorem gives_of_prepare
    {m : Build Value}
    {t : Option ValueType}
    (hStep : a.prepare s.names = .ok (Action.ofValue m))
    (hGives : s.builder.Gives m t) :
    s.Gives path bind a t := by
  have hRun := Process.meets_self
    (journaled path bind a.run) s
  rw [meets_journaled] at hRun
  unfold Action.run at hRun
  rw [Process.meets_bind, meets_resolved] at hRun
  have hBuild := meets_build.mp (hRun.1 _ hStep)
  unfold Action.ofValue at hBuild
  rw [Process.meets_bind] at hBuild
  cases t with
  | some t =>
      rcases hGives with ⟨r, b', hEq, hComputed, hConfig⟩
      refine ⟨r, b', ?_, hComputed, hConfig⟩
      exact hBuild.of_ok hEq
  | none =>
      rcases hGives with ⟨e, hEq⟩
      exact ⟨e, _, hBuild.of_error hEq⟩

/- A call whose operands are refused is refused. -/
theorem gives_of_error
    {e : Error}
    (hStep : a.prepare s.names = .error e) :
    s.Gives path bind a none := by
  have hRun := Process.meets_self
    (journaled path bind a.run) s
  rw [meets_journaled] at hRun
  unfold Action.run at hRun
  rw [Process.meets_bind, meets_resolved] at hRun
  exact ⟨e, _, hRun.2 e hStep⟩

/- What a call yields is known from its types. -/
theorem gives_action
    (hOperator : a.isOperator = true)
    (hTyped :
      ∀ o : Operand, o.typed = true →
        ∀ v, o.eval s.names = .ok v → v.Typed) :
    s.Gives path bind a (a.yields s.names) := by
  cases a with
  | binary op x y =>
      rcases Bool.and_eq_true_iff.mp hOperator with
        ⟨hx, hy⟩
      simp only [Action.yields]
      cases hv : x.eval s.names with
      | error e =>
          apply gives_of_error (e := e)
          simp only [Action.prepare, hv]
          rfl
      | ok v =>
          cases hw : y.eval s.names with
          | error e =>
              apply gives_of_error (e := e)
              simp only [Action.prepare, hv, hw]
              rfl
          | ok w =>
              apply gives_of_prepare
                (m := Builder.binary op v w)
              · simp only [Action.prepare, hv, hw]
                rfl
              · exact gives_binary (hTyped x hx v hv)
                  (hTyped y hy w hw)
  | unary op x =>
      simp only [Action.yields]
      cases hv : x.eval s.names with
      | error e =>
          apply gives_of_error (e := e)
          simp only [Action.prepare, hv]
          rfl
      | ok v =>
          apply gives_of_prepare (m := Builder.unary op v)
          · simp only [Action.prepare, hv]
            rfl
          · exact gives_unary (hTyped x hOperator v hv)
  | _ => cases hOperator

/-
  A call that only folding admits: a whole number that is
  folded meets a float.
-/
def Action.Mixes
    (on off : Names)
    (a : Action) :
    Prop :=
  ∃ op x y v w v' w',
    a = .binary op x y ∧
      x.eval on = .ok v ∧ y.eval on = .ok w ∧
      x.eval off = .ok v' ∧ y.eval off = .ok w' ∧
      (v.FoldsToInt v' ∧ w.type = .float ∨
        w.FoldsToInt w' ∧ v.type = .float)

/- Folding changes what a call yields only for mixed calls. -/
theorem yields_of_computes
    {on off : Names}
    (h : on.Computes off)
    (hOperator : a.isOperator = true) :
    a.yields on = a.yields off ∨
      a.yields off = none ∧ a.Mixes on off := by
  cases a with
  | binary op x y =>
      rcases Bool.and_eq_true_iff.mp hOperator with
        ⟨hx, hy⟩
      have hLeft := h.eval hx
      have hRight := h.eval hy
      simp only [Action.yields, Action.Mixes]
      generalize hv : x.eval on = r at *
      generalize hv' : x.eval off = r' at *
      generalize hw : y.eval on = q at *
      generalize hw' : y.eval off = q' at *
      cases hLeft with
      | refused => exact Or.inl rfl
      | yields hLeft =>
          cases hRight with
          | refused => exact Or.inl rfl
          | yields hRight =>
              rcases meet_of_computes hLeft hRight with
                hSame | ⟨_, hNone, hMixed⟩
              · left
                simp only [BinaryOp.yields, hSame]
              · right
                refine ⟨?_, op, x, y, _, _, _, _, rfl,
                  ?_, ?_, ?_, ?_, hMixed⟩
                · simp only [BinaryOp.yields, hNone]
                  rfl
                all_goals assumption
  | unary op x =>
      have hOperand := h.eval hOperator
      simp only [Action.yields]
      generalize x.eval on = r at *
      generalize x.eval off = r' at *
      cases hOperand with
      | refused => exact Or.inl rfl
      | yields hOperand =>
          left
          simp only [UnaryOp.yields, hOperand.type]
  | _ => cases hOperator

end FlowGraph.Script

------------------------------------------------------------
-- Runs With And Without Folding
------------------------------------------------------------

namespace FlowGraph.Script

/- A statement that applies an operator. -/
def Stmt.isOperator : Stmt → Bool
  | .action _ a => a.isOperator
  | _ => false

/- The statement is a call that only folding admits. -/
def Stmt.Mixes
    (on off : Names)
    (st : Stmt) :
    Prop :=
  ∃ bind a, st = .action bind a ∧ a.Mixes on off

/- The session with folding switched on or off. -/
def Session.folding
    (s : Session)
    (enabled : Bool) :
    Session :=
  s.withBuilder
    { s.builder with
      config :=
        { s.builder.config with precompute := enabled } }

/- The place of an entry and the type of its value. -/
def Entry.typeAt
    (e : Entry) :
    Path × Option ValueType :=
  (e.path,
    match e.event with
    | .finished (.value v) => some v.type
    | _ => none)

/- A statement is accepted. -/
def Session.Admits
    (s : Session)
    (path : Path)
    (st : Stmt) :
    Prop :=
  ∃ s', runStmt path st s = (.ok (), s')

/- A statement is refused. -/
def Session.Rejects
    (s : Session)
    (path : Path)
    (st : Stmt) :
    Prop :=
  ∃ e s', runStmt path st s = (.error e, s')

/- Sessions with and without folding. -/
structure Session.Computes
    (on off : Session) :
    Prop where
  names : on.names.Computes off.names
  types :
    on.journal.map Entry.typeAt = off.journal.map Entry.typeAt
  unfolded : off.builder.config.precompute = false

variable {s on off : Session} {path : Path} {bind : Binding}
variable {a : Action}

theorem computes_folding
    (h : s.names.Typed) :
    (s.folding true).Computes (s.folding false) :=
  ⟨h.computes, rfl, rfl⟩

/- What operands with and without folding come to. -/
theorem Names.Computes.typed
    {on off : Names}
    (h : on.Computes off)
    (o : Operand)
    (ho : o.typed = true) :
    (∀ v, o.eval on = .ok v → v.Typed) ∧
      ∀ w, o.eval off = .ok w → w.Typed := by
  have hAlike := h.eval ho
  generalize o.eval on = r at *
  generalize o.eval off = r' at *
  cases hAlike with
  | refused => exact ⟨nofun, nofun⟩
  | yields hComputes =>
      constructor
      · intro v hv
        cases hv
        exact hComputes.typed
      · intro w hw
        cases hw
        exact hComputes.typed_right

/- Both yield values of one type, which may be named. -/
theorem Session.Computes.finish
    (h : on.Computes off)
    {t : ValueType}
    {v w : Value}
    {b c : Builder}
    (hv : on.builder.Computed t v)
    (hw : off.builder.Computed t w)
    (hConfig : c.config = off.builder.config) :
    ((on.withBuilder b).finish path bind (.value v)).Computes
      ((off.withBuilder c).finish path bind (.value w)) := by
  have hComputes : v.Computes w := by
    refine ⟨hv.type.trans hw.type.symm, ?_, hv.typed⟩
    intro hLiteral
    rw [hw.pin h.unfolded] at hLiteral
    cases hLiteral
  refine ⟨h.names.keep bind hComputes, ?_, ?_⟩
  · show _ :: on.journal.map Entry.typeAt =
      _ :: off.journal.map Entry.typeAt
    rw [h.types]
    simp only [Entry.typeAt, hComputes.type]
  · show c.config.precompute = false
    rw [hConfig]
    exact h.unfolded

/- One call with and without folding. -/
theorem Session.Computes.step
    (h : on.Computes off)
    (path : Path)
    {st : Stmt}
    (hOperator : st.isOperator = true) :
    (∃ on' off',
      runStmt path st on = (.ok (), on') ∧
        runStmt path st off = (.ok (), off') ∧
          on'.Computes off') ∨
      off.Rejects path st ∧
        (on.Rejects path st ∨
          on.Admits path st ∧
            st.Mixes on.names off.names) := by
  cases st with
  | action bind a =>
      have hOn : on.Gives path bind a (a.yields on.names) :=
        gives_action hOperator fun o ho =>
          (h.names.typed o ho).1
      have hOff :
          off.Gives path bind a (a.yields off.names) :=
        gives_action hOperator fun o ho =>
          (h.names.typed o ho).2
      rcases yields_of_computes h.names hOperator with
        hSame | ⟨hNone, hMixes⟩
      · rw [hSame] at hOn
        cases hYields : a.yields off.names with
        | none =>
            rw [hYields] at hOn hOff
            exact Or.inr ⟨hOff, Or.inl hOn⟩
        | some t =>
            rw [hYields] at hOn hOff
            rcases hOn with ⟨v, b, hOn, hv, _⟩
            rcases hOff with ⟨w, c, hOff, hw, hConfig⟩
            exact Or.inl ⟨_, _, hOn, hOff,
              h.finish hv hw hConfig⟩
      · rw [hNone] at hOff
        refine Or.inr ⟨hOff, ?_⟩
        cases hYields : a.yields on.names with
        | none =>
            rw [hYields] at hOn
            exact Or.inl hOn
        | some t =>
            rw [hYields] at hOn
            rcases hOn with ⟨_, _, hOn, _⟩
            exact Or.inr ⟨⟨_, hOn⟩, bind, a, rfl, hMixes⟩
  | _ => cases hOperator

/-
  What becomes of calls with and without folding: the first
  ones are accepted, and the next one, if any, is refused
  without folding.
-/
theorem Session.Computes.calls
    (h : on.Computes off)
    (path : Path)
    {block : List Stmt}
    (i : Nat)
    (hOperators : ∀ st ∈ block, st.isOperator = true) :
    ∃ done rest on' off',
      block = done ++ rest ∧
      runBlock path i done on = (.ok (), on') ∧
      runBlock path i done off = (.ok (), off') ∧
      on'.Computes off' ∧
      ∀ st, rest.head? = some st →
        let place := path ++ [.statement (i + done.length)]
        off'.Rejects place st ∧
          (on'.Rejects place st ∨
            on'.Admits place st ∧
              st.Mixes on'.names off'.names) := by
  induction block generalizing i on off with
  | nil =>
      exact ⟨[], [], on, off, rfl, rfl, rfl, h, nofun⟩
  | cons first rest ih =>
      rcases h.step (path ++ [.statement i])
          (hOperators first List.mem_cons_self) with
        ⟨on₁, off₁, hOn, hOff, hNext⟩ | hRejects
      · rcases ih hNext (i + 1) fun st hst =>
            hOperators st (List.mem_cons_of_mem _ hst) with
          ⟨done, left, on', off', hBlock, hOnRest, hOffRest,
            hLast, hHead⟩
        refine ⟨first :: done, left, on', off', ?_, ?_, ?_,
          hLast, ?_⟩
        · rw [hBlock]
          rfl
        · rw [runBlock]
          exact (Process.bind_of_ok hOn _).trans hOnRest
        · rw [runBlock]
          exact (Process.bind_of_ok hOff _).trans hOffRest
        · intro st hst
          have hPlace :
              i + (first :: done).length =
                i + 1 + done.length := by
            rw [List.length_cons]
            omega
          rw [hPlace]
          exact hHead st hst
      · refine ⟨[], first :: rest, on, off, rfl, rfl, rfl, h,
          ?_⟩
        intro st hst
        cases hst
        exact hRejects

/-
  Calls of operators are accepted and yield the same types
  with folding and without, up to the first call that is
  refused.  It is refused either way, unless it is a call in
  which a whole number that is folded meets a float: folding
  admits it, and without folding it is refused.
-/
theorem folding_admits_mixed_only
    (s : Session)
    (path : Path)
    (i : Nat)
    (block : List Stmt)
    (hNames : s.names.Typed)
    (hOperators : ∀ st ∈ block, st.isOperator = true) :
    ∃ done rest on off,
      block = done ++ rest ∧
      runBlock path i done (s.folding true) = (.ok (), on) ∧
      runBlock path i done (s.folding false) =
        (.ok (), off) ∧
      on.entries.map Entry.typeAt =
        off.entries.map Entry.typeAt ∧
      ∀ st, rest.head? = some st →
        let place := path ++ [.statement (i + done.length)]
        off.Rejects place st ∧
          (on.Rejects place st ∨
            on.Admits place st ∧
              st.Mixes on.names off.names) := by
  rcases (computes_folding hNames).calls path i
      hOperators with
    ⟨done, rest, on, off, hBlock, hOn, hOff, hComputes,
      hHead⟩
  refine ⟨done, rest, on, off, hBlock, hOn, hOff, ?_, hHead⟩
  unfold Session.entries
  rw [List.map_reverse, List.map_reverse, hComputes.types]

/- A sum of whole numbers, to which a float is added. -/
def mixedSum : List Stmt :=
  [.action ⟨some "x", none⟩
      (.binary .add (.value (.int 1)) (.value (.int 2))),
    .action .none
      (.binary .add (.ref "x") (.value (.float 1)))]

/- Folding admits the sum, and only folding does. -/
theorem mixed_sum_needs_folding :
    let s := Session.new "sum" .default
    (∀ st ∈ mixedSum, st.isOperator = true) ∧
      (runBlock [] 0 mixedSum (s.folding true)).1.isOk =
        true ∧
      (runBlock [] 0 mixedSum (s.folding false)).1.isOk =
        false ∧
      ∃ done rest on off,
        mixedSum = done ++ rest ∧
        runBlock [] 0 done (s.folding true) = (.ok (), on) ∧
        runBlock [] 0 done (s.folding false) =
          (.ok (), off) ∧
        on.entries.map Entry.typeAt =
          off.entries.map Entry.typeAt ∧
        ∀ st, rest.head? = some st →
          let place := [.statement (0 + done.length)]
          off.Rejects place st ∧
            (on.Rejects place st ∨
              on.Admits place st ∧
                st.Mixes on.names off.names) := by
  have hOperators :
      ∀ st ∈ mixedSum, st.isOperator = true := by
    decide +kernel
  refine ⟨hOperators, by decide +kernel, by decide +kernel,
    ?_⟩
  exact folding_admits_mixed_only (.new "sum" .default) [] 0
    mixedSum typed_empty hOperators

end FlowGraph.Script
