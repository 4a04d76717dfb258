import FlowGraph.Proofs.Documents
import FlowGraph.Proofs.Folding

/-
  Folding against the node that it saves.

  An operator that is folded adds no node and yields a
  literal of the type that the output of the node would have
  had.  On whole numbers, truth values and text the literal
  is the exact result, and where there is no exact result
  that fits, the node is added as if folding were off.

  Key definitions include:
    * `FlowGraph.BinaryOp.integer?`
    * `FlowGraph.BinaryOp.Relates`
    * `FlowGraph.BinaryOp.Exact`
    * `FlowGraph.UnaryOp.Exact`
    * `FlowGraph.Builder.Unaffected`
    * `FlowGraph.Builder.FoldsTo`

  Key theorems include:
    * `FlowGraph.literals_exact`
    * `FlowGraph.BinaryOp.folded_exact`
    * `FlowGraph.UnaryOp.folded_exact`
    * `FlowGraph.Builder.folding_agrees`
-/

------------------------------------------------------------
-- Exact Results
------------------------------------------------------------

namespace FlowGraph

/- The literal is a given whole number. -/
def Literal.IsInt
    (l : Literal)
    (i : Int) :
    Prop :=
  ∃ x : Int64, l = .int x ∧ x.toInt = i

/- The literal is the truth value of a statement. -/
def Literal.Says
    (l : Literal)
    (p : Prop) :
    Prop :=
  ∃ c, l = .bool c ∧ (c = true ↔ p)

/- If the literal is a float, it is a finite number. -/
def Literal.Regular
    (l : Literal) :
    Prop :=
  ∀ z, l = .float z → z.isNaN = false ∧ z.isInf = false

namespace BinaryOp

/-
  Arithmetic on integers.  A quotient is rounded toward
  zero, so that a remainder has the sign of its dividend.
  There is neither for the divisor zero.
-/
def integer? : BinaryOp → Int → Int → Option Int
  | .add, x, y => some (x + y)
  | .sub, x, y => some (x - y)
  | .mul, x, y => some (x * y)
  | .div, x, y => if y = 0 then none else some (x.tdiv y)
  | .mod, x, y => if y = 0 then none else some (x.tmod y)
  | _, _, _ => none

/- What a comparison says about integers. -/
def Relates : BinaryOp → Int → Int → Prop
  | .eq, x, y => x = y
  | .ne, x, y => x ≠ y
  | .lt, x, y => x < y
  | .le, x, y => x ≤ y
  | .gt, x, y => y < x
  | .ge, x, y => y ≤ x
  | _, _, _ => False

/- What an operator says about truth values. -/
def Connects : BinaryOp → Bool → Bool → Prop
  | .and, x, y => x = true ∧ y = true
  | .or, x, y => x = true ∨ y = true
  | .xor, x, y => x ≠ y
  | .eq, x, y => x = y
  | .ne, x, y => x ≠ y
  | _, _, _ => False

/- What an operator says about texts. -/
def Tells : BinaryOp → String → String → Prop
  | .eq, x, y => x = y
  | .ne, x, y => x ≠ y
  | _, _, _ => False

/- The exact result on whole numbers. -/
def OnInts
    (op : BinaryOp)
    (x y : Int64)
    (l : Literal) :
    Prop :=
  if op.isArithmetic then
    ∃ i, op.integer? x.toInt y.toInt = some i ∧ l.IsInt i
  else
    l.Says (op.Relates x.toInt y.toInt)

/-
  The literal is exact where the operands are whole numbers,
  truth values or text.
-/
structure Exact
    (op : BinaryOp)
    (x y : Literal)
    (l : Literal) :
    Prop where
  ints :
    ∀ {i k}, x = .int i → y = .int k → op.OnInts i k l
  bools :
    ∀ {c d}, x = .bool c → y = .bool d →
      l.Says (op.Connects c d)
  strs :
    ∀ {s t}, x = .str s → y = .str t →
      l.Says (op.Tells s t)
  regular : l.Regular

/-
  The operands are whole numbers whose exact result is not
  one of 64 bits, or that have none.
-/
def Unfit
    (op : BinaryOp)
    (x y : Literal) :
    Prop :=
  op.isArithmetic ∧
    ∃ i k : Int64, x = .int i ∧ y = .int k ∧
      ∀ r, op.integer? i.toInt k.toInt = some r →
        r < Int64.minValue.toInt ∨ Int64.maxValue.toInt < r

end BinaryOp

namespace UnaryOp

/- Arithmetic on an integer. -/
def integer? : UnaryOp → Int → Option Int
  | .neg, x => some (-x)
  | .abs, x => some x.natAbs
  | .not, _ => none

/- The same for an operator with one operand. -/
structure Exact
    (op : UnaryOp)
    (x : Literal)
    (l : Literal) :
    Prop where
  ints :
    ∀ {i}, x = .int i →
      ∃ r, op.integer? i.toInt = some r ∧ l.IsInt r
  bools :
    ∀ {c}, x = .bool c → op = .not ∧ l.Says (c = false)
  regular : l.Regular

/- The operand is a whole number without such a result. -/
def Unfit
    (op : UnaryOp)
    (x : Literal) :
    Prop :=
  ∃ i : Int64, x = .int i ∧
    ∀ r, op.integer? i.toInt = some r →
      r < Int64.minValue.toInt ∨ Int64.maxValue.toInt < r

end UnaryOp

end FlowGraph

------------------------------------------------------------
-- Evaluation Of Literals
------------------------------------------------------------

namespace FlowGraph

variable {r : Value}

/- A word holds the integer that it is made of. -/
theorem toInt_of_ofInt?
    {i : Int}
    {x : Int64}
    (h : Number.Word.ofInt? i = some x) :
    x.toInt = i := by
  unfold Number.Word.ofInt? at h
  split at h
  · rename_i hFits
    cases h
    have hLow : -2 ^ 63 ≤ i := hFits.1
    have hHigh : i ≤ 2 ^ 63 - 1 := hFits.2
    exact Int64.toInt_ofInt_of_le hLow (by omega)
  · cases h

theorem toInt_ne_zero
    {x : Int64}
    (h : x ≠ 0) :
    x.toInt ≠ 0 := by
  intro hZero
  exact h (Int64.toInt_inj.mp hZero)

/- An integer that is held by a word is an exact result. -/
theorem exact_of_ofInt?
    {i : Int}
    (h : (Number.Word.ofInt? i).map Value.int = some r) :
    ∃ l, r.literal? = some l ∧ l.IsInt i := by
  rcases Option.map_eq_some_iff.mp h with ⟨x, hx, hr⟩
  exact ⟨.int x, by rw [← hr]; rfl, x, rfl,
    toInt_of_ofInt? hx⟩

/- A float that is folded is finite. -/
theorem regular_of_finite?
    {x : Float}
    (h : Folding.finite? x = some r) :
    ∃ l, r.literal? = some l ∧ l.Regular := by
  unfold Folding.finite? at h
  split at h
  · rename_i hFinite
    cases h
    refine ⟨.float x, rfl, ?_⟩
    intro z hz
    cases hz
    unfold Float.isFinite Float.Model.isFinite at hFinite
    unfold Float.isNaN Float.isInf
    unfold Float.Model.isNaN Float.Model.isInf
    cases hx : x.toModel.unpack with
    | notANumber =>
        rw [hx] at hFinite
        cases hFinite
    | infinity sign =>
        rw [hx] at hFinite
        cases hFinite
    | zero sign => exact ⟨rfl, rfl⟩
    | finite sign mantissa exponent hPos => exact ⟨rfl, rfl⟩
  · cases h

/- Whole numbers are compared as integers. -/
theorem compared_exact
    {op : BinaryOp}
    {x y : Int}
    (h :
      (Folding.compared op (compare x y)).map Value.bool =
        some r) :
    ∃ l, r.literal? = some l ∧ l.Says (op.Relates x y) := by
  rcases Option.map_eq_some_iff.mp h with ⟨c, hc, hr⟩
  refine ⟨.bool c, by rw [← hr]; rfl, c, rfl, ?_⟩
  have hOrder :
      compare x y =
        if x < y then .lt else if x = y then .eq else .gt :=
    rfl
  unfold Folding.compared at hc
  rw [hOrder] at hc
  by_cases hLt : x < y
  · rw [if_pos hLt] at hc
    cases op <;> cases hc <;> simp [BinaryOp.Relates] <;> omega
  · rw [if_neg hLt] at hc
    by_cases hEq : x = y
    · rw [if_pos hEq] at hc
      cases op <;> cases hc <;> simp [BinaryOp.Relates] <;> omega
    · rw [if_neg hEq] at hc
      cases op <;> cases hc <;> simp [BinaryOp.Relates] <;> omega

/- An operator on whole numbers is folded exactly. -/
theorem ints_exact
    {op : BinaryOp}
    {x y : Int64}
    (h : Folding.ints op x y = some r) :
    ∃ l, r.literal? = some l ∧ op.OnInts x y l := by
  cases op with
  | add | sub | mul =>
      rcases exact_of_ofInt? h with ⟨l, hl, hExact⟩
      exact ⟨l, hl, _, rfl, hExact⟩
  | div =>
      have hDiv : (Number.Word.div? x y).map Value.int = some r :=
        h
      unfold Number.Word.div? at hDiv
      split at hDiv
      · cases hDiv
      · rename_i hNonzero
        rcases exact_of_ofInt? hDiv with ⟨l, hl, hExact⟩
        exact ⟨l, hl, _, if_neg (toInt_ne_zero hNonzero),
          hExact⟩
  | mod =>
      have hMod : (Number.Word.rem? x y).map Value.int = some r :=
        h
      rcases Option.map_eq_some_iff.mp hMod with ⟨i, hi, hr⟩
      rcases Option.bind_eq_some_iff.mp hi with ⟨q, hq, hRem⟩
      unfold Number.Word.div? at hq
      split at hq
      · cases hq
      · rename_i hNonzero
        exact ⟨.int i, by rw [← hr]; rfl, _,
          if_neg (toInt_ne_zero hNonzero), i, rfl,
          toInt_of_ofInt? hRem⟩
  | _ => exact compared_exact h

/- An operator on truth values is folded exactly. -/
theorem bools_exact
    {op : BinaryOp}
    {x y : Bool}
    (h : Folding.bools op x y = some r) :
    ∃ l, r.literal? = some l ∧ l.Says (op.Connects x y) := by
  cases op with
  | and =>
      cases h
      exact ⟨_, rfl, _, rfl, Bool.and_eq_true_iff⟩
  | or =>
      cases h
      exact ⟨_, rfl, _, rfl, Bool.or_eq_true_iff⟩
  | xor | ne =>
      cases h
      exact ⟨_, rfl, _, rfl, bne_iff_ne⟩
  | eq =>
      cases h
      exact ⟨_, rfl, _, rfl, beq_iff_eq⟩
  | _ => cases h

/- An operator on text is folded exactly. -/
theorem strs_exact
    {op : BinaryOp}
    {x y : String}
    (h : Folding.strs op x y = some r) :
    ∃ l, r.literal? = some l ∧ l.Says (op.Tells x y) := by
  cases op with
  | eq =>
      cases h
      exact ⟨_, rfl, _, rfl, beq_iff_eq⟩
  | ne =>
      cases h
      exact ⟨_, rfl, _, rfl, bne_iff_ne⟩
  | _ => cases h

/- A float or the answer to a comparison of floats. -/
theorem floats_regular
    {op : BinaryOp}
    {x y : Float}
    (h : Folding.floats op x y = some r) :
    ∃ l, r.literal? = some l ∧ l.Regular := by
  cases op with
  | add | sub | mul | div | mod =>
      exact regular_of_finite? h
  | _ =>
      rcases Option.bind_eq_some_iff.mp h with ⟨o, _, hMap⟩
      rcases Option.map_eq_some_iff.mp hMap with ⟨c, _, hr⟩
      exact ⟨.bool c, by rw [← hr]; rfl, nofun⟩

/- A whole number of 64 bits is neither too small nor too large. -/
theorem Literal.IsInt.fits
    {l : Literal}
    {i : Int}
    (h : l.IsInt i) :
    ¬(i < Int64.minValue.toInt ∨
      Int64.maxValue.toInt < i) := by
  rcases h with ⟨x, _, hx⟩
  have hLow := x.minValue_le_toInt
  have hHigh := x.toInt_le
  omega

/- There is no exact result where none fits. -/
theorem BinaryOp.Unfit.not_exact
    {op : BinaryOp}
    {x y l : Literal}
    (h : op.Unfit x y) :
    ¬op.Exact x y l := by
  rcases h with ⟨hArithmetic, i, k, hx, hy, hUnfit⟩
  intro hExact
  have hInts := hExact.ints hx hy
  unfold BinaryOp.OnInts at hInts
  rw [if_pos hArithmetic] at hInts
  rcases hInts with ⟨r, hr, hInt⟩
  exact hInt.fits (hUnfit r hr)

theorem UnaryOp.Unfit.not_exact
    {op : UnaryOp}
    {x l : Literal}
    (h : op.Unfit x) :
    ¬op.Exact x l := by
  rcases h with ⟨i, hx, hUnfit⟩
  intro hExact
  rcases hExact.ints hx with ⟨r, hr, hInt⟩
  exact hInt.fits (hUnfit r hr)

/- The answer of a comparison is not a float. -/
theorem Literal.Says.regular
    {l : Literal}
    {p : Prop}
    (h : l.Says p) :
    l.Regular := by
  rcases h with ⟨c, hl, _⟩
  intro z hz
  rw [hl] at hz
  cases hz

/- A whole number is not a float. -/
theorem Literal.IsInt.regular
    {l : Literal}
    {i : Int}
    (h : l.IsInt i) :
    l.Regular := by
  rcases h with ⟨x, hl, _⟩
  intro z hz
  rw [hl] at hz
  cases hz

/- A result on whole numbers is not a float. -/
theorem BinaryOp.OnInts.regular
    {op : BinaryOp}
    {x y : Int64}
    {l : Literal}
    (h : op.OnInts x y l) :
    l.Regular := by
  unfold BinaryOp.OnInts at h
  split at h
  · rcases h with ⟨i, _, hInt⟩
    exact hInt.regular
  · exact h.regular

/- What two literals are folded to is exact. -/
theorem literals_exact
    {op : BinaryOp}
    {x y : Literal}
    (h : Folding.literals op x y = some r) :
    ∃ l, r.literal? = some l ∧ op.Exact x y l := by
  unfold Folding.literals at h
  split at h
  · rcases ints_exact h with ⟨l, hl, hExact⟩
    refine ⟨l, hl, ?_, nofun, nofun, hExact.regular⟩
    intro i k hi hk
    cases hi
    cases hk
    exact hExact
  · rcases floats_regular h with ⟨l, hl, hRegular⟩
    exact ⟨l, hl, nofun, nofun, nofun, hRegular⟩
  · rcases bools_exact h with ⟨l, hl, hSays⟩
    refine ⟨l, hl, nofun, ?_, nofun, hSays.regular⟩
    intro c d hc hd
    cases hc
    cases hd
    exact hSays
  · rcases strs_exact h with ⟨l, hl, hSays⟩
    refine ⟨l, hl, nofun, nofun, ?_, hSays.regular⟩
    intro c d hc hd
    cases hc
    cases hd
    exact hSays
  · cases h

/- What a literal is folded to is exact. -/
theorem literal_exact
    {op : UnaryOp}
    {x : Literal}
    (h : Folding.literal op x = some r) :
    ∃ l, r.literal? = some l ∧ op.Exact x l := by
  have hInts :
      ∀ {i : Int64} {k : Int},
        op.integer? i.toInt = some k →
        (Number.Word.ofInt? k).map Value.int = some r →
        ∃ l, r.literal? = some l ∧ op.Exact (.int i) l := by
    intro i k hk hWord
    rcases exact_of_ofInt? hWord with ⟨l, hl, hInt⟩
    refine ⟨l, hl, ?_, ?_, hInt.regular⟩
    · intro i' hi
      cases hi
      exact ⟨k, hk, hInt⟩
    · intro c hc
      cases hc
  have hFloats :
      ∀ {x z : Float}, Folding.finite? z = some r →
        ∃ l, r.literal? = some l ∧ op.Exact (.float x) l := by
    intro x z hz
    rcases regular_of_finite? hz with ⟨l, hl, hRegular⟩
    refine ⟨l, hl, ?_, ?_, hRegular⟩
    · intro i hi
      cases hi
    · intro c hc
      cases hc
  unfold Folding.literal at h
  split at h
  · exact hInts rfl h
  · exact hFloats h
  · exact hInts rfl h
  · exact hFloats h
  · rename_i c
    cases h
    have hSays : (Literal.bool !c).Says (c = false) :=
      ⟨!c, rfl, by rw [Bool.not_eq_true']⟩
    refine ⟨.bool !c, rfl, ?_, ?_, hSays.regular⟩
    · intro i hi
      cases hi
    · intro c' hc
      cases hc
      exact ⟨rfl, hSays⟩
  · cases h

end FlowGraph

------------------------------------------------------------
-- Operands
------------------------------------------------------------

namespace FlowGraph

variable {v w v' w' r : Value}

/- Constructors make literals of their types. -/
theorem Value.Made.typed
    (h : v.Made) :
    v.Typed :=
  fun _ hl => h.conform hl

/- A whole number is written down as one. -/
theorem int_of_typed
    (hTyped : v.Typed)
    (hType : v.type = .int)
    {l : Literal}
    (hl : v.literal? = some l) :
    ∃ i, l = .int i := by
  have hConform := hTyped l hl
  rw [hType] at hConform
  cases l with
  | int i => exact ⟨i, rfl⟩
  | _ => cases hConform

/- A float is written down as one. -/
theorem float_of_typed
    (hTyped : v.Typed)
    (hType : v.type = .float)
    {l : Literal}
    (hl : v.literal? = some l) :
    ∃ z, l = .float z := by
  have hConform := hTyped l hl
  rw [hType] at hConform
  cases l with
  | float z => exact ⟨z, rfl⟩
  | _ => cases hConform

/- A value stays as it is unless it is widened to a float. -/
theorem widen_cases
    (hv : v.Typed)
    (h : v.widen w = .ok v') :
    v' = v ∨
      (v.type = .int ∧ w.type = .float ∧
        (∃ x, v' = .float x) ∧
        ∃ i, v.literal? = some (.int i)) := by
  by_cases hMixed :
      v.type = .int ∧ v.isLiteral = true ∧ w.type = .float
  · rcases hMixed with ⟨hInt, hLiteral, hFloat⟩
    rcases widen_int hv hInt hLiteral hFloat with ⟨x, hx⟩
    rw [hx] at h
    cases h
    rcases Option.isSome_iff_exists.mp hLiteral with ⟨l, hl⟩
    rcases int_of_typed hv hInt hl with ⟨i, hi⟩
    rw [hi] at hl
    exact Or.inr ⟨hInt, hFloat, ⟨x, rfl⟩, i, hl⟩
  · rw [widen_other hMixed] at h
    cases h
    exact Or.inl rfl

/- A widened value is one of its type. -/
theorem typed_widen
    (hv : v.Typed)
    (h : v.widen w = .ok v') :
    v'.Typed := by
  rcases widen_cases hv h with hSame | ⟨_, _, ⟨x, hx⟩, _⟩
  · rw [hSame]
    exact hv
  · rw [hx]
    intro l hl
    cases hl
    rfl

namespace BinaryOp

variable {op : BinaryOp} {x y l : Literal}

/- Nothing but finiteness is asked where a float is met. -/
theorem Exact.of_float
    (hFloat : (∃ z, x = .float z) ∨ ∃ z, y = .float z)
    (hRegular : l.Regular) :
    op.Exact x y l := by
  rcases hFloat with ⟨z, hz⟩ | ⟨z, hz⟩
  · rw [hz]
    exact ⟨nofun, nofun, nofun, hRegular⟩
  · rw [hz]
    exact ⟨nofun, nofun, nofun, hRegular⟩

/- The checked operands are what widening has left. -/
theorem widen_of_operands
    (h : op.operands v w = .ok (v', w')) :
    v.widen w = .ok v' ∧ w.widen v' = .ok w' ∧
      op.checkOperand v' = .ok () := by
  rcases bind_eq_ok.mp h with ⟨v₁, hv, h⟩
  rcases bind_eq_ok.mp h with ⟨w₁, hw, h⟩
  rcases bind_eq_ok.mp h with ⟨_, _, h⟩
  rcases bind_eq_ok.mp h with ⟨_, hCheck, hEq⟩
  cases hEq
  exact ⟨hv, hw, hCheck⟩

/- Operands that are folded are literals, and so is the result. -/
theorem folded_exact
    (hv : v.Typed)
    (hw : w.Typed)
    (hOperands : op.operands v w = .ok (v', w'))
    (h : Folding.binary true op v' w' = some r) :
    ∃ x y l, v.literal? = some x ∧ w.literal? = some y ∧
      r.literal? = some l ∧ op.Exact x y l := by
  rcases widen_of_operands hOperands with ⟨hLeft, hRight, _⟩
  unfold Folding.binary at h
  split at h
  · rcases Option.bind_eq_some_iff.mp h with ⟨x, hx, h⟩
    rcases Option.bind_eq_some_iff.mp h with ⟨y, hy, h⟩
    rcases literals_exact h with ⟨l, hl, hExact⟩
    rcases widen_cases hv hLeft with
      hSame | ⟨_, hFloat, _, i, hi⟩
    · rw [hSame] at hx hRight
      rcases widen_cases hw hRight with
        hSame' | ⟨_, hFloat, _, k, hk⟩
      · rw [hSame'] at hy
        exact ⟨x, y, l, hx, hy, hl, hExact⟩
      · exact ⟨x, .int k, l, hx, hk, hl,
          .of_float (Or.inl (float_of_typed hv hFloat hx))
            hExact.regular⟩
    · rcases widen_cases hw hRight with
        hSame' | ⟨hInt, _⟩
      · rw [hSame'] at hy
        exact ⟨.int i, y, l, hi, hy, hl,
          .of_float (Or.inr (float_of_typed hw hFloat hy))
            hExact.regular⟩
      · rw [hFloat] at hInt
        cases hInt
  · cases h

end BinaryOp

/- The same for an operator with one operand. -/
theorem UnaryOp.folded_exact
    {op : UnaryOp}
    (h : Folding.unary true op v = some r) :
    ∃ x l, v.literal? = some x ∧ r.literal? = some l ∧
      op.Exact x l := by
  unfold Folding.unary at h
  rw [if_pos rfl] at h
  rcases Option.bind_eq_some_iff.mp h with ⟨x, hx, h⟩
  rcases literal_exact h with ⟨l, hl, hExact⟩
  exact ⟨x, l, hx, hl, hExact⟩

end FlowGraph

------------------------------------------------------------
-- Builders With And Without Folding
------------------------------------------------------------

namespace FlowGraph.Builder

/- The builder with folding switched on or off. -/
def folding
    (b : Builder)
    (enabled : Bool) :
    Builder :=
  { b with config := { b.config with precompute := enabled } }

/-
  Folding does not matter to a step: it has the same outcome
  and does the same to the graph and the frame.
-/
def Unaffected
    (b : Builder)
    (m : Build Value) :
    Prop :=
  ∃ (outcome : Except Error Value) (b' : Builder),
    m (b.folding true) = (outcome, b'.folding true) ∧
      m (b.folding false) = (outcome, b'.folding false)

/- With folding the step yields a literal and does nothing. -/
def FoldsTo
    (b : Builder)
    (m : Build Value)
    (l : Literal) :
    Prop :=
  ∃ t,
    m (b.folding true) =
      (.ok ⟨t, .literal l⟩, b.folding true)

/-
  With folding and without, the step is refused for the same
  reason or yields values of the same type.
-/
def Agrees
    (b : Builder)
    (m : Build Value) :
    Prop :=
  (∃ e, (m (b.folding true)).1 = .error e ∧
    (m (b.folding false)).1 = .error e) ∨
  ∃ r r', (m (b.folding true)).1 = .ok r ∧
    (m (b.folding false)).1 = .ok r' ∧ r.type = r'.type

variable {b : Builder} {m : Build Value}

/- A value that is yielded at once is folded to its literal. -/
theorem foldsTo_of_literal
    {r : Value}
    {l : Literal}
    (h : m (b.folding true) = (.ok r, b.folding true))
    (hl : r.literal? = some l) :
    b.FoldsTo m l := by
  rcases r with ⟨t, source⟩
  cases source with
  | pin p => cases hl
  | literal l' =>
      cases hl
      exact ⟨t, h⟩

/- A step that is refused either way. -/
theorem agrees_of_refused
    {e : Error}
    (h : ∀ on, m (b.folding on) = (.error e, b.folding on)) :
    b.Agrees m ∧ b.Unaffected m := by
  constructor
  · exact Or.inl ⟨e, by rw [h], by rw [h]⟩
  · exact ⟨.error e, b, h true, h false⟩

/-
  A step that adds a node unless there is a value that it is
  folded to.
-/
theorem agrees_of_fold
    {fold : Bool → Option Value}
    {pin : Value}
    {n : Node}
    (h :
      ∀ on,
        match fold on with
        | some r => m (b.folding on) = (.ok r, b.folding on)
        | none =>
            m (b.folding on) =
              (.ok pin, (b.added n).folding on))
    (hOff : fold false = none)
    (hType : ∀ r, fold true = some r → r.type = pin.type) :
    b.Agrees m ∧
      (b.Unaffected m ∨
        ∃ r, fold true = some r ∧
          m (b.folding true) = (.ok r, b.folding true)) := by
  have hLive := h false
  rw [hOff] at hLive
  have hOn := h true
  cases hFold : fold true with
  | none =>
      rw [hFold] at hOn
      constructor
      · exact Or.inr ⟨pin, pin, by rw [hOn], by rw [hLive], rfl⟩
      · exact Or.inl ⟨.ok pin, b.added n, hOn, hLive⟩
  | some r =>
      rw [hFold] at hOn
      constructor
      · exact Or.inr ⟨r, pin, by rw [hOn], by rw [hLive],
          hType r hFold⟩
      · exact Or.inr ⟨r, rfl, hOn⟩

/- Both outcomes of an operator with two operands. -/
theorem binary_cases
    (b : Builder)
    (op : BinaryOp)
    (v w : Value) :
    (∃ e, ∀ on,
      binary op v w (b.folding on) = (.error e, b.folding on)) ∨
    ∃ v' w', op.operands v w = .ok (v', w') ∧
      ∀ on,
        match Folding.binary on op v' w' with
        | some r =>
            binary op v w (b.folding on) =
              (.ok r, b.folding on)
        | none =>
            binary op v w (b.folding on) =
              (.ok (.pin (op.resultType v'.type)
                  ⟨b.graph.nextId, "result", 0⟩),
                (b.added (binaryNode op v' w')).folding
                  on) := by
  have hRun :=
    fun on => meets_binary.mp
      (Process.meets_self (binary op v w) (b.folding on))
  cases hOperands : op.operands v w with
  | error e =>
      exact Or.inl ⟨e, fun on => (hRun on).2 e hOperands⟩
  | ok pair =>
      exact Or.inr ⟨pair.1, pair.2, rfl,
        fun on => (hRun on).1 pair.1 pair.2 hOperands⟩

/- Both outcomes of an operator with one operand. -/
theorem unary_cases
    (b : Builder)
    (op : UnaryOp)
    (v : Value) :
    (∃ e, ∀ on,
      unary op v (b.folding on) = (.error e, b.folding on)) ∨
    op.checkOperand v = .ok () ∧
      ∀ on,
        match Folding.unary on op v with
        | some r =>
            unary op v (b.folding on) = (.ok r, b.folding on)
        | none =>
            unary op v (b.folding on) =
              (.ok (.pin v.type
                  ⟨b.graph.nextId, "result", 0⟩),
                (b.added (unaryNode op v)).folding on) := by
  have hRun :=
    fun on => meets_unary.mp
      (Process.meets_self (unary op v) (b.folding on))
  cases hCheck : op.checkOperand v with
  | error e =>
      exact Or.inl ⟨e, fun on => (hRun on).2 e hCheck⟩
  | ok u =>
      exact Or.inr ⟨rfl, fun on => (hRun on).1 u hCheck⟩

/- A binary operator agrees with its node. -/
theorem binary_agrees
    (b : Builder)
    (op : BinaryOp)
    {v w : Value}
    (hv : v.Typed)
    (hw : w.Typed) :
    b.Agrees (binary op v w) ∧
      (b.Unaffected (binary op v w) ∨
        ∃ x y l, v.literal? = some x ∧ w.literal? = some y ∧
          b.FoldsTo (binary op v w) l ∧ op.Exact x y l) := by
  rcases binary_cases b op v w with
    ⟨e, hError⟩ | ⟨v', w', hOperands, hRun⟩
  · rcases agrees_of_refused hError with ⟨hAgrees, hSame⟩
    exact ⟨hAgrees, Or.inl hSame⟩
  · have hAccepts : op.accepts v'.type = true := by
      rcases checkOperand_cases op v' with
        ⟨hAccepts, _⟩ | ⟨_, e, hError⟩
      · exact hAccepts
      · rw [(BinaryOp.widen_of_operands hOperands).2.2] at hError
        cases hError
    have hTyped : v'.Typed :=
      typed_widen hv (BinaryOp.widen_of_operands hOperands).1
    have hType :
        ∀ r, Folding.binary true op v' w' = some r →
          r.type = op.resultType v'.type :=
      fun _ => type_of_binary hTyped hAccepts
    rcases agrees_of_fold hRun rfl hType with
      ⟨hAgrees, hSame | ⟨r, hFold, hOn⟩⟩
    · exact ⟨hAgrees, Or.inl hSame⟩
    · rcases BinaryOp.folded_exact hv hw hOperands hFold with
        ⟨x, y, l, hx, hy, hl, hExact⟩
      exact ⟨hAgrees, Or.inr ⟨x, y, l, hx, hy,
        foldsTo_of_literal hOn hl, hExact⟩⟩

/- A unary operator agrees with its node. -/
theorem unary_agrees
    (b : Builder)
    (op : UnaryOp)
    {v : Value}
    (hv : v.Typed) :
    b.Agrees (unary op v) ∧
      (b.Unaffected (unary op v) ∨
        ∃ x l, v.literal? = some x ∧
          b.FoldsTo (unary op v) l ∧ op.Exact x l) := by
  rcases unary_cases b op v with ⟨e, hError⟩ | ⟨hCheck, hRun⟩
  · rcases agrees_of_refused hError with ⟨hAgrees, hSame⟩
    exact ⟨hAgrees, Or.inl hSame⟩
  · have hAccepts : op.accepts v.type = true := by
      rcases checkUnary_cases op v with
        ⟨hAccepts, _⟩ | ⟨_, e, hError⟩
      · exact hAccepts
      · rw [hCheck] at hError
        cases hError
    have hType :
        ∀ r, Folding.unary true op v = some r →
          r.type = v.type :=
      fun _ => type_of_unary hv hAccepts
    rcases agrees_of_fold hRun rfl hType with
      ⟨hAgrees, hSame | ⟨r, hFold, hOn⟩⟩
    · exact ⟨hAgrees, Or.inl hSame⟩
    · rcases UnaryOp.folded_exact hFold with
        ⟨x, l, hx, hl, hExact⟩
      exact ⟨hAgrees, Or.inr ⟨x, l, hx,
        foldsTo_of_literal hOn hl, hExact⟩⟩

example :
    (new "rest" .default).FoldsTo
      (binary .mod (.int (-7)) (.int 2)) (.int (-1)) :=
  ⟨.int, rfl⟩

end FlowGraph.Builder
