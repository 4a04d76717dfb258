import FlowGraph.Number.Binary

/-
  The shortest decimal that reads back as a given float.

  The reals that round to a float form an interval around
  it.  Decimal grids are tried from coarse to fine, and the
  first grid with a point in the interval gives the digits.

  Key definitions include:
    * `FlowGraph.Number.Tie`
    * `FlowGraph.Number.Decimal`
    * `FlowGraph.Number.Binary.onGrid`
    * `FlowGraph.Number.Binary.shortest`
-/

------------------------------------------------------------
-- Decimals
------------------------------------------------------------

namespace FlowGraph.Number

/- The magnitude `digits * 10 ^ exponent` of a decimal. -/
structure Decimal where
  digits : Nat
  exponent : Int
  deriving DecidableEq, Repr

/- Which of two equally near digit strings is taken. -/
inductive Tie where
  | up
  | toEven
  deriving DecidableEq, Repr

/- Whether a tie above `below` is resolved downwards. -/
def Tie.takesBelow
    (tie : Tie)
    (below : Nat) :
    Bool :=
  match tie with
  | .up => false
  | .toEven => below % 2 == 0

end FlowGraph.Number

------------------------------------------------------------
-- Digit Selection
------------------------------------------------------------

namespace FlowGraph.Number.Binary

/-
  The point of the grid `10 ^ k` that reads back as `b`, if
  there is one.  Both neighbours of the value are tested
  against the rounding interval, whose ends belong to it
  exactly when the mantissa is even.  All quantities are
  whole multiples of a quarter of the float's own unit.
-/
def onGrid
    (b : Binary)
    (tie : Tie)
    (k : Int) :
    Option Nat :=
  let unit :=
    Nat.pow 2 (b.exponent - 2).toNat * Nat.pow 10 (-k).toNat
  let grid :=
    Nat.pow 2 (2 - b.exponent).toNat * Nat.pow 10 k.toNat
  let value := 4 * b.mantissa * unit
  let margin := if b.narrowBelow then 1 else 2
  let low := (4 * b.mantissa - margin) * unit
  let high := (4 * b.mantissa + 2) * unit
  let readsBack (c : Nat) : Bool :=
    if b.mantissa % 2 = 0 then
      low ≤ c * grid && c * grid ≤ high
    else
      low < c * grid && c * grid < high
  let below := value / grid
  let above := below + 1
  match readsBack below, readsBack above with
  | true, true =>
      let sum := (below + above) * grid
      if 2 * value < sum then some below
      else if sum < 2 * value then some above
      else if tie.takesBelow below then some below
      else some above
  | true, false => some below
  | false, true => some above
  | false, false => none

/-
  A power of ten above the value, found from the position of
  the leading bit.  A bit is worth a little less than
  `0.30103` decimal digits.
-/
def gridAbove
    (b : Binary) :
    Int :=
  (b.mantissa.log2 + 1 + b.exponent) * 30103 / 100000 + 1

/- The exact decimal value. -/
def exactDecimal
    (b : Binary) :
    Decimal :=
  if b.exponent < 0 then
    ⟨b.mantissa * Nat.pow 5 (-b.exponent).toNat, b.exponent⟩
  else
    ⟨b.mantissa * Nat.pow 2 b.exponent.toNat, 0⟩

/-
  The decimal with the fewest digits that reads back as `b`,
  and the nearest of those.  Seventeen digits always
  suffice, so twenty grids leave room for the estimate of
  the first one.
-/
def shortest
    (b : Binary)
    (tie : Tie) :
    Decimal :=
  let start := b.gridAbove
  let found :=
    (List.range 20).findSome? fun (i : Nat) =>
      let k : Int := start - i
      (b.onGrid tie k).map fun digits => Decimal.mk digits k
  found.getD b.exactDecimal

end FlowGraph.Number.Binary
