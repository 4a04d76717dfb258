import FlowGraph.Number.Binary

/-
  The remainder of a float division.

  The quotient is rounded toward zero, so the remainder has
  the sign of the dividend and is exact.

  Key definitions include:
    * `FlowGraph.Number.Binary.remainder`
    * `FlowGraph.Number.remainder`
-/

------------------------------------------------------------
-- Remainders
------------------------------------------------------------

namespace FlowGraph.Number

/-
  The remainder of two magnitudes, taken on the finer of
  their two scales, where both are whole.
-/
def Binary.remainder
    (a b : Binary) :
    Binary :=
  let scale := min a.exponent b.exponent
  let dividend :=
    a.mantissa * Nat.pow 2 (a.exponent - scale).toNat
  let divisor :=
    b.mantissa * Nat.pow 2 (b.exponent - scale).toNat
  ⟨dividend % divisor, scale⟩

/-
  The remainder of `x` by `y`.  It is not a number if `x` is
  not finite or `y` is zero, and an infinite `y` leaves `x`
  as it is.
-/
def remainder
    (x y : Float) :
    Float :=
  if !x.isFinite || y.isNaN || y == 0.0 then
    0.0 / 0.0
  else if y.isInf then
    x
  else
    ((Binary.ofFloat x).remainder (Binary.ofFloat y)).toFloat
      (isNegative x)

end FlowGraph.Number
