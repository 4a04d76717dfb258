/-
  Floats taken apart into whole numbers.

  A finite float is a sign together with an exact value
  `mantissa * 2 ^ exponent`.  Everything that has to be
  exact about a float, such as its shortest decimal text or
  its remainder, is computed on these whole numbers.

  Key definitions include:
    * `FlowGraph.Number.Binary`
    * `FlowGraph.Number.Binary.ofFloat`
    * `FlowGraph.Number.Binary.toFloat`
-/

------------------------------------------------------------
-- Magnitudes
------------------------------------------------------------

namespace FlowGraph.Number

/- The magnitude `mantissa * 2 ^ exponent` of a float. -/
structure Binary where
  mantissa : Nat
  exponent : Int
  deriving DecidableEq, Repr

/- The exponent that subnormal floats share. -/
def leastExponent : Int := -1074

/- The mantissa `2 ^ 52` at which a float becomes normal. -/
def normalMantissa : Nat := 0x10000000000000

/- The number of exponents that a float tells apart. -/
def exponentCount : Nat := 0x800

/- The value `2 ^ 63` of the sign bit. -/
def signBit : Nat := 0x8000000000000000

/- Whether the sign bit of a float is set. -/
def isNegative
    (x : Float) :
    Bool :=
  signBit ≤ x.toBits.toNat

namespace Binary

/-
  The magnitude of a finite float.  A normal float carries
  one mantissa bit more than it stores.
-/
def ofFloat
    (x : Float) :
    Binary :=
  let fraction : Nat := x.toBits.toNat % normalMantissa
  let biased : Nat :=
    x.toBits.toNat / normalMantissa % exponentCount
  if biased = 0 then
    ⟨fraction, leastExponent⟩
  else
    ⟨normalMantissa + fraction,
      (biased : Int) + leastExponent - 1⟩

/-
  Whether the gap to the next smaller float is half the gap
  to the next larger one, as it is at a power of two.
-/
def narrowBelow
    (b : Binary) :
    Bool :=
  b.mantissa == normalMantissa
    && decide (leastExponent < b.exponent)

end Binary

end FlowGraph.Number

------------------------------------------------------------
-- Back To Floats
------------------------------------------------------------

namespace FlowGraph.Number.Binary

/-
  The same magnitude with as large a mantissa as a float can
  hold, or with the least exponent if that comes first.
-/
def normalize
    (b : Binary) :
    Binary :=
  let shift :=
    min (52 - b.mantissa.log2)
      (b.exponent - leastExponent).toNat
  ⟨b.mantissa * Nat.pow 2 shift, b.exponent - shift⟩

/-
  The float with this sign and magnitude.  It is exact when
  the mantissa is below `2 ^ 53` and the exponent is in the
  range of floats.
-/
def toFloat
    (negative : Bool)
    (b : Binary) :
    Float :=
  let n := b.normalize
  let biased :=
    if n.mantissa < normalMantissa then
      0
    else
      (n.exponent - leastExponent + 1).toNat
  let sign := if negative then signBit else 0
  Float.ofBits
    (UInt64.ofNat
      (sign + biased * normalMantissa
        + n.mantissa % normalMantissa))

end FlowGraph.Number.Binary
