/-
  Exact arithmetic on 64-bit integers.

  Every operation returns the mathematical result, or
  nothing if that result does not fit in 64 bits.

  Key definitions include:
    * `FlowGraph.Number.Word.ofInt?`
    * `FlowGraph.Number.Word.add?`
    * `FlowGraph.Number.Word.div?`
-/

------------------------------------------------------------
-- Exact Results
------------------------------------------------------------

namespace FlowGraph.Number.Word

/- The word that holds an integer, if the integer fits. -/
def ofInt?
    (i : Int) :
    Option Int64 :=
  if Int64.minValue.toInt ≤ i ∧ i ≤ Int64.maxValue.toInt then
    some (Int64.ofInt i)
  else
    none

/- The exact sum. -/
def add?
    (x y : Int64) :
    Option Int64 :=
  ofInt? (x.toInt + y.toInt)

/- The exact difference. -/
def sub?
    (x y : Int64) :
    Option Int64 :=
  ofInt? (x.toInt - y.toInt)

/- The exact product. -/
def mul?
    (x y : Int64) :
    Option Int64 :=
  ofInt? (x.toInt * y.toInt)

/- The quotient toward zero, for a divisor other than zero. -/
def div?
    (x y : Int64) :
    Option Int64 :=
  if y = 0 then none else ofInt? (x.toInt.tdiv y.toInt)

/-
  The remainder with the sign of the dividend.  It exists
  exactly when the quotient does.
-/
def rem?
    (x y : Int64) :
    Option Int64 :=
  (div? x y).bind fun _ => ofInt? (x.toInt.tmod y.toInt)

/- The exact negation. -/
def neg?
    (x : Int64) :
    Option Int64 :=
  ofInt? (-x.toInt)

/- The exact absolute value. -/
def abs?
    (x : Int64) :
    Option Int64 :=
  ofInt? x.toInt.natAbs

/- The nearest float, a tie going to the even neighbour. -/
def toFloat
    (x : Int64) :
    Float :=
  Float.ofInt x.toInt

end FlowGraph.Number.Word
