import FlowGraph.Number.Shortest

/-
  The layout of float text.

  A layout says which magnitudes are written positionally
  and how an exponent is marked.  The digits themselves are
  always the shortest that read back.

  Key definitions include:
    * `FlowGraph.Number.Layout`
    * `FlowGraph.Number.Layout.decimal`
    * `FlowGraph.Number.Layout.finite`
-/

------------------------------------------------------------
-- Layouts
------------------------------------------------------------

namespace FlowGraph.Number

/-
  The decisions behind a float's text.  A number whose
  leading digit stands at `10 ^ e` is written positionally
  if `least ≤ e < limit`; `plus` stands before an exponent
  that is not negative.
-/
structure Layout where
  least : Int
  limit : Int
  plus : String
  tie : Tie

namespace Layout

/- The digits with a point and at least one place after it. -/
def positional
    (digits : List Char)
    (exponent : Int) :
    List Char :=
  if 0 ≤ exponent then
    digits ++ List.replicate exponent.toNat '0' ++ ['.', '0']
  else
    let places := (-exponent).toNat
    if places < digits.length then
      digits.take (digits.length - places) ++ '.'
        :: digits.drop (digits.length - places)
    else
      '0' :: '.'
        :: List.replicate (places - digits.length) '0'
        ++ digits

/- One digit, the others as places, and an exponent. -/
def scientific
    (layout : Layout)
    (digits : List Char)
    (leading : Int) :
    List Char :=
  let places :=
    match digits.drop 1 with
    | [] => []
    | rest => '.' :: rest
  let sign := if 0 ≤ leading then layout.plus else "-"
  digits.take 1 ++ places ++ 'e' :: sign.toList
    ++ leading.natAbs.repr.toList

/- The text of a decimal other than zero. -/
def decimal
    (layout : Layout)
    (d : Decimal) :
    List Char :=
  let digits := d.digits.repr.toList
  let leading := d.exponent + digits.length - 1
  if layout.least ≤ leading ∧ leading < layout.limit then
    positional digits d.exponent
  else
    layout.scientific digits leading

/- The text of a finite float. -/
def finite
    (layout : Layout)
    (x : Float) :
    String :=
  let b := Binary.ofFloat x
  let magnitude :=
    if b.mantissa = 0 then
      ['0', '.', '0']
    else
      layout.decimal (b.shortest layout.tie)
  String.ofList
    (if isNegative x then '-' :: magnitude else magnitude)

end Layout

end FlowGraph.Number
