import FlowGraph.Text.Combining
import FlowGraph.Text.Invisible

/-
  Quoted text in messages.

  Text is shown between double quotes.  A quote, a backslash
  and the common controls have short escapes; every other
  character that would not show is written by its number.

  Key definitions include:
    * `FlowGraph.Text.shownChar`
    * `FlowGraph.Text.quoted`
-/

------------------------------------------------------------
-- Numbers In Base Sixteen
------------------------------------------------------------

namespace FlowGraph.Text

/- The lowercase hexadecimal digits of a number. -/
def hexDigits
    (n : Nat) :
    List Char :=
  Nat.toDigits 16 n

/- At least `width` hexadecimal digits, zeros in front. -/
def hexPadded
    (width n : Nat) :
    List Char :=
  let digits := hexDigits n
  List.replicate (width - digits.length) '0' ++ digits

end FlowGraph.Text

------------------------------------------------------------
-- Quoting
------------------------------------------------------------

namespace FlowGraph.Text

/- A character as it stands inside quotes. -/
def shownChar
    (c : Char) :
    List Char :=
  if c.toNat = 0 then ['\\', '0']
  else if c = '\t' then ['\\', 't']
  else if c = '\r' then ['\\', 'r']
  else if c = '\n' then ['\\', 'n']
  else if c = '\"' then ['\\', '\"']
  else if c = '\\' then ['\\', '\\']
  else if isCombining c || isInvisible c then
    '\\' :: 'u' :: '\x7b' :: hexDigits c.toNat ++ ['\x7d']
  else [c]

/- Text between quotes. -/
def quoted
    (s : String) :
    String :=
  String.ofList
    ('\"' :: s.toList.flatMap shownChar ++ ['\"'])

end FlowGraph.Text
