import FlowGraph.Number.Layout
import FlowGraph.Text.Quoted

/-
  JSON documents and their text.

  A document is a tree.  Its compact text has no blanks, and
  its pretty text puts every member on a line of its own,
  indented by two spaces a level.

  Key definitions include:
    * `FlowGraph.Json`
    * `FlowGraph.Json.compact`
    * `FlowGraph.Json.pretty`
-/

------------------------------------------------------------
-- Documents
------------------------------------------------------------

namespace FlowGraph

/- A JSON document.  Members keep the order of writing. -/
inductive Json where
  | null
  | bool (b : Bool)
  | int (i : Int)
  | float (x : Float)
  | str (s : String)
  | arr (items : List Json)
  | obj (members : List (String × Json))

end FlowGraph

------------------------------------------------------------
-- Atoms
------------------------------------------------------------

namespace FlowGraph.Json

/-
  Floats are positional from `10 ^ -5` up to below
  `10 ^ 16`, an exponent always has a sign, and a tie goes
  to the even digit.
-/
def floatLayout : Number.Layout :=
  ⟨-5, 16, "+", .toEven⟩

/- A character as it stands inside a JSON string. -/
def escapedChar
    (c : Char) :
    List Char :=
  if c = '\"' then ['\\', '\"']
  else if c = '\\' then ['\\', '\\']
  else if c.toNat = 0x08 then ['\\', 'b']
  else if c.toNat = 0x0c then ['\\', 'f']
  else if c = '\n' then ['\\', 'n']
  else if c = '\r' then ['\\', 'r']
  else if c = '\t' then ['\\', 't']
  else if c.toNat < 0x20 then
    '\\' :: 'u' :: Text.hexPadded 4 c.toNat
  else [c]

/- The text of a JSON string. -/
def quoted
    (s : String) :
    String :=
  String.ofList
    ('\"' :: s.toList.flatMap escapedChar ++ ['\"'])

/- The text of a JSON number, or `null` if there is none. -/
def floatText
    (x : Float) :
    String :=
  if x.isFinite then floatLayout.finite x else "null"

/- The text of a truth value. -/
def boolText
    (b : Bool) :
    String :=
  if b then "true" else "false"

end FlowGraph.Json

------------------------------------------------------------
-- Compact Text
------------------------------------------------------------

namespace FlowGraph.Json

mutual

/- The text of a document without blanks. -/
def compact : Json → String
  | .null => "null"
  | .bool b => boolText b
  | .int i => i.repr
  | .float x => floatText x
  | .str s => quoted s
  | .arr items => "[" ++ compactItems items ++ "]"
  | .obj members =>
      "\x7b" ++ compactMembers members ++ "\x7d"

/- The items of an array, separated by commas. -/
def compactItems : List Json → String
  | [] => ""
  | [item] => item.compact
  | item :: rest => item.compact ++ "," ++ compactItems rest

/- The members of an object, separated by commas. -/
def compactMembers : List (String × Json) → String
  | [] => ""
  | [m] => compactMember m
  | m :: rest =>
      compactMember m ++ "," ++ compactMembers rest

/- A member of an object. -/
def compactMember : String × Json → String
  | (key, item) => quoted key ++ ":" ++ item.compact

end

end FlowGraph.Json

------------------------------------------------------------
-- Pretty Text
------------------------------------------------------------

namespace FlowGraph.Json

/- A line break followed by `level` steps of indentation. -/
def lineBreak
    (level : Nat) :
    String :=
  String.ofList ('\n' :: List.replicate (2 * level) ' ')

mutual

/- The text of a document with one member a line. -/
def prettyAt (level : Nat) : Json → String
  | .null => "null"
  | .bool b => boolText b
  | .int i => i.repr
  | .float x => floatText x
  | .str s => quoted s
  | .arr [] => "[]"
  | .arr items =>
      "[" ++ prettyItems (level + 1) items
        ++ lineBreak level ++ "]"
  | .obj [] => "\x7b\x7d"
  | .obj members =>
      "\x7b" ++ prettyMembers (level + 1) members
        ++ lineBreak level ++ "\x7d"

/- The items of an array, each on its own line. -/
def prettyItems (level : Nat) : List Json → String
  | [] => ""
  | [item] => lineBreak level ++ item.prettyAt level
  | item :: rest =>
      lineBreak level ++ item.prettyAt level ++ ","
        ++ prettyItems level rest

/- The members of an object, each on its own line. -/
def prettyMembers
    (level : Nat) :
    List (String × Json) → String
  | [] => ""
  | [m] => lineBreak level ++ prettyMember level m
  | m :: rest =>
      lineBreak level ++ prettyMember level m ++ ","
        ++ prettyMembers level rest

/- A member of an object. -/
def prettyMember (level : Nat) : String × Json → String
  | (key, item) => quoted key ++ ": " ++ item.prettyAt level

end

/- The pretty text of a document. -/
def pretty
    (document : Json) :
    String :=
  document.prettyAt 0

end FlowGraph.Json
