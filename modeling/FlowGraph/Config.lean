import FlowGraph.Error

/-
  Settings of a builder and their text.

  Settings are written as a JSON object with a truth value a
  field, or as an array of truth values in field order.  A
  missing field is on.

  Key definitions include:
    * `FlowGraph.Config`
    * `FlowGraph.Config.Token`
    * `FlowGraph.Config.tokens?`
    * `FlowGraph.Config.parse`
-/

------------------------------------------------------------
-- Settings
------------------------------------------------------------

namespace FlowGraph

/-
  The settings: whether operators on literals are evaluated
  at once, and whether inline lists get nodes of their own
  when a graph is finished.
-/
structure Config where
  precompute : Bool
  expandLists : Bool
  deriving DecidableEq, Repr

/- Everything is on unless said otherwise. -/
def Config.default : Config :=
  ⟨true, true⟩

end FlowGraph

------------------------------------------------------------
-- Tokens
------------------------------------------------------------

namespace FlowGraph.Config

/- The tokens of the text of settings. -/
inductive Token where
  | openObject
  | closeObject
  | openArray
  | closeArray
  | colon
  | comma
  | bool (b : Bool)
  | name (s : String)
  deriving DecidableEq, Repr

/- The value of a hexadecimal digit. -/
def hexValue?
    (c : Char) :
    Option Nat :=
  if '0' ≤ c ∧ c ≤ '9' then some (c.toNat - '0'.toNat)
  else if 'a' ≤ c ∧ c ≤ 'f' then
    some (c.toNat - 'a'.toNat + 10)
  else if 'A' ≤ c ∧ c ≤ 'F' then
    some (c.toNat - 'A'.toNat + 10)
  else none

/-
  The character with a number of four hexadecimal digits.
  Halves of surrogate pairs are refused: no name of a field
  contains such a pair.
-/
def numbered?
    (a b c d : Char) :
    Option Char := do
  let a ← hexValue? a
  let b ← hexValue? b
  let c ← hexValue? c
  let d ← hexValue? d
  let n := ((a * 16 + b) * 16 + c) * 16 + d
  if 0xd800 ≤ n ∧ n ≤ 0xdfff then
    none
  else
    some (Char.ofNat n)

/- The character that a letter stands for after a backslash. -/
def escaped?
    (c : Char) :
    Option Char :=
  if c = '\"' ∨ c = '\\' ∨ c = '/' then some c
  else if c = 'b' then some (Char.ofNat 0x08)
  else if c = 'f' then some (Char.ofNat 0x0c)
  else if c = 'n' then some '\n'
  else if c = 'r' then some '\r'
  else if c = 't' then some '\t'
  else none

/- The token that a single character makes. -/
def punctuation?
    (c : Char) :
    Option Token :=
  if c = '\x7b' then some .openObject
  else if c = '\x7d' then some .closeObject
  else if c = '[' then some .openArray
  else if c = ']' then some .closeArray
  else if c = ':' then some .colon
  else if c = ',' then some .comma
  else none

/- Whether a character may stand between tokens. -/
def isBlank
    (c : Char) :
    Bool :=
  c == ' ' || c == '\t' || c == '\n' || c == '\r'

mutual

/- The tokens of a text, if it has no other parts. -/
def tokens? : List Char → Option (List Token)
  | [] => some []
  | 't' :: 'r' :: 'u' :: 'e' :: rest =>
      (tokens? rest).map (.bool true :: ·)
  | 'f' :: 'a' :: 'l' :: 's' :: 'e' :: rest =>
      (tokens? rest).map (.bool false :: ·)
  | '\"' :: rest => nameTokens? [] rest
  | c :: rest =>
      if isBlank c then
        tokens? rest
      else
        match punctuation? c with
        | some token => (tokens? rest).map (token :: ·)
        | none => none

/-
  The tokens of a text that goes on inside a name; `before`
  is the part of the name that was read, last character
  first.
-/
def nameTokens?
    (before : List Char) :
    List Char → Option (List Token)
  | [] => none
  | '\"' :: rest =>
      (tokens? rest).map
        (.name (String.ofList before.reverse) :: ·)
  | '\\' :: 'u' :: a :: b :: c :: d :: rest =>
      match numbered? a b c d with
      | some char => nameTokens? (char :: before) rest
      | none => none
  | '\\' :: c :: rest =>
      match escaped? c with
      | some char => nameTokens? (char :: before) rest
      | none => none
  | c :: rest =>
      if c.toNat < 0x20 then
        none
      else
        nameTokens? (c :: before) rest

end

end FlowGraph.Config

------------------------------------------------------------
-- Reading
------------------------------------------------------------

namespace FlowGraph.Config

/- The fields of the settings. -/
inductive Field where
  | precompute
  | expandLists
  deriving DecidableEq, Repr

/- The field with a given name. -/
def Field.ofName?
    (s : String) :
    Option Field :=
  if s = "precompute" then some .precompute
  else if s = "expand_list_literals" then some .expandLists
  else none

/- Set a field. -/
def set
    (config : Config)
    (field : Field)
    (b : Bool) :
    Config :=
  match field with
  | .precompute => { config with precompute := b }
  | .expandLists => { config with expandLists := b }

/-
  The settings that a sequence of tokens describes.  A field
  may be given once, so an object has at most two members.
-/
def ofTokens? : List Token → Option Config
  | [.openObject, .closeObject] => some default
  | [.openObject, .name k, .colon, .bool b, .closeObject] => do
      let k ← Field.ofName? k
      some (default.set k b)
  | [.openObject, .name k, .colon, .bool b, .comma,
      .name k', .colon, .bool b', .closeObject] => do
      let k ← Field.ofName? k
      let k' ← Field.ofName? k'
      if k = k' then
        none
      else
        some ((default.set k b).set k' b')
  | [.openArray, .closeArray] => some default
  | [.openArray, .bool b, .closeArray] => some ⟨b, true⟩
  | [.openArray, .bool b, .comma, .bool b', .closeArray] =>
      some ⟨b, b'⟩
  | _ => none

/- Read settings. -/
def parse
    (text : String) :
    Except Error Config :=
  match (tokens? text.toList).bind ofTokens? with
  | some config => .ok config
  | none => .error (.of .invalidConfig)

end FlowGraph.Config
