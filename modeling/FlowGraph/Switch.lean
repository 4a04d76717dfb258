import FlowGraph.Error

/-
  Switches and their aliases.

  A switch has a default and labelled cases.  A branch has a
  body, or shares that of another branch, or is empty.

  Key definitions include:
    * `FlowGraph.Arm`
    * `FlowGraph.Switch`
    * `FlowGraph.Switch.repeated?`
    * `FlowGraph.Switch.follow`
    * `FlowGraph.Switch.resolve`
-/

------------------------------------------------------------
-- Switches
------------------------------------------------------------

namespace FlowGraph

/-
  What a branch does: it runs a body, goes on as another
  branch does, or falls through.
-/
inductive Arm (β : Type) where
  | body (b : β)
  | alias (k : CaseKey)
  | empty

/- A switch: its cases, in order, and its default. -/
structure Switch (β : Type) where
  cases : List (Label × Arm β)
  default : Arm β

namespace Switch

variable {β : Type}

/- The labels, in order. -/
def labels
    (s : Switch β) :
    List Label :=
  s.cases.map Prod.fst

/- The branches, the default first. -/
def keys
    (s : Switch β) :
    List CaseKey :=
  .default :: s.labels.map .label

/- What the branches do, the default first. -/
def arms
    (s : Switch β) :
    List (Arm β) :=
  s.default :: s.cases.map Prod.snd

/- What a branch does. -/
def arm?
    (s : Switch β) :
    CaseKey → Option (Arm β)
  | .default => some s.default
  | .label l => s.cases.lookup l

/-
  The exec output of a branch: zero for the default, then
  the cases in order.
-/
def index
    (s : Switch β)
    (k : CaseKey) :
    Nat :=
  s.keys.idxOf k

end Switch

end FlowGraph

------------------------------------------------------------
-- Repeated Labels
------------------------------------------------------------

namespace FlowGraph.Switch

variable {β : Type}

/- The first of some labels that was seen before. -/
def firstRepeated
    (seen : List Label) :
    List Label → Option Label
  | [] => none
  | l :: rest =>
      if l ∈ seen then
        some l
      else
        firstRepeated (l :: seen) rest

/- The first label that is declared a second time. -/
def repeated?
    (s : Switch β) :
    Option Label :=
  firstRepeated [] s.labels

end FlowGraph.Switch

------------------------------------------------------------
-- Aliases
------------------------------------------------------------

namespace FlowGraph.Switch

variable {β : Type}

/-
  Follow aliases from `current` to a branch that is not an
  alias; `chain` are the branches that were passed, `current`
  being the last.
-/
def follow
    (s : Switch β) :
    Nat → List CaseKey → CaseKey → Except Error CaseKey
  | 0, chain, _ => .error (.of (.aliasCycle chain))
  | fuel + 1, chain, current =>
      match s.arm? current with
      | some (.alias next) =>
          match next, s.arm? next with
          | .label l, none => .error (.of (.unknownCase l))
          | _, _ =>
              if next ∈ chain then
                .error (.of (.aliasCycle (chain ++ [next])))
              else
                s.follow fuel (chain ++ [next]) next
      | _ => .ok current

/-
  The branch whose body a branch runs.  A chain of aliases
  that passes no branch twice is no longer than the list of
  branches.
-/
def resolve
    (s : Switch β)
    (k : CaseKey) :
    Except Error CaseKey :=
  s.follow s.keys.length [k] k

end FlowGraph.Switch
