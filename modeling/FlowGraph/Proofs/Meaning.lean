import FlowGraph.Proofs.Dispatch
import FlowGraph.Proofs.Machine

/-
  What a script means.

  The statements of a body are run one after the other; a
  break, a continue or a return ends the body that it is in
  and what follows is left out.  What branches and loops
  depend on is asked for, in the order of running.

  Key definitions include:
    * `FlowGraph.Script.Ending`
    * `FlowGraph.Script.Effect`
    * `FlowGraph.Script.Meaning`
    * `FlowGraph.Script.meaning`
    * `FlowGraph.Script.Stmt.plain`

  Key theorems include:
    * `FlowGraph.Script.like_meantSwitch`
-/

------------------------------------------------------------
-- Effects
------------------------------------------------------------

namespace FlowGraph.Script

/- How a body ends. -/
inductive Ending where
  | done
  | continued
  | broken
  | returned
  deriving DecidableEq, Repr

/-
  What a run comes to: how it ends, how many answers have
  been used up, and the places that were visited.
-/
structure Effect where
  ending : Ending
  asked : Nat
  trace : List Path
  deriving DecidableEq, Repr

/- What comes of a number of answers used up before. -/
abbrev Meaning := Nat → Effect

namespace Meaning

/- End at once. -/
def ends
    (e : Ending) :
    Meaning :=
  fun asked => ⟨e, asked, []⟩

/- Visit a place first. -/
def visits
    (f : Meaning)
    (path : Path) :
    Meaning :=
  fun asked =>
    { f asked with trace := path :: (f asked).trace }

/- Use up an answer first. -/
def asks
    (answer : Nat → Nat)
    (f : Nat → Meaning) :
    Meaning :=
  fun asked => f (answer asked) (asked + 1)

/- Go on from an effect. -/
def after
    (f : Meaning)
    (r : Effect) :
    Effect :=
  { f r.asked with trace := r.trace ++ (f r.asked).trace }

/- One after the other, unless the first ends early. -/
def andThen
    (f g : Meaning) :
    Meaning :=
  fun asked =>
    match (f asked).ending with
    | .done => g.after (f asked)
    | _ => f asked

/-
  A number of rounds.  A break ends them all, and a return
  ends what is around them as well.
-/
def rounds
    (f : Meaning) :
    Nat → Meaning
  | 0 => ends .done
  | k + 1 => fun asked =>
      match (f asked).ending with
      | .broken => { f asked with ending := .done }
      | .returned => f asked
      | _ => (rounds f k).after (f asked)

/- A branch of a switch; without a body it falls through. -/
def ofArm : Option (Arm Meaning) → Meaning
  | some (.body f) => f
  | _ => ends .done

/- The branch of a switch that an answer stands for. -/
def chosen
    (sw : Switch Meaning)
    (answer : Nat) :
    Meaning :=
  match sw.keys[Machine.choose sw.keys.length answer]? with
  | none => ends .done
  | some k =>
      match sw.resolve k with
      | .error _ => ends .done
      | .ok t => ofArm (sw.arm? t)

end Meaning

end FlowGraph.Script

------------------------------------------------------------
-- Statements
------------------------------------------------------------

namespace FlowGraph.Script

open Meaning

/- What an action means. -/
def Action.meaning
    (path : Path) :
    Action → Meaning
  | .print _ | .set _ _ | .placeOfType _ _ =>
      (ends .done).visits path
  | .breakLoop _ => (ends .broken).visits path
  | .continueLoop => ends .continued
  | .returnNow => ends .returned
  | _ => ends .done

mutual

/- What a statement means. -/
def meaning
    (answer : Nat → Nat)
    (path : Path) :
    Stmt → Meaning
  | .action _ a => a.meaning path
  | .ifThen _ _ thenBody =>
      (asks answer fun k =>
        if k = 0 then
          ends .done
        else
          blockMeaning answer (path ++ [.thenBody]) 0
            thenBody).visits path
  | .ifElse _ _ thenBody elseBody =>
      (asks answer fun k =>
        if k = 0 then
          blockMeaning answer (path ++ [.elseBody]) 0 elseBody
        else
          blockMeaning answer (path ++ [.thenBody]) 0
            thenBody).visits path
  | .switch _ _ cases default =>
      (asks answer
        (chosen
          ⟨casesMeaning answer path 0 cases,
            armMeaning answer (path ++ [.default])
              default⟩)).visits path
  | .forRange _ _ _ body =>
      (asks answer
        (blockMeaning answer (path ++ [.loopBody]) 0
          body).rounds).visits path
  | .forEach _ _ body =>
      (asks answer
        (blockMeaning answer (path ++ [.loopBody]) 0
          body).rounds).visits path
  | .function _ _ _ => ends .done
  | .branch _ _ _ => ends .done
  | .loop _ _ => ends .done
  | .attempt _ => ends .done

/- What a body means from its `i`-th statement on. -/
def blockMeaning
    (answer : Nat → Nat)
    (path : Path)
    (i : Nat) :
    List Stmt → Meaning
  | [] => ends .done
  | s :: rest =>
      (meaning answer (path ++ [.statement i]) s).andThen
        (blockMeaning answer path (i + 1) rest)

/- What a branch of a switch means. -/
def armMeaning
    (answer : Nat → Nat)
    (path : Path) :
    Arm (List Stmt) → Arm Meaning
  | .body block => .body (blockMeaning answer path 0 block)
  | .alias k => .alias k
  | .empty => .empty

/- What a case of a switch means. -/
def caseMeaning
    (answer : Nat → Nat)
    (path : Path) :
    Label × Arm (List Stmt) → Label × Arm Meaning
  | (l, arm) => (l, armMeaning answer path arm)

/- What the cases of a switch mean from the `i`-th on. -/
def casesMeaning
    (answer : Nat → Nat)
    (path : Path)
    (i : Nat) :
    List (Label × Arm (List Stmt)) → List (Label × Arm Meaning)
  | [] => []
  | c :: rest =>
      caseMeaning answer (path ++ [.case i]) c
        :: casesMeaning answer path (i + 1) rest

end

end FlowGraph.Script

------------------------------------------------------------
-- Switches
------------------------------------------------------------

namespace FlowGraph.Script

variable {answer : Nat → Nat} {path : Path}
variable {cases : List (Label × Arm (List Stmt))}
variable {default : Arm (List Stmt)}

/- The switch of a statement with what its bodies mean. -/
def meantSwitch
    (answer : Nat → Nat)
    (path : Path)
    (cases : List (Label × Arm (List Stmt)))
    (default : Arm (List Stmt)) :
    Switch Meaning :=
  ⟨casesMeaning answer path 0 cases,
    armMeaning answer (path ++ [.default]) default⟩

theorem casesMeaning_eq
    (i : Nat) :
    casesMeaning answer path i cases =
      cases.mapIdx fun j c =>
        (c.1, armMeaning answer (path ++ [.case (i + j)])
          c.2) := by
  induction cases generalizing i with
  | nil => rfl
  | cons c rest ih =>
      rcases c with ⟨l, arm⟩
      rw [casesMeaning, ih, List.mapIdx_cons]
      simp only [Nat.add_right_comm i 1, Nat.add_assoc]
      rfl

theorem meantSwitch_eq :
    meantSwitch answer path cases default =
      mapArms
        (fun segment =>
          armMeaning answer (path ++ [segment]))
        (Switch.mk cases default) := by
  simp only [meantSwitch, casesMeaning_eq, Nat.zero_add]
  rfl

/- A switch means something in the same branches. -/
theorem like_meantSwitch :
    (meantSwitch answer path cases default).Like
      (Switch.mk cases default) := by
  rw [meantSwitch_eq]
  apply like_mapArms
  intro segment arm
  cases arm <;> rfl

end FlowGraph.Script

------------------------------------------------------------
-- Plain Scripts
------------------------------------------------------------

namespace FlowGraph.Script

/-
  The actions whose meaning is known: those that only add
  data, calls of exec nodes that go on at their one exec
  output, and the ways to leave a body.  Which loops a break
  may name is said of blocks.
-/
def Action.plain : Action → Bool
  | .placeOfType nodeType _ => nodeType ∉ builtinTypes
  | .pin (.id _) _ _ => false
  | .beginFunction _ => false
  | .place _ => false
  | .placeBuiltin _ _ _ => false
  | .sealPath _ => false
  | .returnGate => false
  | .gateVariable => false
  | .setTail _ => false
  | .linkFrom _ _ => false
  | _ => true

/- A statement whose meaning is known, its bodies aside. -/
def Stmt.plain : Stmt → Bool
  | .action _ a => a.plain
  | .branch _ _ _ => false
  | .loop _ _ => false
  | .attempt _ => false
  | _ => true

end FlowGraph.Script
