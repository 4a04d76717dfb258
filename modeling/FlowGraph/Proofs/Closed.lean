import FlowGraph.Proofs.Actions
import FlowGraph.Proofs.Journal
import FlowGraph.Proofs.Provenance

/-
  Closed scripts.

  A closed script uses literals and what earlier statements
  gave it.  Every pin among the arguments of its nodes is
  then an output of an earlier node, of exactly the type of
  the argument, and no name ever stands for a return gate.

  Key definitions include:
    * `FlowGraph.Script.Stmt.closed`
    * `FlowGraph.Script.Session.Sane`
    * `FlowGraph.Script.Tidy`

  Key theorems include:
    * `FlowGraph.Script.does_prepare`
    * `FlowGraph.Script.tidy_runStmt`
    * `FlowGraph.Script.Session.Sane.runFrom`
-/

------------------------------------------------------------
-- Closed Scripts
------------------------------------------------------------

namespace FlowGraph.Script

/- The value is a literal of its type. -/
def isOwnLiteral
    (v : Value) :
    Bool :=
  match v.literal? with
  | some l =>
      match l.conform v.type with
      | .ok l' => l' = l
      | .error _ => false
  | none => false

/- Pins are only made by statements. -/
def Operand.closed : Operand → Bool
  | .value v => isOwnLiteral v
  | .pin _ _ _ _ => false
  | _ => true

def Argument.closed : Argument → Bool
  | .literal _ => true
  | .operand o => o.closed

/- The operands of an action. -/
def Action.closed : Action → Bool
  | .placeOfType _ args => args.all Operand.closed
  | .addData args _ _ => args.all Operand.closed
  | .place draft => draft.args.all Operand.closed
  | .placeBuiltin args _ _ => args.all Operand.closed
  | .addBuiltin args _ _ => args.all Operand.closed
  | .pin (.id _) _ _ => false
  | .keep o => o.closed
  | .binary _ x y => x.closed && y.closed
  | .unary _ x => x.closed
  | .declare initial => initial.closed
  | .set _ input => input.closed
  | .print input => input.closed
  | .list items _ => items.all Argument.closed
  | .dict pairs _ _ =>
      pairs.all fun p => p.1.closed && p.2.closed
  | _ => true

/- The operands of a statement, its bodies aside. -/
def Stmt.closed : Stmt → Bool
  | .action _ a => a.closed
  | .ifThen _ c _ => c.closed
  | .ifElse _ c _ _ => c.closed
  | .switch _ control _ _ => control.closed
  | .forRange _ start stop _ => start.closed && stop.closed
  | .forEach _ list _ => list.closed
  | _ => true

/- A script that makes all of its values itself. -/
def closed
    (script : List Stmt) :
    Bool :=
  everyIn Stmt.closed script

end FlowGraph.Script

------------------------------------------------------------
-- Names
------------------------------------------------------------

namespace FlowGraph.Script

/- Names stand for what is usable. -/
structure Names.Usable
    (H : Nat → Prop)
    (b : Builder)
    (names : Names) :
    Prop where
  values :
    ∀ p ∈ names.values, p.2.Usable b.graph (b.Hidden H)
  locals :
    ∀ p ∈ names.locals,
      Result.Usable H b (.variable p.2)
  nodes : ∀ p ∈ names.nodes, Result.Usable H b (.node p.2)

variable {H : Nat → Prop} {b b' : Builder} {names : Names}

/- A usable result stays usable. -/
theorem Result.Usable.follows
    {r : Result}
    (h : r.Usable H b)
    (hSane : b.Sane H)
    (hFollows : b.Follows H b') :
    r.Usable H b' := by
  cases r with
  | node id =>
      have hLe := hFollows.nextId_le
      have hLt := h.2
      refine ⟨?_, by omega⟩
      intro hId
      rcases hFollows.hidden id hId with hOld | hNew
      · exact h.1 hOld
      · omega
  | value v => exact hFollows.usable hSane h
  | «variable» v =>
      exact ⟨hFollows.usable hSane h.1,
        hFollows.usable hSane h.2⟩
  | _ => trivial

/- Names stay usable. -/
theorem Names.Usable.follows
    (h : names.Usable H b)
    (hSane : b.Sane H)
    (hFollows : b.Follows H b') :
    names.Usable H b' := by
  refine ⟨?_, ?_, ?_⟩
  · intro p hp
    exact hFollows.usable hSane (h.values p hp)
  · intro p hp
    exact (h.locals p hp).follows hSane hFollows
  · intro p hp
    exact (h.nodes p hp).follows hSane hFollows

/- A usable result may be named. -/
theorem Names.Usable.keep
    (h : names.Usable H b)
    (bind : Binding)
    {r : Result}
    (hr : r.Usable H b) :
    (names.keep bind r).Usable H b := by
  rcases bind with ⟨value, node⟩
  cases r with
  | node id =>
      cases node with
      | none => exact h
      | some name =>
          refine ⟨h.values, h.locals, ?_⟩
          intro p hp
          rcases List.mem_cons.mp hp with hEq | hp
          · rw [hEq]
            exact hr
          · exact h.nodes p hp
  | value v =>
      cases value with
      | none => exact h
      | some name =>
          refine ⟨?_, h.locals, h.nodes⟩
          intro p hp
          rcases List.mem_cons.mp hp with hEq | hp
          · rw [hEq]
            exact hr
          · exact h.values p hp
  | «variable» v =>
      cases value with
      | none => exact h
      | some name =>
          refine ⟨h.values, ?_, h.nodes⟩
          intro p hp
          rcases List.mem_cons.mp hp with hEq | hp
          · rw [hEq]
            exact hr
          · exact h.locals p hp
  | _ => exact h

end FlowGraph.Script

------------------------------------------------------------
-- Operands
------------------------------------------------------------

namespace FlowGraph.Script

variable {H : Nat → Prop} {b : Builder} {names : Names}

theorem usable_findVariable
    (h : names.Usable H b)
    {name : String}
    {v : Variable}
    (hv : names.findVariable name = .ok v) :
    Result.Usable H b (.variable v) := by
  unfold Names.findVariable at hv
  split at hv
  · rename_i w hw
    cases hv
    exact h.locals _ (mem_of_lookup hw)
  · cases hv

theorem usable_findValue
    (h : names.Usable H b)
    {name : String}
    {v : Value}
    (hv : names.findValue name = .ok v) :
    v.Usable b.graph (b.Hidden H) := by
  unfold Names.findValue at hv
  split at hv
  · rename_i w hw
    cases hv
    exact h.values _ (mem_of_lookup hw)
  · split at hv
    · rename_i w hw
      cases hv
      exact (h.locals _ (mem_of_lookup hw)).2
    · cases hv

theorem usable_findNode
    (h : names.Usable H b)
    {name : String}
    {id : Nat}
    (hId : names.findNode name = .ok id) :
    ¬ b.Hidden H id := by
  unfold Names.findNode at hId
  split at hId
  · rename_i found hFound
    cases hId
    exact (h.nodes _ (mem_of_lookup hFound)).1
  · cases hId

/- A literal of its own type is usable. -/
theorem usable_ownLiteral
    {g : Graph}
    {hidden : Nat → Prop}
    {v : Value}
    (h : isOwnLiteral v = true) :
    v.Usable g hidden := by
  rcases v with ⟨t, source⟩
  cases source with
  | pin p => cases h
  | literal l =>
      apply usable_of_literal
      unfold isOwnLiteral at h
      simp only [Value.literal?] at h
      split at h
      · rename_i l' hConform
        rw [hConform, of_decide_eq_true h]
      · cases h

/- What a closed operand comes to is usable. -/
theorem usable_eval
    (h : names.Usable H b)
    {o : Operand}
    (hClosed : o.closed = true)
    {v : Value}
    (hv : o.eval names = .ok v) :
    v.Usable b.graph (b.Hidden H) := by
  cases o with
  | value w =>
      cases hv
      exact usable_ownLiteral hClosed
  | literal typeName l =>
      rcases bind_eq_ok.mp hv with ⟨t, _, hv⟩
      exact usable_literal hv
  | pin typeName node slot index => cases hClosed
  | ref name => exact usable_findValue h hv
  | handle name =>
      rcases bind_eq_ok.mp hv with ⟨w, hw, hv⟩
      cases hv
      exact (usable_findVariable h hw).1

theorem usable_argument
    (h : names.Usable H b)
    {a : Argument}
    (hClosed : a.closed = true)
    {input : Input}
    (hEval : a.eval names = .ok input) :
    input.Usable b.graph (b.Hidden H) := by
  cases a with
  | literal l =>
      cases hEval
      trivial
  | operand o =>
      rcases bind_eq_ok.mp hEval with ⟨v, hv, hEval⟩
      cases hEval
      exact usable_eval h hClosed hv

end FlowGraph.Script

------------------------------------------------------------
-- Actions
------------------------------------------------------------

namespace FlowGraph.Script

variable {H : Nat → Prop} {b : Builder} {names : Names}

/- What closed operands come to is usable. -/
theorem usable_evals
    (h : names.Usable H b)
    {args : List Operand}
    (hClosed : args.all Operand.closed = true)
    {values : List Value}
    (hEval : args.mapM (Operand.eval names) = .ok values) :
    ∀ v ∈ values, v.Usable b.graph (b.Hidden H) := by
  intro v hv
  rcases exists_of_mem_mapM hEval hv with ⟨o, ho, hEq⟩
  exact usable_eval h (List.all_eq_true.mp hClosed o ho) hEq

/- The arguments of a node are those of its draft. -/
theorem usable_draft
    (h : names.Usable H b)
    {d : Draft}
    (hClosed : d.args.all Operand.closed = true)
    {n : Node}
    (hEval : d.eval names = .ok n) :
    ∀ v ∈ n.args, v.Usable b.graph (b.Hidden H) := by
  rcases bind_eq_ok.mp hEval with ⟨args, hArgs, hEval⟩
  rcases bind_eq_ok.mp hEval with ⟨outputs, _, hEval⟩
  cases hEval
  exact usable_evals h hClosed hArgs

/- A step that an action of a closed script stands for. -/
theorem does_prepare
    (hSane : b.Sane H)
    (h : names.Usable H b)
    {a : Action}
    (hStructured : a.structured = true)
    (hClosed : a.closed = true)
    {step : Build Result}
    (hStep : a.prepare names = .ok step) :
    b.Does H step := by
  cases a with
  | placeOfType nodeType args =>
      rcases bind_eq_ok.mp hStep with ⟨values, hArgs, hStep⟩
      cases hStep
      exact Builder.does_placeOfType hSane nodeType
        (usable_evals h hClosed hArgs)
  | addData args nodeType outputs =>
      rcases bind_eq_ok.mp hStep with ⟨values, hArgs, hStep⟩
      rcases bind_eq_ok.mp hStep with ⟨outs, _, hStep⟩
      cases hStep
      exact Builder.does_add hSane
        (usable_evals h hClosed hArgs)
  | place draft =>
      rcases bind_eq_ok.mp hStep with ⟨n, hn, hStep⟩
      cases hStep
      exact Builder.does_place hSane
        (usable_draft h hClosed hn)
  | placeBuiltin args kind dynamic =>
      rcases bind_eq_ok.mp hStep with ⟨values, hArgs, hStep⟩
      rcases bind_eq_ok.mp hStep with ⟨t, _, hStep⟩
      cases hStep
      exact Builder.does_place hSane
        (usable_evals h hClosed hArgs)
  | addBuiltin args kind dynamic =>
      rcases bind_eq_ok.mp hStep with ⟨values, hArgs, hStep⟩
      rcases bind_eq_ok.mp hStep with ⟨t, _, hStep⟩
      cases hStep
      exact Builder.does_add hSane
        (usable_evals h hClosed hArgs)
  | pin node slot index =>
      cases node with
      | id n => cases hStructured
      | name name =>
          rcases bind_eq_ok.mp hStep with ⟨id, hId, hStep⟩
          cases hStep
          exact Builder.does_pinValue hSane
            (usable_findNode h hId) slot index
  | keep o =>
      rcases bind_eq_ok.mp hStep with ⟨v, hv, hStep⟩
      cases hStep
      apply Builder.does_ofValue
      exact ⟨.refl hSane, usable_eval h hClosed hv⟩
  | binary op x y =>
      have hBoth := Bool.and_eq_true_iff.mp hClosed
      rcases bind_eq_ok.mp hStep with ⟨v, hv, hStep⟩
      rcases bind_eq_ok.mp hStep with ⟨w, hw, hStep⟩
      cases hStep
      exact Builder.does_binary hSane op
        (usable_eval h hBoth.1 hv) (usable_eval h hBoth.2 hw)
  | unary op x =>
      rcases bind_eq_ok.mp hStep with ⟨v, hv, hStep⟩
      cases hStep
      exact Builder.does_unary hSane op
        (usable_eval h hClosed hv)
  | declare initial =>
      rcases bind_eq_ok.mp hStep with ⟨v, hv, hStep⟩
      cases hStep
      exact Builder.does_declareVariable hSane
        (usable_eval h hClosed hv)
  | set name input =>
      rcases bind_eq_ok.mp hStep with ⟨v, hv, hStep⟩
      rcases bind_eq_ok.mp hStep with ⟨i, hi, hStep⟩
      cases hStep
      exact Builder.does_setVariable hSane
        (usable_findVariable h hv).1
        (usable_argument h hClosed hi)
  | print input =>
      rcases bind_eq_ok.mp hStep with ⟨i, hi, hStep⟩
      cases hStep
      exact Builder.does_printString hSane
        (usable_argument h hClosed hi)
  | list items element =>
      rcases bind_eq_ok.mp hStep with ⟨is, hItems, hStep⟩
      rcases bind_eq_ok.mp hStep with ⟨s, _, hStep⟩
      cases hStep
      apply Builder.does_assembleList hSane
      intro i hi
      rcases exists_of_mem_mapM hItems hi with ⟨a, ha, hEq⟩
      exact usable_argument h
        (List.all_eq_true.mp hClosed a ha) hEq
  | dict pairs key value =>
      rcases bind_eq_ok.mp hStep with ⟨ps, hPairs, hStep⟩
      rcases bind_eq_ok.mp hStep with ⟨k, _, hStep⟩
      rcases bind_eq_ok.mp hStep with ⟨t, _, hStep⟩
      cases hStep
      apply Builder.does_assembleDictionary hSane
      intro p hp
      rcases exists_of_mem_mapM hPairs hp with ⟨q, hq, hEq⟩
      rcases bind_eq_ok.mp hEq with ⟨x, hx, hEq⟩
      rcases bind_eq_ok.mp hEq with ⟨y, hy, hEq⟩
      cases hEq
      have hBoth :=
        Bool.and_eq_true_iff.mp
          (List.all_eq_true.mp hClosed q hq)
      exact ⟨usable_argument h hBoth.1 hx,
        usable_argument h hBoth.2 hy⟩
  | breakLoop loops =>
      rcases bind_eq_ok.mp hStep with ⟨ids, _, hStep⟩
      cases hStep
      exact Builder.does_ofNode
        (Builder.meets_breakLoop_usable hSane ids)
  | returnNow =>
      cases hStep
      exact Builder.does_returnNow hSane
  | continueLoop =>
      cases hStep
      exact Builder.does_continueLoop hSane
  | returnGate =>
      cases hStep
      exact Builder.does_returnGate hSane
  | beginFunction event => cases hStructured
  | sealPath returning => cases hStructured
  | gateVariable => cases hStructured
  | setTail tail => cases hStructured
  | linkFrom node index => cases hStructured

end FlowGraph.Script

------------------------------------------------------------
-- Sessions
------------------------------------------------------------

namespace FlowGraph.Script

/- The graph is ordered and names are usable. -/
structure Session.Sane
    (H : Nat → Prop)
    (s : Session) :
    Prop where
  builder : s.builder.Sane H
  names : s.names.Usable H s.builder

/- Nodes were added in order, and names are usable. -/
structure Session.Follows
    (H : Nat → Prop)
    (s s' : Session) :
    Prop where
  builder : s.builder.Follows H s'.builder
  names : s'.names.Usable H s'.builder

/- The body adds nodes in order, whatever is hidden. -/
def Tidy
    (body : Run Unit) :
    Prop :=
  ∀ H (s : Session), s.Sane H →
    body.Meets s (fun _ s' => s.Follows H s')
      (fun _ _ => True)

/- The same for a construct that yields its node. -/
def TidyNode
    (H : Nat → Prop)
    (s : Session)
    (m : Run Nat) :
    Prop :=
  m.Meets s
    (fun id s' =>
      s.Follows H s' ∧ Result.Usable H s'.builder (.node id))
    (fun _ _ => True)

namespace Session

variable {H : Nat → Prop} {s s₁ s₂ : Session}

theorem Follows.sane
    (h : s.Follows H s₁) :
    s₁.Sane H :=
  ⟨h.builder.sane, h.names⟩

theorem Follows.refl
    (h : s.Sane H) :
    s.Follows H s :=
  ⟨.refl h.builder, h.names⟩

theorem Follows.trans
    (h₁ : s.Follows H s₁)
    (h₂ : s₁.Follows H s₂) :
    s.Follows H s₂ :=
  ⟨h₁.builder.trans h₂.builder, h₂.names⟩

/- A step on the builder alone. -/
theorem follows_withBuilder
    {b : Builder}
    (h : s.Sane H)
    (hFollows : s.builder.Follows H b) :
    s.Follows H (s.withBuilder b) :=
  ⟨hFollows, h.names.follows h.builder hFollows⟩

/- A change of the frame that leaves the gate alone. -/
theorem follows_onFrame
    (h : s.Sane H)
    {f : Frame → Frame}
    (hGate : (f s.frame).gate = s.frame.gate) :
    s.Follows H (s.onFrame f) :=
  follows_withBuilder h
    (Builder.follows_frame h.builder hGate)

theorem follows_withTail
    (h : s.Sane H)
    (tail : List Endpoint) :
    s.Follows H (s.withTail tail) :=
  follows_onFrame h rfl

theorem follows_keep
    (h : s.Sane H)
    (bind : Binding)
    {r : Result}
    (hr : r.Usable H s.builder) :
    s.Follows H (s.withNames (s.names.keep bind r)) :=
  ⟨.refl h.builder, h.names.keep bind hr⟩

theorem follows_record
    (h : s.Sane H)
    (path : Path)
    (event : Event) :
    s.Follows H (s.record path event) :=
  ⟨.refl h.builder, h.names⟩

end Session

variable {H : Nat → Prop} {s : Session}

/- A built-in node with usable arguments is placed. -/
theorem meets_placeBuiltin_tidy
    {kind : Builtin}
    {args : List Value}
    {dynamic : Option ValueType}
    {Q : Nat → Session → Prop}
    (hSane : s.Sane H)
    (hArgs :
      ∀ v ∈ args,
        v.Usable s.builder.graph (s.builder.Hidden H))
    (h :
      ∀ s', s.Follows H s' →
        Result.Usable H s'.builder (.node s.graph.nextId) →
          s'.graph.nodes.get? s.graph.nextId =
              some (kind.node args dynamic) →
            Q s.graph.nextId s') :
    (liftM (Builder.placeBuiltin kind args dynamic)
        : Run Nat).Meets s Q (fun _ _ => True) := by
  rw [meets_build]
  refine Builder.meets_place_follows hSane.builder
    (fun v hv => Builder.usable_anyway (hArgs v hv)) ?_
  intro b hFollows hNot hNode hNext
  refine h (s.withBuilder b)
    (Session.follows_withBuilder hSane hFollows) ⟨hNot, ?_⟩
    hNode
  show s.builder.graph.nextId < b.graph.nextId
  omega

theorem Tidy.inBranch
    {body : Run Unit}
    (h : Tidy body)
    (hSane : s.Sane H)
    (node index : Nat) :
    (inBranch node index body).Meets s
      (fun _ s' => s.Follows H s') (fun _ _ => True) := by
  have hEnter :=
    Session.follows_withTail hSane [⟨node, index⟩]
  rw [meets_inBranch]
  refine (h H _ hEnter.sane).mono ?_ fun _ _ _ => trivial
  intro _ s' hBody
  have hRun := hEnter.trans hBody
  exact hRun.trans (Session.follows_withTail hRun.sane _)

theorem tidyNode_conditional
    {c : Value}
    {onTrue onFalse : Run Unit}
    (hSane : s.Sane H)
    (hc : c.Usable s.builder.graph (s.builder.Hidden H))
    (hTrue : Tidy onTrue)
    (hFalse : Tidy onFalse) :
    TidyNode H s (conditional c onTrue onFalse) := by
  unfold TidyNode conditional
  rw [Process.meets_bind, Process.meets_ofExcept]
  refine ⟨?_, fun _ _ => trivial⟩
  intro _ _
  rw [Process.meets_bind]
  refine meets_placeBuiltin_tidy hSane (by simpa using hc) ?_
  intro s₁ hPlaced hNode _
  rw [Process.meets_bind]
  refine (hTrue.inBranch hPlaced.sane _ _).mono ?_
    fun _ _ _ => trivial
  intro t s₂ hFirst
  rw [Process.meets_bind]
  refine (hFalse.inBranch hFirst.sane _ _).mono ?_
    fun _ _ _ => trivial
  intro f s₃ hSecond
  have hAfter :=
    Session.follows_withTail hSecond.sane
      (joinTails [t.tail, f.tail])
  have hBodies := hFirst.trans (hSecond.trans hAfter)
  exact ⟨hPlaced.trans hBodies,
    hNode.follows hPlaced.builder.sane hBodies.builder⟩

end FlowGraph.Script

------------------------------------------------------------
-- Switches
------------------------------------------------------------

namespace FlowGraph.Script

variable {H : Nat → Prop} {s : Session}

theorem tidy_runArms
    {arms : List (Arm (Run Unit))}
    (h :
      ∀ arm ∈ arms, ∀ body, arm.body? = some body →
        Tidy body)
    (hSane : s.Sane H)
    (node i : Nat) :
    (runArms node i arms).Meets s
      (fun _ s' => s.Follows H s') (fun _ _ => True) := by
  induction arms generalizing s i with
  | nil => exact Session.Follows.refl hSane
  | cons arm rest ih =>
      have hRest :
          ∀ arm ∈ rest, ∀ body, arm.body? = some body →
            Tidy body :=
        fun arm hArm => h arm (List.mem_cons_of_mem _ hArm)
      have hArm :
          (runArm node i arm).Meets s
            (fun _ s' => s.Follows H s')
            (fun _ _ => True) := by
        cases arm with
        | body body =>
            have hBody := h _ List.mem_cons_self body rfl
            unfold runArm
            rw [Process.meets_bind]
            exact hBody.inBranch hSane node i
        | empty => exact Session.Follows.refl hSane
        | «alias» k => exact Session.Follows.refl hSane
      unfold runArms
      rw [Process.meets_bind]
      refine hArm.mono ?_ fun _ _ _ => trivial
      intro _ s₁ hFirst
      rw [Process.meets_bind]
      refine (ih hRest hFirst.sane (i + 1)).mono ?_
        fun _ _ _ => trivial
      intro _ s₂ hOthers
      exact hFirst.trans hOthers

theorem tidy_wireAliases
    (hSane : s.Sane H)
    (node : Nat)
    (branches : List (Option Branch))
    (resolved : List (Option Branch × Nat))
    (i : Nat)
    (join : List Endpoint) :
    (wireAliases node branches i resolved join).Meets s
      (fun _ s' => s.Follows H s') (fun _ _ => True) := by
  refine (meets_wireAliases_nodes s node branches resolved i
    join).mono ?_ fun _ _ _ => trivial
  intro _ s' hWired
  rcases hWired with ⟨b, hSame, hEq⟩
  rw [hEq]
  exact Session.follows_withBuilder hSane
    (hSame.follows hSane.builder)

/- What a switch is placed with. -/
theorem usable_switchArgs
    {control : Value}
    (hControl :
      control.Usable s.builder.graph (s.builder.Hidden H))
    (labels : List Label) :
    ∀ v ∈ control :: labels.map Label.value,
      v.Usable s.builder.graph (s.builder.Hidden H) := by
  intro v hv
  rcases List.mem_cons.mp hv with hEq | hv
  · rw [hEq]
    exact hControl
  · rcases List.mem_map.mp hv with ⟨l, _, hEq⟩
    rw [← hEq]
    exact usable_label l

theorem tidyNode_dispatch
    {control : Value}
    (sw : Switch (Run Unit))
    (hSane : s.Sane H)
    (hControl :
      control.Usable s.builder.graph (s.builder.Hidden H))
    (h :
      ∀ arm ∈ sw.arms, ∀ body, arm.body? = some body →
        Tidy body) :
    TidyNode H s (dispatch control sw) := by
  have hArgs := usable_switchArgs hControl sw.labels
  unfold TidyNode dispatch
  rw [Process.meets_bind, Process.meets_ofExcept]
  refine ⟨?_, fun _ _ => trivial⟩
  intro targets _
  rw [Process.meets_bind]
  refine meets_placeBuiltin_tidy hSane hArgs ?_
  intro s₁ hPlaced hNode _
  rw [Process.meets_bind]
  refine (tidy_runArms h hPlaced.sane _ _).mono ?_
    fun _ _ _ => trivial
  intro branches s₂ hArms
  rw [Process.meets_bind]
  refine (tidy_wireAliases hArms.sane _ _ _ _ _).mono ?_
    fun _ _ _ => trivial
  intro join s₃ hWired
  have hAfter := Session.follows_withTail hWired.sane join
  have hBodies := hArms.trans (hWired.trans hAfter)
  exact ⟨hPlaced.trans hBodies,
    hNode.follows hPlaced.builder.sane hBodies.builder⟩

end FlowGraph.Script

------------------------------------------------------------
-- Loops And Functions
------------------------------------------------------------

namespace FlowGraph.Script

variable {H : Nat → Prop} {s : Session}

theorem tidy_returnGuard
    (hSane : s.Sane H) :
    (liftM returnGuard : Run Nat).Meets s
      (fun _ s' => s.Follows H s') (fun _ _ => True) := by
  have hGated := Builder.follows_gated hSane.builder
  have hValue :=
    (Builder.usable_gate
      (hGated.sane.gate _ Builder.gated_gate)).2
  rw [meets_build]
  unfold returnGuard
  simp only [Process.meets_bind, Builder.meets_returnGate]
  refine Builder.meets_place_follows hGated.sane ?_ ?_
  · intro v hv
    rw [List.mem_singleton.mp hv]
    exact hValue
  · intro b hPlaced _ _ _
    have hGuard := hGated.trans hPlaced
    exact Session.follows_withBuilder hSane
      (hGuard.trans
        (Builder.follows_frame hGuard.sane rfl))

/- The body of a loop may use its node and its value. -/
theorem tidy_loopBody
    {node : Nat}
    {body : Run Unit}
    (hSane : s.Sane H)
    (h :
      ∀ s', s.Follows H s' →
        body.Meets s' (fun _ s'' => s'.Follows H s'')
          (fun _ _ => True)) :
    (loopBody node body).Meets s
      (fun _ s' => s.Follows H s') (fun _ _ => True) := by
  have hTail :=
    Session.follows_withTail hSane [⟨node, 0⟩]
  have hEnter : s.Follows H (s.inRound node) :=
    hTail.trans (Session.follows_onFrame hTail.sane rfl)
  rw [meets_loopBody]
  refine (h _ hEnter).mono ?_ fun _ _ _ => trivial
  intro _ s₁ hBody
  have hLeft : s.Follows H (s₁.afterRounds node) := by
    have hPop :
        s₁.Follows H (s₁.onFrame fun f => f.popLoop.2) :=
      Session.follows_onFrame hBody.sane rfl
    exact (hEnter.trans hBody).trans
      (hPop.trans (Session.follows_withTail hPop.sane _))
  split
  · have hGuard := tidy_returnGuard hLeft.sane
    rw [meets_build] at hGuard
    refine hGuard.mono ?_ fun _ _ _ => trivial
    intro _ b hFollows
    exact hLeft.trans hFollows
  · exact hLeft

/- A loop whose value is the first output of its node. -/
theorem tidy_loop
    (kind : Builtin)
    (dynamic : Option ValueType)
    {args : List Value}
    {spec : PinSpec}
    {body : Nat → Value → Run Unit}
    (hSane : s.Sane H)
    (hArgs :
      ∀ v ∈ args,
        v.Usable s.builder.graph (s.builder.Hidden H))
    (hSpec : kind.outputs[0]? = some spec)
    (h :
      ∀ node value s', Session.Sane H s' →
        Result.Usable H s'.builder (.node node) →
          Result.Usable H s'.builder (.value value) →
            (body node value).Meets s'
              (fun _ s'' => s'.Follows H s'')
              (fun _ _ => True)) :
    TidyNode H s
      ((liftM (Builder.placeBuiltin kind args dynamic)
          : Run Nat) >>= fun node =>
        (liftM (Builder.pinValue node spec.name 0)
            : Run Value) >>= fun value =>
          loopBody node (body node value) >>= fun _ =>
            pure node) := by
  unfold TidyNode
  rw [Process.meets_bind]
  refine meets_placeBuiltin_tidy hSane hArgs ?_
  intro s₁ hPlaced hNode hGet
  have hOut :
      (kind.node args dynamic).output? spec.name 0 =
        some (spec.pin dynamic) :=
    Builder.output?_node hSpec
  rw [Process.meets_bind, meets_build,
    Builder.meets_pinValue hGet hOut, Process.meets_bind]
  have hValue :
      Result.Usable H s₁.builder
        (.value (.pin (spec.pin dynamic).type
          ⟨s.graph.nextId, spec.name, 0⟩)) :=
    usable_pin hNode.1 hGet hOut
  refine (tidy_loopBody (s := s₁) hPlaced.sane ?_).mono ?_
    fun _ _ _ => trivial
  · intro s₂ hFollows
    exact h _ _ s₂ hFollows.sane
      (hNode.follows hPlaced.builder.sane hFollows.builder)
      (hValue.follows hPlaced.builder.sane hFollows.builder)
  · intro _ s₂ hLoop
    exact ⟨hPlaced.trans hLoop,
      hNode.follows hPlaced.builder.sane hLoop.builder⟩

/-
  The body of a loop does with its node and its value what
  names can do with usable ones.
-/
def TidyInLoop
    (H : Nat → Prop)
    (body : Nat → Value → Run Unit) :
    Prop :=
  ∀ node value (s : Session), s.Sane H →
    Result.Usable H s.builder (.node node) →
      Result.Usable H s.builder (.value value) →
        (body node value).Meets s
          (fun _ s' => s.Follows H s') (fun _ _ => True)

theorem tidyNode_countingLoop
    {start stop : Input}
    {body : Nat → Value → Run Unit}
    (hSane : s.Sane H)
    (hStart :
      start.Usable s.builder.graph (s.builder.Hidden H))
    (hStop :
      stop.Usable s.builder.graph (s.builder.Hidden H))
    (h : TidyInLoop H body) :
    TidyNode H s (countingLoop start stop body) := by
  have hSpec :
      Builtin.finiteLoop.outputs[0]? =
        some ⟨"current_loop_value", some .int⟩ := rfl
  unfold TidyNode countingLoop
  rw [Process.meets_bind, Process.meets_ofExcept]
  refine ⟨?_, fun _ _ => trivial⟩
  intro x hx
  rw [Process.meets_bind, Process.meets_ofExcept]
  refine ⟨?_, fun _ _ => trivial⟩
  intro y hy
  have hArgs :
      ∀ v ∈ [x, y],
        v.Usable s.builder.graph (s.builder.Hidden H) := by
    intro v hv
    rcases List.mem_cons.mp hv with hEq | hv
    · rw [hEq]
      exact usable_read hStart hx
    · rw [List.mem_singleton.mp hv]
      exact usable_read hStop hy
  have hLoop := tidy_loop .finiteLoop none hSane hArgs hSpec h
  unfold TidyNode at hLoop
  exact hLoop

theorem tidyNode_itemLoop
    {list : Value}
    {body : Nat → Value → Run Unit}
    (hSane : s.Sane H)
    (hList :
      list.Usable s.builder.graph (s.builder.Hidden H))
    (h : TidyInLoop H body) :
    TidyNode H s (itemLoop list body) := by
  have hSpec :
      Builtin.listIterationLoop.outputs[0]? =
        some ⟨"iteration_value", none⟩ := rfl
  unfold TidyNode itemLoop
  rw [Process.meets_bind, Process.meets_ofExcept]
  refine ⟨?_, fun _ _ => trivial⟩
  intro element _
  have hArgs :
      ∀ v ∈ [list],
        v.Usable s.builder.graph (s.builder.Hidden H) := by
    simpa using hList
  have hLoop :=
    tidy_loop .listIterationLoop (some element) hSane hArgs
      hSpec h
  unfold TidyNode at hLoop
  exact hLoop

/- A loop and the value of its rounds are given names. -/
theorem follows_keepLoop
    {node : Nat}
    {value : Value}
    (hSane : s.Sane H)
    (hNode : Result.Usable H s.builder (.node node))
    (hValue : Result.Usable H s.builder (.value value))
    (bind : Binding) :
    s.Follows H
      (s.withNames
        ((s.names.keep bind (.value value)).keep bind
          (.node node))) := by
  have hFirst := Session.follows_keep hSane bind hValue
  exact hFirst.trans
    (Session.follows_keep hFirst.sane bind hNode)

/- The body of a loop names the loop and its value. -/
theorem Tidy.keepLoop
    {body : Run Unit}
    (h : Tidy body)
    (H : Nat → Prop)
    (bind : Binding) :
    TidyInLoop H fun node value =>
      keepLoop bind node value >>= fun _ => body := by
  intro node value s hSane hNode hValue
  have hKept := follows_keepLoop hSane hNode hValue bind
  rw [Process.meets_bind, meets_keepLoop]
  refine (h H _ hKept.sane).mono ?_ fun _ _ _ => trivial
  intro _ s' hBody
  exact hKept.trans hBody

/- The start of a function, the gate around it hidden. -/
theorem Session.Sane.opened
    (h : s.Sane H)
    (event : String) :
    (s.opened event).Sane (s.builder.Hidden H) := by
  have hAdded :
      s.builder.Follows H
        (s.builder.added (entryNode event)) := by
    apply Builder.follows_added h.builder
    intro v hv
    rw [List.mem_singleton.mp hv]
    exact usable_str event
  have hNames :=
    h.names.follows h.builder hAdded
  have hHidden :
      ∀ id,
        (s.opened event).builder.Hidden
            (s.builder.Hidden H) id →
          s.builder.Hidden H id := by
    intro id hId
    rcases hId with hId | ⟨v, hv, _⟩
    · exact hId
    · cases hv
  have hUsable :
      ∀ {v : Value},
        v.Usable (s.builder.added (entryNode event)).graph
            ((s.builder.added (entryNode event)).Hidden
              H) →
          v.Usable (s.opened event).builder.graph
            ((s.opened event).builder.Hidden
              (s.builder.Hidden H)) := by
    intro v hv
    exact hv.mono (fun _ _ hNode => hNode)
      fun id _ _ hId => hHidden id hId
  refine ⟨⟨hAdded.sane.ordered, ?_, ?_⟩, ?_, ?_, ?_⟩
  · intro id hId
    exact hAdded.sane.hidden id (hHidden id hId)
  · intro v hv
    cases hv
  · intro p hp
    exact hUsable (hNames.values p hp)
  · intro p hp
    exact ⟨hUsable (hNames.locals p hp).1,
      hUsable (hNames.locals p hp).2⟩
  · intro p hp
    exact ⟨fun hId => (hNames.nodes p hp).1 (hHidden _ hId),
      (hNames.nodes p hp).2⟩

/- A function leaves the frame around it as it was. -/
theorem tidyNode_inFunction
    {body : Run Unit}
    (hSane : s.Sane H)
    (h : Tidy body)
    (event : String) :
    TidyNode H s (inFunction event body) := by
  have hOpened := hSane.opened event
  unfold TidyNode
  rw [meets_inFunction]
  refine (h _ _ hOpened).mono ?_ fun _ _ _ => trivial
  intro _ s' hBody
  have hOld :
      ∀ id n, s.graph.nodes.get? id = some n →
        s'.graph.nodes.get? id = some n := by
    intro id n hNode
    apply hBody.builder.nodes id n
    have hLt : id < s.graph.nextId :=
      hSane.builder.ordered.below hNode
    rw [show (s.opened event).builder.graph.nodes =
      s.graph.nodes.insert s.graph.nextId (entryNode event)
      from rfl, Table.get?_insert_of_ne _ _ (by omega)]
    exact hNode
  have hLt : s.graph.nextId < s'.graph.nextId :=
    hBody.builder.nextId_le
  -- What was hidden before was hidden inside as well.
  have hHidden :
      ∀ id,
        (s'.onFrame fun _ => s.frame).builder.Hidden H id →
          s'.builder.Hidden (s.builder.Hidden H) id :=
    fun id hId => Or.inl hId
  have hUsable :
      ∀ {v : Value},
        v.Usable s'.builder.graph
            (s'.builder.Hidden (s.builder.Hidden H)) →
          v.Usable (s'.onFrame fun _ => s.frame).builder.graph
            ((s'.onFrame fun _ => s.frame).builder.Hidden
              H) := by
    intro v hv
    exact hv.mono (fun _ _ hNode => hNode)
      fun id _ _ hId => hHidden id hId
  refine ⟨⟨⟨⟨hBody.builder.sane.ordered, ?_, ?_⟩, hOld,
      Nat.le_of_lt hLt, fun _ hId => Or.inl hId,
      hBody.builder.config⟩, ?_, ?_, ?_⟩, ?_, hLt⟩
  · intro id hId
    exact hBody.builder.sane.hidden id (hHidden id hId)
  · intro v hv
    exact (hSane.builder.gate v hv).mono hOld
  · intro p hp
    exact hUsable (hBody.names.values p hp)
  · intro p hp
    exact ⟨hUsable (hBody.names.locals p hp).1,
      hUsable (hBody.names.locals p hp).2⟩
  · intro p hp
    have hNode := hBody.names.nodes p hp
    exact ⟨fun hId => hNode.1 (hHidden _ hId), hNode.2⟩
  · intro hId
    exact Nat.lt_irrefl _ (hSane.builder.hidden _ hId)

end FlowGraph.Script

------------------------------------------------------------
-- Statements
------------------------------------------------------------

namespace FlowGraph.Script

variable {H : Nat → Prop} {s : Session} {path : Path}

/- A statement whose result is usable is journaled. -/
theorem tidy_journaled
    {m : Run Result}
    (bind : Binding)
    (h :
      m.Meets s
        (fun r s' => s.Follows H s' ∧ r.Usable H s'.builder)
        (fun _ _ => True)) :
    (journaled path bind m).Meets s
      (fun _ s' => s.Follows H s') (fun _ _ => True) := by
  rw [meets_journaled]
  refine h.mono ?_ fun _ _ _ => trivial
  intro r s' hResult
  have hKept :=
    Session.follows_keep hResult.1.sane bind hResult.2
  exact hResult.1.trans
    (hKept.trans (Session.follows_record hKept.sane _ _))

/- The operands of a construct are evaluated before it. -/
theorem tidy_resolved
    {α β : Type}
    {f : Names → Except Error α}
    {k : α → Run β}
    {Q : β → Session → Prop}
    (h :
      ∀ a, f s.names = .ok a →
        (k a).Meets s Q (fun _ _ => True)) :
    (resolved f >>= k).Meets s Q (fun _ _ => True) := by
  rw [Process.meets_bind, meets_resolved]
  exact ⟨h, fun _ _ => trivial⟩

theorem Tidy.entered
    {body : Run Unit}
    (h : Tidy body)
    (path : Path) :
    Tidy (entered path body) := by
  intro H s hSane
  have hEntered :=
    Session.follows_record hSane path .entered
  rw [meets_entered]
  refine (h H _ hEntered.sane).mono ?_ fun _ _ _ => trivial
  intro _ s' hBody
  exact hEntered.trans hBody

theorem tidy_yield :
    Tidy (Process.yield ()) :=
  fun _ _ hSane => Session.Follows.refl hSane

/- Statements and blocks of closed scripts are tidy. -/
theorem tidy_runStmt :
    (∀ st : Stmt, st.every Stmt.structured = true →
      st.every Stmt.closed = true →
        ∀ path, Tidy (runStmt path st)) ∧
    ∀ block : List Stmt,
      everyIn Stmt.structured block = true →
        everyIn Stmt.closed block = true →
          ∀ path i, Tidy (runBlock path i block) := by
  apply Stmt.induction
  · intro st hBodies hStructured hClosed path H s hSane
    have hParts := (Stmt.every_iff st).mp hStructured
    have hOperands := (Stmt.every_iff st).mp hClosed
    have hSelf := hOperands.1
    have hBody :
        ∀ b ∈ st.bodies, ∀ p : Path,
          Tidy (entered p (runBlock p 0 b)) := by
      intro b hb p
      exact (hBodies b hb (hParts.2 b hb) (hOperands.2 b hb)
        p 0).entered p
    cases st with
    | action bind a =>
        apply tidy_journaled
        apply tidy_resolved
        intro step hStep
        rw [meets_build]
        refine (does_prepare hSane.builder hSane.names
          hParts.1 hSelf hStep).mono ?_ fun _ _ _ => trivial
        intro r b hDoes
        exact ⟨Session.follows_withBuilder hSane hDoes.1,
          hDoes.2⟩
    | function bind event body =>
        have hInner := hBody body (by simp [Stmt.bodies])
        apply tidy_journaled
        rw [Process.meets_bind]
        exact tidyNode_inFunction hSane (hInner _) event
    | ifThen bind c thenBody =>
        have hThen := hBody thenBody (by simp [Stmt.bodies])
        apply tidy_journaled
        apply tidy_resolved
        intro v hv
        rw [Process.meets_bind]
        exact tidyNode_conditional hSane
          (usable_eval hSane.names hSelf hv) (hThen _)
          tidy_yield
    | ifElse bind c thenBody elseBody =>
        have hThen := hBody thenBody (by simp [Stmt.bodies])
        have hElse := hBody elseBody (by simp [Stmt.bodies])
        apply tidy_journaled
        apply tidy_resolved
        intro v hv
        rw [Process.meets_bind]
        exact tidyNode_conditional hSane
          (usable_eval hSane.names hSelf hv) (hThen _)
          (hElse _)
    | switch bind control cases default =>
        apply tidy_journaled
        apply tidy_resolved
        intro v hv
        rw [Process.meets_bind]
        refine tidyNode_dispatch
          (preparedSwitch path cases default) hSane
          (usable_eval hSane.names hSelf hv) ?_
        intro arm hArm body hEq
        rcases List.mem_iff_getElem?.mp hArm with ⟨j, hj⟩
        rcases body_preparedSwitch bind control hj hEq with
          ⟨b, hb, hRun⟩
        rw [hRun]
        exact hBody b (Stmt.mem_bodies hb) _
    | forRange bind start stop body =>
        have hInner := hBody body (by simp [Stmt.bodies])
        have hEnds := Bool.and_eq_true_iff.mp hSelf
        apply tidy_journaled
        apply tidy_resolved
        intro a ha
        apply tidy_resolved
        intro b hb
        rw [Process.meets_bind]
        exact tidyNode_countingLoop hSane
          (usable_argument hSane.names hEnds.1 ha)
          (usable_argument hSane.names hEnds.2 hb)
          ((hInner _).keepLoop H bind)
    | forEach bind list body =>
        have hInner := hBody body (by simp [Stmt.bodies])
        apply tidy_journaled
        apply tidy_resolved
        intro v hv
        rw [Process.meets_bind]
        exact tidyNode_itemLoop hSane
          (usable_eval hSane.names hSelf hv)
          ((hInner _).keepLoop H bind)
    | branch node index body => cases hParts.1
    | loop node body => cases hParts.1
    | attempt body => cases hParts.1
  · intro _ _ path i
    exact tidy_yield
  · intro st rest hSt hRest hStructured hClosed path i H s
      hSane
    have hParts := everyIn_cons.mp hStructured
    have hOperands := everyIn_cons.mp hClosed
    unfold runBlock
    rw [Process.meets_bind]
    refine (hSt hParts.1 hOperands.1 _ H s hSane).mono ?_
      fun _ _ _ => trivial
    intro _ s₁ hFirst
    refine (hRest hParts.2 hOperands.2 path (i + 1) H s₁
      hFirst.sane).mono ?_ fun _ _ _ => trivial
    intro _ s₂ hOthers
    exact hFirst.trans hOthers

end FlowGraph.Script

------------------------------------------------------------
-- Scripts
------------------------------------------------------------

namespace FlowGraph.Script

variable {H : Nat → Prop} {s : Session}

/- Less may be hidden. -/
theorem Session.Sane.mono
    {H' : Nat → Prop}
    (h : s.Sane H')
    (hSub : ∀ id, H id → H' id) :
    s.Sane H := by
  have hHidden :
      ∀ id, s.builder.Hidden H id →
        s.builder.Hidden H' id :=
    fun id hId => hId.imp_left (hSub id)
  have hUsable :
      ∀ {v : Value},
        v.Usable s.builder.graph (s.builder.Hidden H') →
          v.Usable s.builder.graph (s.builder.Hidden H) :=
    fun hv => hv.mono (fun _ _ hNode => hNode)
      fun id _ _ hId => hHidden id hId
  refine ⟨⟨h.builder.ordered, ?_, h.builder.gate⟩,
    ?_, ?_, ?_⟩
  · intro id hId
    exact h.builder.hidden id (hHidden id hId)
  · intro p hp
    exact hUsable (h.names.values p hp)
  · intro p hp
    exact ⟨hUsable (h.names.locals p hp).1,
      hUsable (h.names.locals p hp).2⟩
  · intro p hp
    exact ⟨fun hId => (h.names.nodes p hp).1 (hHidden _ hId),
      (h.names.nodes p hp).2⟩

/- A statement at the top of a closed script. -/
theorem Session.Sane.meets_runStmt
    (h : s.Sane H)
    {st : Stmt}
    (hStructured :
      (st.begins || st.every Stmt.structured) = true)
    (hClosed : st.every Stmt.closed = true)
    (path : Path) :
    (runStmt path st).Meets s
      (fun _ s' =>
        s'.Sane H ∧ s'.builder.config = s.builder.config)
      (fun _ _ => True) := by
  rcases Bool.or_eq_true _ _ ▸ hStructured with
    hBegins | hEvery
  · unfold Stmt.begins at hBegins
    split at hBegins
    · rename_i bind event
      have hOpened := (h.opened event).mono fun _ => Or.inl
      have hNode :
          Result.Usable H (s.opened event).builder
            (.node s.graph.nextId) := by
        refine ⟨?_, Nat.lt_succ_self _⟩
        intro hId
        rcases hId with hId | ⟨v, hv, _⟩
        · exact Nat.lt_irrefl _
            (h.builder.hidden _ (Or.inl hId))
        · cases hv
      rw [meets_begin]
      have hKept := follows_keep hOpened bind hNode
      exact ⟨(follows_record hKept.sane path _).sane, rfl⟩
    · cases hBegins
  · exact (tidy_runStmt.1 st hEvery hClosed path H s h).mono
      (fun _ _ hFollows =>
        ⟨hFollows.sane, hFollows.builder.config⟩)
      fun _ _ _ => trivial

/- A closed script that is not refused keeps order. -/
theorem Session.Sane.runFrom
    {block : List Stmt}
    (h : s.Sane H)
    (hStructured : structured block = true)
    (hClosed : closed block = true)
    {i : Nat}
    (hOk :
      ∀ e ∈ (Script.runFrom i block s).journal,
        e.event.isFailure = false) :
    (Script.runFrom i block s).Sane H ∧
      (Script.runFrom i block s).builder.config =
        s.builder.config := by
  refine runFrom_preserves
    (I := fun s' =>
      s'.Sane H ∧ s'.builder.config = s.builder.config)
    ⟨h, rfl⟩ ?_ hOk
  intro j st hj s₁ hSane
  have hMem := List.mem_of_getElem? hj
  have hStmt := List.all_eq_true.mp hStructured st hMem
  have hOperands := everyIn_iff.mp hClosed st hMem
  refine (hSane.1.meets_runStmt hStmt hOperands _).mono ?_
    fun _ _ _ => trivial
  intro _ s₂ hNext
  exact ⟨hNext.1, hNext.2.trans hSane.2⟩

/- A new session is sane. -/
theorem sane_new
    (name : String)
    (config : Config) :
    (Session.new name config).Sane (fun _ => False) := by
  have hNone :
      ∀ id n,
        (Graph.empty name).nodes.get? id ≠ some n := by
    intro id n hNode
    cases hNode
  refine ⟨⟨⟨fun hNode => absurd hNode (hNone _ _),
      fun hNode => absurd hNode (hNone _ _)⟩, ?_, ?_⟩,
    ?_, ?_, ?_⟩
  · intro id hId
    rcases hId with hId | ⟨v, hv, _⟩
    · exact hId.elim
    · cases hv
  · intro v hv
    cases hv
  · intro p hp
    cases hp
  · intro p hp
    cases hp
  · intro p hp
    cases hp

end FlowGraph.Script
