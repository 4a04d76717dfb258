import FlowGraph.Proofs.Tracking
import FlowGraph.Proofs.Structured

/-
  Names, operands and actions of a script that can be moved.

  A statement refers to earlier results by name and, at
  times, by number.  If the names stand for the same things
  with the numbers put up, and no other numbers are written
  down than those of nodes from before, an action does the
  same in both cases.

  Key definitions include:
    * `FlowGraph.Script.Names.Moved`
    * `FlowGraph.Script.Names.Same`
    * `FlowGraph.Script.Stmt.within`

  Key theorems include:
    * `FlowGraph.Script.Names.Moved.keep`
    * `FlowGraph.Script.Names.Moved.operand`
    * `FlowGraph.Script.Names.Moved.prepare`
-/

------------------------------------------------------------
-- Names
------------------------------------------------------------

namespace FlowGraph.Script

open Builder (IdMoved)

variable {k d n n' : Nat} {V : String → Bool}
variable {L : List String} {names names' names₁ : Names}

/-
  Names that are to be seen stand for the same things, the
  numbers put up.
-/
structure Names.Moved
    (V : String → Bool)
    (k d n : Nat)
    (names names' : Names) :
    Prop where
  values :
    ∀ x, V x = true →
      Option.Rel (Value.Moved k d n) (names.values.lookup x)
        (names'.values.lookup x)
  locals :
    ∀ x, V x = true →
      Option.Rel (Variable.Moved k d n)
        (names.locals.lookup x) (names'.locals.lookup x)
  nodes :
    ∀ x, V x = true →
      Option.Rel (IdMoved k d n) (names.nodes.lookup x)
        (names'.nodes.lookup x)

/- Nothing was kept but under the listed names. -/
structure Names.Same
    (L : List String)
    (names names' : Names) :
    Prop where
  values :
    ∀ x, x ∉ L →
      names'.values.lookup x = names.values.lookup x
  locals :
    ∀ x, x ∉ L →
      names'.locals.lookup x = names.locals.lookup x
  nodes :
    ∀ x, x ∉ L →
      names'.nodes.lookup x = names.nodes.lookup x

namespace Names

theorem Moved.mono
    (h : names.Moved V k d n names')
    (hLe : n ≤ n') :
    names.Moved V k d n' names' where
  values x hx :=
    rel_mono (h.values x hx) fun _ _ hMoved => hMoved.mono hLe
  locals x hx :=
    rel_mono (h.locals x hx) fun _ _ hMoved => hMoved.mono hLe
  nodes x hx :=
    rel_mono (h.nodes x hx) fun _ _ hMoved => hMoved.mono hLe

theorem Same.refl
    (names : Names) :
    names.Same L names :=
  ⟨fun _ _ => rfl, fun _ _ => rfl, fun _ _ => rfl⟩

theorem Same.trans
    (h₁ : names.Same L names₁)
    (h₂ : names₁.Same L names') :
    names.Same L names' where
  values x hx := (h₂.values x hx).trans (h₁.values x hx)
  locals x hx := (h₂.locals x hx).trans (h₁.locals x hx)
  nodes x hx := (h₂.nodes x hx).trans (h₁.nodes x hx)

/- A name more in front of related lists. -/
theorem rel_lookup_cons
    {α : Type}
    {Q : α → α → Prop}
    {a a' : α}
    {kept kept' : List (String × α)}
    (hNew : Q a a')
    (hOld :
      ∀ x, V x = true →
        Option.Rel Q (kept.lookup x) (kept'.lookup x))
    (name x : String)
    (hx : V x = true) :
    Option.Rel Q (((name, a) :: kept).lookup x)
      (((name, a') :: kept').lookup x) := by
  rw [List.lookup_cons, List.lookup_cons]
  split
  · exact .some hNew
  · exact hOld x hx

theorem lookup_cons_of_not_mem
    {α : Type}
    {name x : String}
    (hName : name ∈ L)
    (hx : x ∉ L)
    (a : α)
    (kept : List (String × α)) :
    ((name, a) :: kept).lookup x = kept.lookup x := by
  have hNe : x ≠ name := by
    rintro rfl
    exact hx hName
  rw [List.lookup_cons, beq_false_of_ne hNe]

end Names

end FlowGraph.Script

------------------------------------------------------------
-- Results
------------------------------------------------------------

namespace FlowGraph.Script

open Builder (IdMoved)

variable {k d n n' : Nat} {V : String → Bool}
variable {L : List String} {names names' : Names}

/- The same result with its numbers put up. -/
inductive Result.Moved
    (k d n : Nat) :
    Result → Result → Prop
  | none : Moved k d n .none .none
  | node
      {id id' : Nat}
      (h : IdMoved k d n id id') :
      Moved k d n (.node id) (.node id')
  | value
      {v v' : Value}
      (h : v.Moved k d n v') :
      Moved k d n (.value v) (.value v')
  | variable
      {v v' : Variable}
      (h : v.Moved k d n v') :
      Moved k d n (.variable v) (.variable v')
  | gate
      {v v' : Variable}
      (h : v.Moved k d n v') :
      Moved k d n (.gate v) (.gate v')

/- The names of a binding are listed. -/
def Binding.within
    (L : List String)
    (bind : Binding) :
    Bool :=
  bind.value.all (L.contains ·) &&
    bind.node.all (L.contains ·)

namespace Names

section Keep

variable {α : Type} {bind : Names → String → α → Names}
variable {a a' : α}

theorem Moved.keepAs
    (h : names.Moved V k d n names')
    (hBind :
      ∀ name, (bind names name a).Moved V k d n
        (bind names' name a'))
    (name : Option String) :
    (names.keepAs bind name a).Moved V k d n
      (names'.keepAs bind name a') := by
  cases name with
  | none => exact h
  | some name => exact hBind name

theorem same_keepAs
    {name : Option String}
    (hName : name.all (L.contains ·) = true)
    (hBind :
      ∀ name ∈ L, names.Same L (bind names name a)) :
    names.Same L (names.keepAs bind name a) := by
  cases name with
  | none => exact .refl names
  | some name => exact hBind name (by simpa using hName)

end Keep

/- A result is kept under the same name. -/
theorem Moved.keep
    {r r' : Result}
    (h : names.Moved V k d n names')
    (hResult : r.Moved k d n r')
    (bind : Binding) :
    (names.keep bind r).Moved V k d n
      (names'.keep bind r') := by
  cases hResult with
  | none => exact h
  | gate hv => exact h
  | node hId =>
      exact h.keepAs (fun name => ⟨h.values, h.locals,
        rel_lookup_cons hId h.nodes name⟩) _
  | value hv =>
      exact h.keepAs (fun name =>
        ⟨rel_lookup_cons hv h.values name, h.locals,
          h.nodes⟩) _
  | «variable» hv =>
      exact h.keepAs (fun name => ⟨h.values,
        rel_lookup_cons hv h.locals name, h.nodes⟩) _

/- A result is kept under a listed name. -/
theorem same_keep
    {bind : Binding}
    (hBind : bind.within L = true)
    (names : Names)
    (r : Result) :
    names.Same L (names.keep bind r) := by
  rcases Bool.and_eq_true_iff.mp hBind with ⟨hValue, hNode⟩
  cases r with
  | node id =>
      exact same_keepAs hNode fun name hName =>
        ⟨fun _ _ => rfl, fun _ _ => rfl, fun x hx =>
          lookup_cons_of_not_mem hName hx _ _⟩
  | value v =>
      exact same_keepAs hValue fun name hName =>
        ⟨fun x hx => lookup_cons_of_not_mem hName hx _ _,
          fun _ _ => rfl, fun _ _ => rfl⟩
  | «variable» v =>
      exact same_keepAs hValue fun name hName =>
        ⟨fun _ _ => rfl, fun x hx =>
          lookup_cons_of_not_mem hName hx _ _,
          fun _ _ => rfl⟩
  | _ => exact .refl names

end Names

end FlowGraph.Script

------------------------------------------------------------
-- What A Statement Refers To
------------------------------------------------------------

namespace FlowGraph.Script

/- The node has a lower number or a name that is seen. -/
def NodeRef.within
    (k : Nat)
    (V : String → Bool) :
    NodeRef → Bool
  | .id i => i < k
  | .name x => V x

/- The same for all that an operand refers to. -/
def Operand.within
    (k : Nat)
    (V : String → Bool) :
    Operand → Bool
  | .value v => v.Below k
  | .literal _ _ => true
  | .pin _ node _ _ => node.within k V
  | .ref x => V x
  | .handle x => V x

def Argument.within
    (k : Nat)
    (V : String → Bool) :
    Argument → Bool
  | .literal _ => true
  | .operand o => o.within k V

/-
  The action refers to nothing else, and the numbers that a
  node which stops loops is given are those of a break.
-/
def Action.within
    (k : Nat)
    (V : String → Bool) :
    Action → Bool
  | .placeOfType nodeType args =>
      nodeType != "break_loop" &&
        args.all (Operand.within k V)
  | .addData args nodeType _ =>
      nodeType != "break_loop" &&
        args.all (Operand.within k V)
  | .place draft =>
      draft.nodeType != "break_loop" &&
        draft.args.all (Operand.within k V)
  | .placeBuiltin args kind _ =>
      kind != .breakLoop && args.all (Operand.within k V)
  | .addBuiltin args kind _ =>
      kind != .breakLoop && args.all (Operand.within k V)
  | .pin node _ _ => node.within k V
  | .keep o => o.within k V
  | .binary _ a b => a.within k V && b.within k V
  | .unary _ a => a.within k V
  | .declare initial => initial.within k V
  | .set name input => V name && input.within k V
  | .print input => input.within k V
  | .list items _ => items.all (Argument.within k V)
  | .dict pairs _ _ =>
      pairs.all fun p => p.1.within k V && p.2.within k V
  | .breakLoop loops => loops.all (NodeRef.within k V)
  | .setTail tail => tail.all fun e => e.node.within k V
  | .linkFrom node _ => node.within k V
  | _ => true

/- The same for a statement, its bodies aside. -/
def Stmt.within
    (k : Nat)
    (V : String → Bool) :
    Stmt → Bool
  | .action _ a => a.within k V
  | .ifThen _ c _ => c.within k V
  | .ifElse _ c _ _ => c.within k V
  | .switch _ c _ _ => c.within k V
  | .forRange _ start stop _ =>
      start.within k V && stop.within k V
  | .forEach _ list _ => list.within k V
  | .branch node _ _ => node.within k V
  | .loop node _ => node.within k V
  | _ => true

/- The names under which a statement keeps its results. -/
def Stmt.keeping : Stmt → Binding
  | .action bind _ => bind
  | .function bind _ _ => bind
  | .ifThen bind _ _ => bind
  | .ifElse bind _ _ _ => bind
  | .switch bind _ _ _ => bind
  | .forRange bind _ _ _ => bind
  | .forEach bind _ _ => bind
  | _ => .none

end FlowGraph.Script

------------------------------------------------------------
-- Operands
------------------------------------------------------------

namespace FlowGraph.Script

open Builder (IdMoved)

variable {k d n : Nat} {V : String → Bool}
variable {names names' : Names}

namespace Names.Moved

theorem findVariable
    (h : names.Moved V k d n names')
    {x : String}
    (hx : V x = true) :
    Carries (Variable.Moved k d n) (names.findVariable x)
      (names'.findVariable x) := by
  have hRel := h.locals x hx
  unfold Names.findVariable
  revert hRel
  generalize names.locals.lookup x = found
  generalize names'.locals.lookup x = found'
  intro hRel
  cases hRel with
  | none => exact .error
  | some hv => exact .ok hv

theorem findNode
    (h : names.Moved V k d n names')
    {x : String}
    (hx : V x = true) :
    Carries (IdMoved k d n) (names.findNode x)
      (names'.findNode x) := by
  have hRel := h.nodes x hx
  unfold Names.findNode
  revert hRel
  generalize names.nodes.lookup x = found
  generalize names'.nodes.lookup x = found'
  intro hRel
  cases hRel with
  | none => exact .error
  | some hId => exact .ok hId

theorem findValue
    (h : names.Moved V k d n names')
    {x : String}
    (hx : V x = true) :
    Carries (Value.Moved k d n) (names.findValue x)
      (names'.findValue x) := by
  have hRel := h.values x hx
  have hLocal := h.locals x hx
  unfold Names.findValue
  revert hRel hLocal
  generalize names.values.lookup x = found
  generalize names'.values.lookup x = found'
  generalize names.locals.lookup x = kept
  generalize names'.locals.lookup x = kept'
  intro hRel hLocal
  cases hRel with
  | some hv => exact .ok hv
  | none =>
      cases hLocal with
      | none => exact .error
      | some hv => exact .ok hv.value

theorem node
    (h : names.Moved V k d n names')
    (hLe : k ≤ n)
    {ref : NodeRef}
    (hRef : ref.within k V = true) :
    Carries (IdMoved k d n) (ref.eval names)
      (ref.eval names') := by
  cases ref with
  | id i =>
      have hLt : i < k := of_decide_eq_true hRef
      exact .ok ⟨Nat.lt_of_lt_of_le hLt hLe,
        (shift_of_lt hLt).symm⟩
  | name x => exact h.findNode hRef

theorem operand
    (h : names.Moved V k d n names')
    (hLe : k ≤ n)
    {o : Operand}
    (ho : o.within k V = true) :
    Carries (Value.Moved k d n) (o.eval names)
      (o.eval names') := by
  cases o with
  | value v =>
      have hBelow : v.Below k := of_decide_eq_true ho
      exact .ok (Value.moved_of_below hBelow hLe)
  | literal typeName l =>
      refine (Carries.same _).bind ?_
      rintro t _ rfl v hv
      exact ⟨v, hv, Value.moved_of_usable (g := .empty "")
        (usable_literal hv)⟩
  | pin typeName node slot index =>
      refine (Carries.same _).bind ?_
      rintro t _ rfl
      refine (h.node hLe ho).bind fun id id' hId => ?_
      rw [hId.eq]
      exact .ok (Value.moved_pin hId.lt _ _ _)
  | ref x => exact h.findValue ho
  | handle x =>
      exact (h.findVariable ho).bind fun _ _ hv =>
        .ok hv.handle

theorem operands
    (h : names.Moved V k d n names')
    (hLe : k ≤ n)
    {args : List Operand}
    (hArgs : args.all (Operand.within k V) = true) :
    Carries (List.Forall₂ (Value.Moved k d n))
      (args.mapM (Operand.eval names))
      (args.mapM (Operand.eval names')) :=
  .mapM_same fun o ho =>
    h.operand hLe (List.all_eq_true.mp hArgs o ho)

theorem argument
    (h : names.Moved V k d n names')
    (hLe : k ≤ n)
    {a : Argument}
    (ha : a.within k V = true) :
    Carries (Input.Moved k d n) (a.eval names)
      (a.eval names') := by
  cases a with
  | literal l => exact .ok (.literal l)
  | operand o =>
      exact (h.operand hLe ha).bind fun _ _ hv =>
        .ok (.value hv)

theorem pair
    (h : names.Moved V k d n names')
    (hLe : k ≤ n)
    {p : Argument × Argument}
    (hp : (p.1.within k V && p.2.within k V) = true) :
    Carries
      (fun q q' => q.1.Moved k d n q'.1 ∧
        q.2.Moved k d n q'.2)
      (evalPair names p) (evalPair names' p) := by
  rcases Bool.and_eq_true_iff.mp hp with ⟨ha, hb⟩
  refine (h.argument hLe ha).bind fun i i' hi => ?_
  exact (h.argument hLe hb).bind fun j j' hj => .ok ⟨hi, hj⟩

end Names.Moved

end FlowGraph.Script

------------------------------------------------------------
-- Actions
------------------------------------------------------------

namespace FlowGraph.Script

open Builder (IdMoved moving)
open Process (Tracks Whatever)

variable {k d n : Nat} {V : String → Bool}
variable {names names' : Names}

/- A plain node with other numbers. -/
theorem moved_plain
    {nodeType : String}
    {args args' : List Value}
    (hType : (nodeType != "break_loop") = true)
    (hArgs : List.Forall₂ (Value.Moved k d n) args args')
    (nodeClass : NodeClass)
    (execOutputs : Nat)
    (outputs : List OutputPin) :
    Node.Moved k d n
      ⟨nodeClass, nodeType, args, execOutputs, outputs⟩
      ⟨nodeClass, nodeType, args', execOutputs, outputs⟩ :=
  .plain
    (m := ⟨nodeClass, nodeType, args, execOutputs, outputs⟩)
    (by simpa using hType) hArgs

theorem tracks_placeOfType
    {nodeType : String}
    {args args' : List Value}
    (hType : (nodeType != "break_loop") = true)
    (hArgs : List.Forall₂ (Value.Moved k d n) args args') :
    Tracks (moving k d) n (IdMoved k d)
      (Builder.placeOfType nodeType args)
      (Builder.placeOfType nodeType args') := by
  unfold Builder.placeOfType
  have hPlain :=
    Builder.tracks_place (moved_plain hType hArgs .exec 1 [])
  split
  · rename_i kind hKind
    split
    · have hNot : kind ≠ .breakLoop := by
        rintro rfl
        have hName := List.find?_some hKind
        exact bne_iff_ne.mp hType
          (of_decide_eq_true hName).symm
      exact Builder.tracks_placeBuiltin hNot hArgs none
    · exact hPlain
  · exact hPlain

/- The results of a step on the builder. -/
theorem Action.tracks_ofNode
    {m m' : Build Nat}
    (h : Tracks (moving k d) n (IdMoved k d) m m') :
    Tracks (moving k d) n (Result.Moved k d)
      (Action.ofNode m) (Action.ofNode m') :=
  h.bind fun _ _ _ _ hId =>
    Process.tracks_pure fun _ hLe => .node (hId.mono hLe)

theorem Action.tracks_ofValue
    {m m' : Build Value}
    (h : Tracks (moving k d) n (Value.Moved k d) m m') :
    Tracks (moving k d) n (Result.Moved k d)
      (Action.ofValue m) (Action.ofValue m') :=
  h.bind fun _ _ _ _ hv =>
    Process.tracks_pure fun _ hLe => .value (hv.mono hLe)

theorem Action.tracks_ofUnit
    {m m' : Build Unit}
    (h : Tracks (moving k d) n Whatever m m') :
    Tracks (moving k d) n (Result.Moved k d)
      (Action.ofUnit m) (Action.ofUnit m') :=
  h.andThen fun _ _ => Process.tracks_pure fun _ _ => .none

/- The steps that an action stands for track each other. -/
theorem Names.Moved.prepare
    {a : Action}
    (h : names.Moved V k d n names')
    (hLe : k ≤ n)
    (hStructured : a.structured = true)
    (hWithin : a.within k V = true) :
    Carries
      (Tracks (moving k d) n (Result.Moved k d))
      (a.prepare names) (a.prepare names') := by
  cases a with
  | beginFunction | sealPath | gateVariable | setTail
  | linkFrom =>
      cases hStructured
  | placeOfType nodeType args =>
      rcases Bool.and_eq_true_iff.mp hWithin with ⟨hType, hArgs⟩
      refine (h.operands hLe hArgs).bind
        fun args args' hArgs => ?_
      exact .ok (Action.tracks_ofNode
        (tracks_placeOfType hType hArgs))
  | addData args nodeType outputs =>
      rcases Bool.and_eq_true_iff.mp hWithin with ⟨hType, hArgs⟩
      refine (h.operands hLe hArgs).bind
        fun args args' hArgs => ?_
      refine (Carries.same _).bind ?_
      rintro pins _ rfl
      exact .ok (Action.tracks_ofNode (Builder.tracks_add
        (moved_plain hType hArgs .data 0 pins)))
  | place draft =>
      rcases Bool.and_eq_true_iff.mp hWithin with ⟨hType, hArgs⟩
      refine Carries.bind (Q := Node.Moved k d n) ?_
        fun m m' hm => .ok (Action.tracks_ofNode
          (Builder.tracks_place hm))
      refine (h.operands hLe hArgs).bind
        fun args args' hArgs => ?_
      refine (Carries.same _).bind ?_
      rintro pins _ rfl
      exact .ok (moved_plain hType hArgs _ _ pins)
  | placeBuiltin args kind dynamic =>
      rcases Bool.and_eq_true_iff.mp hWithin with ⟨hKind, hArgs⟩
      refine (h.operands hLe hArgs).bind
        fun args args' hArgs => ?_
      refine (Carries.same _).bind ?_
      rintro t _ rfl
      exact .ok (Action.tracks_ofNode
        (Builder.tracks_placeBuiltin (by simpa using hKind)
          hArgs _))
  | addBuiltin args kind dynamic =>
      rcases Bool.and_eq_true_iff.mp hWithin with ⟨hKind, hArgs⟩
      refine (h.operands hLe hArgs).bind
        fun args args' hArgs => ?_
      refine (Carries.same _).bind ?_
      rintro t _ rfl
      exact .ok (Action.tracks_ofNode
        (Builder.tracks_addBuiltin (by simpa using hKind)
          hArgs _))
  | pin node slot index =>
      refine (h.node hLe hWithin).bind fun id id' hId => ?_
      rw [hId.eq]
      exact .ok (Action.tracks_ofValue
        (Builder.tracks_pinValue id slot index))
  | keep o =>
      refine (h.operand hLe hWithin).bind fun v v' hv => ?_
      exact .ok (Action.tracks_ofValue
        (Process.tracks_pure fun _ hLe => hv.mono hLe))
  | binary op a b =>
      rcases Bool.and_eq_true_iff.mp hWithin with ⟨ha, hb⟩
      refine (h.operand hLe ha).bind fun v v' hv => ?_
      refine (h.operand hLe hb).bind fun w w' hw => ?_
      exact .ok (Action.tracks_ofValue
        (Builder.tracks_binary op hv hw))
  | unary op a =>
      refine (h.operand hLe hWithin).bind fun v v' hv => ?_
      exact .ok (Action.tracks_ofValue
        (Builder.tracks_unary op hv))
  | declare initial =>
      refine (h.operand hLe hWithin).bind fun v v' hv => ?_
      exact .ok ((Builder.tracks_declareVariable hv).bind
        fun _ _ _ _ hVariable => Process.tracks_pure
          fun _ hLe => .variable (hVariable.mono hLe))
  | set name input =>
      rcases Bool.and_eq_true_iff.mp hWithin with
        ⟨hName, hInput⟩
      refine (h.findVariable hName).bind fun v v' hv => ?_
      refine (h.argument hLe hInput).bind fun i i' hi => ?_
      exact .ok (Action.tracks_ofNode
        (Builder.tracks_setVariable hv hi))
  | print input =>
      refine (h.argument hLe hWithin).bind fun i i' hi => ?_
      exact .ok (Action.tracks_ofNode
        (Builder.tracks_printString hi))
  | list items element =>
      refine (Carries.mapM_same fun a ha => h.argument hLe
        (List.all_eq_true.mp hWithin a ha)).bind
          fun inputs inputs' hInputs => ?_
      refine (Carries.same _).bind ?_
      rintro t _ rfl
      exact .ok (Action.tracks_ofValue
        (Builder.tracks_assembleList hInputs t))
  | dict pairs key value =>
      refine (Carries.mapM_same fun p hp => h.pair hLe
        (List.all_eq_true.mp hWithin p hp)).bind
          fun inputs inputs' hInputs => ?_
      refine (Carries.same _).bind ?_
      rintro t _ rfl
      refine (Carries.same _).bind ?_
      rintro u _ rfl
      exact .ok (Action.tracks_ofValue
        (Builder.tracks_assembleDictionary hInputs t u))
  | breakLoop loops =>
      refine (Carries.mapM_same fun r hr => h.node hLe
        (List.all_eq_true.mp hWithin r hr)).bind
          fun ids ids' hIds => ?_
      exact .ok (Action.tracks_ofNode
        (Builder.tracks_breakLoop hIds))
  | returnNow =>
      exact .ok (Action.tracks_ofUnit Builder.tracks_returnNow)
  | continueLoop =>
      exact .ok
        (Action.tracks_ofUnit Builder.tracks_continueLoop)
  | returnGate =>
      exact .ok (Builder.tracks_returnGate.bind
        fun _ _ _ _ hGate => Process.tracks_pure
          fun _ hLe => .gate (hGate.mono hLe))

end FlowGraph.Script
