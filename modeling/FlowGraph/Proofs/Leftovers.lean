import FlowGraph.Proofs.Validation
import FlowGraph.Proofs.Wiring

/-
  What a refused construct leaves behind.

  A conditional, a switch or a loop that is refused because
  of one of its bodies leaves its node in the graph and the
  cursor at the node's first exec output.  The next node can
  be placed there only if the body that runs from this
  output has not linked it before.

  Key definitions include:
    * `FlowGraph.Script.Session.Stranded`
    * `FlowGraph.Script.Stmt.firstBody?`

  Key theorems include:
    * `FlowGraph.Script.Session.Stranded.inBranch`
    * `FlowGraph.Script.stranded_runStmt`
    * `FlowGraph.Script.refused_body_leaves_first_output`
-/

------------------------------------------------------------
-- Placing At One Exec Output
------------------------------------------------------------

namespace FlowGraph.Builder

open Process

variable {b : Builder} {n m : Node}

/- A new node with exec outputs, and the flow at the first. -/
structure Placed
    (n : Node)
    (b b' : Builder) :
    Prop where
  node : b'.graph.nodes.get? b.graph.nextId = some n
  tail : b'.frame.tail = [⟨b.graph.nextId, 0⟩]
  unlinked :
    ∀ index, b'.graph.execTarget ⟨b.graph.nextId, index⟩ = none

/- A node that is placed has no links of its own yet. -/
theorem meets_place_placed
    (hOrderly : b.graph.Orderly)
    (hRooted : b.Rooted)
    (hOutputs : 0 < n.execOutputs) :
    (place n).Meets b
      (fun id b' => id = b.graph.nextId ∧ b.Placed n b')
      (fun _ _ => True) := by
  unfold place
  simp only [meets_bind, meets_fromFrame, meets_add]
  refine (leaves_iff.mp (leaves_each_links _ _) _).mono ?_
    fun _ _ _ => trivial
  intro _ b' hLinks
  rw [if_pos hOutputs]
  refine ⟨rfl, ?_, rfl, ?_⟩
  · change b'.graph.nodes.get? _ = _
    rw [hLinks.same.nodes]
    exact Table.get?_insert_self _ _ _
  · intro index
    have hApart :
        (⟨b.graph.nextId, index⟩ : Endpoint) ∉ b.frame.tail :=
      fun hIn => Nat.lt_irrefl _ (hRooted _ hIn)
    exact (hLinks.apart _ hApart).trans
      (hOrderly.execTarget_eq_none (Nat.le_refl _))

/- An exec output is linked if and only if it is not yet. -/
theorem meets_connect_output
    {e : Endpoint}
    {t : Nat}
    (hSource : b.graph.IsOutput e)
    (hTarget : b.graph.IsExec t) :
    (connect e t).Meets b
      (fun _ _ => b.graph.execTarget e = none)
      (fun err _ => (∃ u, b.graph.execTarget e = some u) ∧
        err = .onNode (.execOutputAlreadyConnected e.index)
          e.node) := by
  unfold Meets connect
  cases hLink : b.graph.execTarget e with
  | none => rw [Graph.connect_eq_ok ⟨hSource, hLink⟩ hTarget]
  | some u =>
      have hTaken : b.graph.links.contains e = true := by
        unfold Graph.execTarget at hLink
        simp [Table.contains, hLink]
      have hRefused :
          b.graph.connect e t =
            .error
              (.onNode (.execOutputAlreadyConnected e.index)
                e.node) := by
        unfold Graph.connect
        rw [Graph.checkLink_eq_ok.mpr ⟨hSource, hTarget⟩]
        exact if_pos hTaken
      rw [hRefused]
      exact ⟨⟨u, rfl⟩, rfl⟩

/-
  An exec node can be placed at a single exec output if and
  only if this output has no link.
-/
theorem meets_place_at_output
    {e : Endpoint}
    (hOrderly : b.graph.Orderly)
    (hTail : b.frame.tail = [e])
    (hOutput : b.graph.IsOutput e)
    (hExec : n.nodeClass = .exec) :
    (place n).Meets b
      (fun id _ => b.graph.execTarget e = none ∧
        id = b.graph.nextId)
      (fun err _ => (∃ t, b.graph.execTarget e = some t) ∧
        err = .onNode (.execOutputAlreadyConnected e.index)
          e.node) := by
  have hSource : (b.added n).graph.IsOutput e := by
    rcases hOutput with ⟨m, hNode, hRest⟩
    have hLt := hOrderly.consecutive.node_lt hNode
    refine ⟨m, ?_, hRest⟩
    exact (Table.get?_insert_of_ne _ _
      (Nat.ne_of_lt hLt)).trans hNode
  have hTarget : (b.added n).graph.IsExec b.graph.nextId :=
    ⟨n, Table.get?_insert_self _ _ _, hExec⟩
  unfold place
  simp only [meets_bind, meets_fromFrame, meets_add]
  change (each _ b.frame.tail).Meets _ _ _
  rw [hTail, each, meets_bind]
  refine (meets_connect_output (b :=
    { b.added n with frame := b.frame.setTail [] })
      hSource hTarget).mono ?_ fun _ _ h => h
  intro _ b' hOpen
  rw [each, meets_yield]
  split
  · exact ⟨hOpen, rfl⟩
  · exact ⟨hOpen, rfl⟩

/- The same in terms of what the step yields. -/
theorem place_at_output
    {e : Endpoint}
    (hOrderly : b.graph.Orderly)
    (hTail : b.frame.tail = [e])
    (hOutput : b.graph.IsOutput e)
    (hExec : n.nodeClass = .exec) :
    (b.graph.execTarget e = none →
      (place n b).1 = .ok b.graph.nextId) ∧
    ∀ t, b.graph.execTarget e = some t →
      (place n b).1 =
        .error
          (.onNode (.execOutputAlreadyConnected e.index)
            e.node) := by
  have hPlace :=
    meets_place_at_output hOrderly hTail hOutput hExec
  unfold Meets at hPlace
  rcases hRun : place n b with ⟨err | id, b'⟩
  · rw [hRun] at hPlace
    rcases hPlace with ⟨⟨t, hLink⟩, rfl⟩
    refine ⟨fun hOpen => ?_, fun _ _ => rfl⟩
    cases hOpen.symm.trans hLink
  · rw [hRun] at hPlace
    rcases hPlace with ⟨hOpen, rfl⟩
    refine ⟨fun _ => rfl, fun t hLink => ?_⟩
    cases hOpen.symm.trans hLink

end FlowGraph.Builder

------------------------------------------------------------
-- Bodies
------------------------------------------------------------

namespace FlowGraph.Script

namespace Session

/- An entry about the place or one in it shows the graph. -/
def Tells
    (inner : Path)
    (s s' : Session) :
    Prop :=
  s.journal <:+ s'.journal ∧
    (s'.graph = s.graph ∨
      ∃ d ∈ s'.journal, inner <+: d.path ∧
        d.graph = s'.graph)

variable {inner : Path} {s s₁ s₂ : Session}

theorem Tells.trans
    (h₁ : s.Tells inner s₁)
    (h₂ : s₁.Tells inner s₂) :
    s.Tells inner s₂ := by
  refine ⟨h₁.1.trans h₂.1, ?_⟩
  rcases h₂.2 with hSame | hShown
  · rcases h₁.2 with hSame' | ⟨d, hd, hPath, hGraph⟩
    · exact Or.inl (hSame.trans hSame')
    · exact Or.inr ⟨d, h₂.1.subset hd, hPath,
        hGraph.trans hSame.symm⟩
  · exact Or.inr hShown

end Session

/- The last entry of a statement shows the graph. -/
theorem tells_runStmt
    {inner path : Path}
    (hPath : inner <+: path)
    (st : Stmt) :
    (runStmt path st).Leaves (Session.Tells inner) := by
  rw [Process.leaves_iff]
  intro s
  have hSuffix :
      (runStmt path st).Meets s
        (fun _ s' => s.journal <:+ s'.journal)
        (fun _ s' => s.journal <:+ s'.journal) :=
    (writes_runStmt.1 st path s).mono
      (fun _ _ h => h.suffix) fun _ _ h => h.suffix
  have hShown :
      (runStmt path st).Meets s
        (fun _ s' => ∃ d ∈ s'.journal, inner <+: d.path ∧
          d.graph = s'.graph)
        (fun _ s' => ∃ d ∈ s'.journal, inner <+: d.path ∧
          d.graph = s'.graph) := by
    rcases runStmt_eq_journaled path st with ⟨bind, m, hEq⟩
    rw [hEq, meets_journaled]
    unfold Process.Meets
    split
    · exact ⟨_, List.mem_cons_self, hPath, rfl⟩
    · exact ⟨_, List.mem_cons_self, hPath, rfl⟩
  exact (hSuffix.and hShown).mono
    (fun _ _ h => ⟨h.1, Or.inr h.2⟩)
    fun _ _ h => ⟨h.1, Or.inr h.2⟩

theorem tells_runBlock
    (inner : Path)
    (i : Nat)
    (block : List Stmt) :
    (runBlock inner i block).Leaves (Session.Tells inner) := by
  induction block generalizing i with
  | nil => exact fun s => ⟨List.suffix_refl _, Or.inl rfl⟩
  | cons st rest ih =>
      intro s
      exact Process.bind_state Session.Tells.trans
        (tells_runStmt (List.prefix_append _ _) st s)
        fun _ => ih (i + 1)

/-
  A body was run at a place: it has linked what was listed or
  new, and an entry about the place shows the graph.
-/
structure Session.Ran
    (inner : Path)
    (s s' : Session) :
    Prop where
  goesOn : s.builder.GoesOn s'.builder
  orderly :
    s.graph.Orderly →
      s'.graph.Orderly ∧ s.graph.Appends s'.graph
  tells : s.Tells inner s'

theorem ran_body
    {block : List Stmt}
    (h : everyIn Stmt.structured block = true)
    (inner : Path) :
    (entered inner (runBlock inner 0 block)).Leaves
      (Session.Ran inner) := by
  intro s
  have hTame := (tame_runStmt.2 block inner 0 h).entered inner
  refine ⟨?_, ?_, ?_⟩
  · exact Process.meets_state.mp ((hTame s).mono
      (fun _ _ hRun => hRun.goesOn) fun _ _ hRun => hRun)
  · exact ((Session.passes_runBlock Graph.stepwise_orderly
      inner 0 block) (s.record inner .entered)).ends
  · rcases tells_runBlock inner 0 block
        (s.record inner .entered) with ⟨hSuffix, hShown⟩
    exact ⟨(List.suffix_cons _ _).trans hSuffix, hShown⟩

/- Keeping what a loop yields is no part of its body. -/
theorem ran_round
    {block : List Stmt}
    (h : everyIn Stmt.structured block = true)
    (inner : Path)
    (bind : Binding)
    (node : Nat)
    (value : Value) :
    (do
      keepLoop bind node value
      entered inner (runBlock inner 0 block)).Leaves
        (Session.Ran inner) := by
  rw [Process.leaves_iff]
  intro s
  rw [Process.meets_bind, meets_keepLoop]
  apply Process.meets_state.mpr
  have hRun := ran_body h inner (s.withNames
    ((s.names.keep bind (.value value)).keep bind
      (.node node)))
  exact ⟨hRun.goesOn, hRun.orderly, hRun.tells⟩

theorem ran_nothing
    (inner : Path) :
    (Process.yield () : Run Unit).Leaves
      (Session.Ran inner) :=
  fun _ => ⟨.refl _, fun h => ⟨h, .refl _⟩,
    List.suffix_refl _, Or.inl rfl⟩

end FlowGraph.Script

------------------------------------------------------------
-- Stranded Sessions
------------------------------------------------------------

namespace FlowGraph.Script

/-
  The flow is at the first exec output of a node.  If this
  output has a link, it was made in the body that is run
  from it, and an entry of the body shows it.
-/
structure Session.Stranded
    (node : Nat)
    (inner : Path)
    (s : Session) :
    Prop where
  orderly : s.graph.Orderly
  tail : s.frame.tail = [⟨node, 0⟩]
  output : s.graph.IsOutput ⟨node, 0⟩
  linked :
    ∀ t, s.graph.execTarget ⟨node, 0⟩ = some t →
      ∃ d ∈ s.journal, inner <+: d.path ∧
        d.graph.execTarget ⟨node, 0⟩ = some t

namespace Session.Stranded

variable {node index : Nat} {place inner : Path}
variable {s : Session}

/-
  A body at one of the node's exec outputs changes this in no
  case, since the first output is linked by the body that is
  run from it.
-/
theorem inBranch
    {body : Run Unit}
    (h : s.Stranded node inner)
    (hBody : body.Leaves (Session.Ran place))
    (hPlace : index = 0 → place = inner) :
    (Script.inBranch node index body).Meets s
      (fun _ s' => s'.Stranded node inner)
      (fun _ s' => s'.Stranded node inner) := by
  rw [meets_inBranch]
  apply Process.meets_state.mpr
  have hRun := hBody (s.withTail [⟨node, index⟩])
  rcases hRun.orderly h.orderly with ⟨hOrderly, hAppends⟩
  refine ⟨hOrderly, h.tail, ?_, ?_⟩
  · rcases h.output with ⟨n, hNode, hRest⟩
    exact ⟨n, hAppends.get? hNode, hRest⟩
  · intro t hLink
    rcases hRun.tells with ⟨hSuffix, hShown⟩
    have hOld :
        s.graph.execTarget ⟨node, 0⟩ = some t →
          ∃ d ∈ (body (s.withTail [⟨node, index⟩])).2.journal,
            inner <+: d.path ∧
              d.graph.execTarget ⟨node, 0⟩ = some t := by
      intro hLink'
      rcases h.linked t hLink' with ⟨d, hd, hFound⟩
      exact ⟨d, hSuffix.subset hd, hFound⟩
    by_cases hFirst : index = 0
    · rcases hShown with hSame | ⟨d, hd, hPath, hGraph⟩
      · exact hOld (hSame ▸ hLink)
      · exact ⟨d, hd, hPlace hFirst ▸ hPath, hGraph ▸ hLink⟩
    · rcases h.output with ⟨n, hNode, _⟩
      have hLt := h.orderly.consecutive.node_lt hNode
      have hNot :
          (⟨node, 0⟩ : Endpoint) ∉ [⟨node, index⟩] := by
        simpa using fun hEq => hFirst hEq.symm
      exact hOld ((hRun.goesOn.apart hLt hNot) ▸ hLink)

theorem record
    (h : s.Stranded node inner)
    (path : Path)
    (event : Event) :
    (s.record path event).Stranded node inner := by
  refine ⟨h.orderly, h.tail, h.output, ?_⟩
  intro t hLink
  rcases h.linked t hLink with ⟨d, hd, hFound⟩
  exact ⟨d, List.mem_cons_of_mem _ hd, hFound⟩

end Session.Stranded

end FlowGraph.Script

------------------------------------------------------------
-- Constructs
------------------------------------------------------------

namespace FlowGraph.Script

open Session

variable {α : Type} {inner : Path}

/-
  A construct that is refused has written of no refusal, or
  it leaves the flow at the first exec output of its node.
-/
def Strands
    (inner : Path)
    (m : Run α) :
    Prop :=
  ∀ s : Session, s.graph.Orderly → s.builder.Rooted →
    m.Meets s (fun _ _ => True)
      (fun _ s' => s.Clean s' ∨
        s'.Stranded s.graph.nextId inner)

/- Where nothing was written, no refusal was. -/
theorem Session.clean_of_quiet
    {s s' : Session}
    (h : s.Wrote (fun _ => False) s') :
    s.Clean s' := by
  rcases h with ⟨news, hJournal, -, hNews⟩
  exact ⟨news, hJournal, fun d hd => (hNews d hd).elim⟩

/- A check before a construct writes nothing. -/
theorem Strands.checked
    {β : Type}
    {r : Except Error β}
    {f : β → Run α}
    (hf : ∀ a, r = .ok a → Strands inner (f a)) :
    Strands inner ((liftM r : Run β) >>= f) := by
  intro s hOrderly hRooted
  rw [Process.meets_bind, Process.meets_ofExcept]
  refine ⟨fun a ha => hf a ha s hOrderly hRooted, ?_⟩
  intro _ _
  exact Or.inl (clean_of_eq rfl)

theorem Strands.resolved
    {β : Type}
    {g : Names → Except Error β}
    {f : β → Run α}
    (hf : ∀ a, Strands inner (f a)) :
    Strands inner (resolved g >>= f) := by
  intro s hOrderly hRooted
  rw [Process.meets_bind, meets_resolved]
  refine ⟨fun a _ => hf a s hOrderly hRooted, ?_⟩
  intro _ _
  exact Or.inl (clean_of_eq rfl)

/- From the first body on the flow is at the new node. -/
theorem Strands.placed
    {kind : Builtin}
    {args : List Value}
    {dynamic : Option ValueType}
    {f : Nat → Run α}
    (hNode :
      (kind.node args dynamic).nodeClass = .exec ∧
        0 < (kind.node args dynamic).execOutputs)
    (hf :
      ∀ (s s' : Session) id, s.Came s' →
        (∀ index, s.AreNew s' [⟨id, index⟩]) →
          s'.Stranded id inner →
            (f id).Meets s' (fun _ _ => True)
              (fun _ s'' => s.Clean s'' ∨
                s''.Stranded id inner)) :
    Strands inner
      ((liftM (Builder.placeBuiltin kind args dynamic)
        : Run Nat) >>= f) := by
  intro s hOrderly hRooted
  rw [Process.meets_bind]
  have hPlaced :
      (liftM (Builder.placeBuiltin kind args dynamic)
        : Run Nat).Meets s
        (fun id s' => id = s.graph.nextId ∧
          s'.Stranded id inner)
        (fun _ s' => s.Clean s') := by
    rw [meets_build]
    refine (((Builder.meets_place_placed hOrderly hRooted
      hNode.2).and (Process.leaves_iff.mp
        (Graph.stepwise_orderly.place _) s.builder))).mono
          ?_ fun _ _ _ => clean_of_eq rfl
    rintro id b ⟨⟨rfl, hPlaced⟩, hStep⟩
    refine ⟨rfl, (hStep hOrderly).1, hPlaced.tail,
      ⟨_, hPlaced.node, hNode⟩, ?_⟩
    intro t hLink
    cases (hPlaced.unlinked 0).symm.trans hLink
  refine (hPlaced.and (meets_placed_came s _ _ _)).mono ?_
    fun _ _ h => Or.inl h.1
  rintro id s' ⟨⟨rfl, hStranded⟩, hCame, hNew⟩
  exact hf s s' _ hCame hNew hStranded

theorem strands_conditional
    {place : Path}
    {onTrue onFalse : Run Unit}
    (hTrue : onTrue.Leaves (Session.Ran inner))
    (hFalse : onFalse.Leaves (Session.Ran place))
    (c : Value) :
    Strands inner (conditional c onTrue onFalse) := by
  refine Strands.checked fun _ _ => Strands.placed
    ⟨rfl, Nat.zero_lt_succ _⟩ ?_
  intro s s₁ node _ _ hStranded
  rw [Process.meets_bind]
  refine (hStranded.inBranch hTrue fun _ => rfl).mono ?_
    fun _ _ h => Or.inr h
  intro _ s₂ hStranded
  rw [Process.meets_bind]
  refine (hStranded.inBranch hFalse
    fun h => absurd h (by decide)).mono ?_ fun _ _ h => Or.inr h
  intros
  trivial

/- The arms of a switch, each at a place of its own. -/
theorem stranded_runArms
    {arms : List (Arm (Run Unit))}
    {place : Nat → Path}
    {node : Nat}
    {s : Session}
    (index : Nat)
    (hArms :
      ∀ {j : Nat} {arm body}, arms[j]? = some arm →
        arm.body? = some body →
          body.Leaves (Session.Ran (place (index + j))))
    (hStranded : s.Stranded node (place 0)) :
    (runArms node index arms).Meets s (fun _ _ => True)
      (fun _ s' => s'.Stranded node (place 0)) := by
  induction arms generalizing s index with
  | nil => trivial
  | cons arm rest ih =>
      have hArm :
          (runArm node index arm).Meets s
            (fun _ s' => s'.Stranded node (place 0))
            (fun _ s' => s'.Stranded node (place 0)) := by
        cases arm with
        | body body =>
            have hBody :
                body.Leaves (Session.Ran (place index)) :=
              hArms (j := 0) rfl rfl
            unfold runArm
            rw [Process.meets_bind]
            exact hStranded.inBranch hBody fun h => h ▸ rfl
        | empty => exact hStranded
        | «alias» k => exact hStranded
      unfold runArms
      rw [Process.meets_bind]
      refine hArm.mono ?_ fun _ _ h => h
      intro own s₁ hStranded
      rw [Process.meets_bind]
      refine (ih (index + 1) ?_ hStranded).mono
        (fun _ _ _ => trivial) fun _ _ h => h
      intro j a body hj hBody
      have hPlace := hArms (j := j + 1) hj hBody
      rwa [show index + 1 + j = index + (j + 1) by omega]

theorem strands_dispatch
    {sw : Switch (Run Unit)}
    (place : Nat → Path)
    (hArms :
      ∀ {j : Nat} {arm body}, sw.arms[j]? = some arm →
        arm.body? = some body →
          body.Leaves (Session.Ran (place j)))
    (hTame :
      ∀ arm ∈ sw.arms, ∀ body, arm.body? = some body →
        Tame body)
    (control : Value) :
    Strands (place 0) (dispatch control sw) := by
  have hOutputs : 0 < (switchNode control sw).execOutputs := by
    rw [switchNode_execOutputs]
    exact Nat.zero_lt_succ _
  refine Strands.checked fun targets _ =>
    Strands.placed ⟨rfl, hOutputs⟩ ?_
  intro s s₁ node hCame hNew hStranded
  rw [Process.meets_bind]
  have hRun :=
    (tame_runArms hTame 0 hCame hNew).and
      (stranded_runArms 0
        (fun hj hBody => by simpa using hArms hj hBody)
          hStranded)
  refine hRun.mono ?_ fun _ _ h => Or.inr h.2
  rintro branches s₂ ⟨⟨hCame, -⟩, -⟩
  rw [Process.meets_bind]
  -- The bodies came through; wiring an alias writes nothing.
  refine (quiet_wireAliases node branches _ 0 _ s₂).mono ?_ ?_
  · intros
    trivial
  · intro _ s₃ hQuiet
    exact Or.inl (hCame.clean.trans (clean_of_quiet hQuiet))

/- What comes after a body that came through writes nothing. -/
theorem stranded_loopBody
    {s₀ s : Session}
    {body : Run Unit}
    {node : Nat}
    (hBody : body.Leaves (Session.Ran inner))
    (hTame : Tame body)
    (hCame : s₀.Came s)
    (hNew : ∀ index, s₀.AreNew s [⟨node, index⟩])
    (hStranded : s.Stranded node inner) :
    (loopBody node body).Meets s (fun _ _ => True)
      (fun _ s' => s₀.Clean s' ∨ s'.Stranded node inner) := by
  unfold loopBody
  rw [Process.meets_bind, meets_inLoop]
  have hInside :
      (s.onFrame fun f => f.pushLoop node).Stranded node
        inner :=
    ⟨hStranded.orderly, hStranded.tail, hStranded.output,
      hStranded.linked⟩
  have hCame' : s₀.Came (s.onFrame fun f => f.pushLoop node) :=
    ⟨⟨hCame.goesOn.nextId_le, hCame.goesOn.tail,
      hCame.goesOn.apart⟩, hCame.clean⟩
  refine ((hTame.inBranch hCame' (hNew 0)).and
    (hInside.inBranch hBody fun _ => rfl)).mono ?_ ?_
  · rintro branch s₁ ⟨⟨hRun, -⟩, -⟩
    rw [Process.meets_bind, meets_build,
      Builder.meets_onFrame]
    split
    · rw [Process.meets_bind]
      refine (quiet_build returnGuard _).mono
        (fun _ _ _ => trivial) ?_
      intro _ s₂ hQuiet
      have hClean : s₀.Clean s₂ :=
        hRun.clean.trans (clean_of_quiet hQuiet)
      exact Or.inl hClean
    · trivial
  · rintro _ s₁ ⟨-, hStranded⟩
    exact Or.inr ⟨hStranded.orderly, hStranded.tail,
      hStranded.output, hStranded.linked⟩

/- A loop: its node, the value of its rounds and its body. -/
theorem strands_loopNode
    {body : Nat → Value → Run Unit}
    {kind : Builtin}
    {args : List Value}
    {dynamic : Option ValueType}
    (hNode :
      (kind.node args dynamic).nodeClass = .exec ∧
        0 < (kind.node args dynamic).execOutputs)
    (hBody :
      ∀ node value, (body node value).Leaves
        (Session.Ran inner))
    (hTame : ∀ node value, Tame (body node value))
    (slot : String) :
    Strands inner (do
      let node ←
        (liftM (Builder.placeBuiltin kind args dynamic)
          : Run Nat)
      let value ←
        (liftM (Builder.pinValue node slot 0) : Run Value)
      loopBody node (body node value)
      return node : Run Nat) := by
  apply Strands.placed hNode
  intro s s₁ node hCame hNew hStranded
  rw [Process.meets_bind]
  refine (Process.leaves_iff.mp
    (tame_pinValue node slot 0) s₁).mono ?_ ?_
  · rintro value _ rfl
    rw [Process.meets_bind]
    exact stranded_loopBody (hBody node value)
      (hTame node value) hCame hNew hStranded
  · rintro _ _ rfl
    exact Or.inl hCame.clean

theorem strands_countingLoop
    {body : Nat → Value → Run Unit}
    (hBody :
      ∀ node value, (body node value).Leaves
        (Session.Ran inner))
    (hTame : ∀ node value, Tame (body node value))
    (start stop : Input) :
    Strands inner (countingLoop start stop body) := by
  refine Strands.checked fun _ _ =>
    Strands.checked fun _ _ => ?_
  apply strands_loopNode _ hBody hTame
  exact ⟨rfl, Nat.zero_lt_succ _⟩

theorem strands_itemLoop
    {body : Nat → Value → Run Unit}
    (hBody :
      ∀ node value, (body node value).Leaves
        (Session.Ran inner))
    (hTame : ∀ node value, Tame (body node value))
    (list : Value) :
    Strands inner (itemLoop list body) := by
  refine Strands.checked fun _ _ => ?_
  apply strands_loopNode _ hBody hTame
  exact ⟨rfl, Nat.zero_lt_succ _⟩

end FlowGraph.Script

------------------------------------------------------------
-- Statements
------------------------------------------------------------

namespace FlowGraph.Script

open Session

/- The body that is run from a node's first exec output. -/
def Stmt.firstBody? : Stmt → Option Segment
  | .ifThen .. => some .thenBody
  | .ifElse .. => some .thenBody
  | .switch .. => some .default
  | .forRange .. => some .loopBody
  | .forEach .. => some .loopBody
  | _ => none

/-
  A conditional, a switch or a loop that is refused in one of
  its bodies leaves the flow at its node's first exec output.
-/
theorem stranded_runStmt
    {st : Stmt}
    {segment : Segment}
    {s : Session}
    (hEvery : st.every Stmt.structured = true)
    (hFirst : st.firstBody? = some segment)
    (path : Path)
    (hOrderly : s.graph.Orderly)
    (hRooted : s.builder.Rooted) :
    (runStmt path st).Meets s (fun _ _ => True)
      (fun e s' => ∃ s₁ : Session,
        s' = s₁.record path (.failed e) ∧
          (s.Clean s₁ ∨
            s₁.Stranded s.graph.nextId
              (path ++ [segment]))) := by
  have hJournaled :
      ∀ {m : Run Result} {bind : Binding},
        Strands (path ++ [segment]) m →
          (journaled path bind m).Meets s (fun _ _ => True)
            (fun e s' => ∃ s₁ : Session,
              s' = s₁.record path (.failed e) ∧
                (s.Clean s₁ ∨
                  s₁.Stranded s.graph.nextId
                    (path ++ [segment]))) := by
    intro m bind hStrands
    rw [meets_journaled]
    exact (hStrands s hOrderly hRooted).mono
      (fun _ _ _ => trivial) fun _ s₁ h => ⟨s₁, rfl, h⟩
  have hYields :
      ∀ {m : Run Nat}, Strands (path ++ [segment]) m →
        Strands (path ++ [segment]) (do
          let id ← m
          return .node id : Run Result) := by
    intro m h s hOrderly hRooted
    rw [Process.meets_bind]
    exact h s hOrderly hRooted
  rcases (Stmt.every_iff st).mp hEvery with ⟨-, hInner⟩
  cases st with
  | ifThen bind c thenBody =>
      cases hFirst
      have hThen := hInner thenBody (by simp [Stmt.bodies])
      exact hJournaled (.resolved fun v => hYields
        (strands_conditional (ran_body hThen _)
          (ran_nothing path) v))
  | ifElse bind c thenBody elseBody =>
      cases hFirst
      have hThen := hInner thenBody (by simp [Stmt.bodies])
      have hElse := hInner elseBody (by simp [Stmt.bodies])
      exact hJournaled (.resolved fun v => hYields
        (strands_conditional (ran_body hThen _)
          (ran_body hElse _) v))
  | switch bind control cases default =>
      cases hFirst
      refine hJournaled (.resolved fun v => hYields
        (strands_dispatch (fun j => path ++ [armSegment j])
          ?_ ?_ v))
      · intro j arm body hj hEq
        rcases body_preparedSwitch bind control hj hEq with
          ⟨b, hb, rfl⟩
        exact ran_body (hInner b (Stmt.mem_bodies hb)) _
      · intro arm hArm body hEq
        rcases List.mem_iff_getElem?.mp hArm with ⟨j, hj⟩
        rcases body_preparedSwitch bind control hj hEq with
          ⟨b, hb, rfl⟩
        exact (tame_runStmt.2 b _ 0
          (hInner b (Stmt.mem_bodies hb))).entered _
  | forRange bind start stop body =>
      cases hFirst
      have hRound := hInner body (by simp [Stmt.bodies])
      exact hJournaled (.resolved fun start =>
        .resolved fun stop => hYields
          (strands_countingLoop
            (fun node value =>
              ran_round hRound _ bind node value)
            (fun node value =>
              (tame_keepLoop bind node value).bind fun _ =>
                (tame_runStmt.2 body _ 0 hRound).entered _)
            start stop))
  | forEach bind list body =>
      cases hFirst
      have hRound := hInner body (by simp [Stmt.bodies])
      exact hJournaled (.resolved fun list => hYields
        (strands_itemLoop
          (fun node value =>
            ran_round hRound _ bind node value)
          (fun node value =>
            (tame_keepLoop bind node value).bind fun _ =>
              (tame_runStmt.2 body _ 0 hRound).entered _)
          list))
  | action | function | branch | loop | attempt => cases hFirst

end FlowGraph.Script

------------------------------------------------------------
-- Scripts
------------------------------------------------------------

namespace FlowGraph.Script

open Session

variable {name : String} {config : Config}
variable {before : List Stmt} {st : Stmt}

/- A link that an entry shows is there in the end. -/
theorem link_of_entry
    {script : List Stmt}
    {d : Entry}
    {e : Endpoint}
    {t : Nat}
    (hEntry : d ∈ (run name config script).journal)
    (hLink : d.graph.execTarget e = some t) :
    (run name config script).graph.execTarget e = some t := by
  rcases passes_runFrom Graph.stepwise_appends 0 script
      (.new name config) with ⟨news, hJournal, hGraphs⟩
  have hNews : d ∈ news := by
    rw [run, hJournal] at hEntry
    simpa [Session.new] using hEntry
  have hAppends :=
    (appends_of_passes (Graph.consecutive_empty name)
      hGraphs).2
  have hLater :=
    (List.pairwise_append.mp hAppends).2.2 d.graph
      (List.mem_cons_of_mem _ (by simpa using ⟨d, hNews, rfl⟩))
      _ (List.mem_singleton_self _)
  exact hLater.links hLink

/-
  What a construct leaves behind that is refused in one of
  its bodies: the cursor lists the first exec output of its
  node.  This output has a link if and only if an entry of
  the body that is run from it shows the link, and another
  exec node can be placed there if and only if it has none.
-/
theorem refused_body_leaves_first_output
    {segment : Segment}
    {e : Error}
    {s' : Session}
    (hBefore : structured before = true)
    (hEvery : st.every Stmt.structured = true)
    (hFirst : st.firstBody? = some segment)
    (hRun :
      runStmt [.statement before.length] st
        (run name config before) = (.error e, s'))
    (hInside :
      ∃ d ∈ s'.journal,
        d ∉ (run name config before).journal ∧
          d.path ≠ [.statement before.length] ∧
            d.event.isFailure = true) :
    ∃ first : Endpoint,
      first = ⟨(run name config before).graph.nextId, 0⟩ ∧
      s'.frame.tail = [first] ∧
      s'.graph.IsOutput first ∧
      (∀ t, s'.graph.execTarget first = some t ↔
        ∃ d ∈ s'.journal,
          [.statement before.length, segment] <+: d.path ∧
            d.graph.execTarget first = some t) ∧
      ∀ n : Node, n.nodeClass = .exec →
        (s'.graph.execTarget first = none →
          (Builder.place n s'.builder).1 =
            .ok s'.graph.nextId) ∧
        ∀ t, s'.graph.execTarget first = some t →
          (Builder.place n s'.builder).1 =
            .error
              (.onNode (.execOutputAlreadyConnected 0)
                first.node) := by
  have hRan :=
    (stranded_runStmt hEvery hFirst
      [.statement before.length]
      (orderly_run name config before)
      (rooted_run hBefore name config)).of_error hRun
  rcases hRan with ⟨s₁, rfl, hClean | hStranded⟩
  · -- A refusal inside would have been written of.
    rcases hClean with ⟨news, hJournal, hNews⟩
    rcases hInside with ⟨d, hd, hNew, hPath, hFailure⟩
    rcases List.mem_cons.mp hd with rfl | hd
    · exact absurd rfl hPath
    · rw [hJournal] at hd
      rcases List.mem_append.mp hd with hd | hd
      · rw [hNews d hd] at hFailure
        cases hFailure
      · exact absurd hd hNew
  · have hLeft :=
      hStranded.record [.statement before.length] (.failed e)
    have hScript :
        run name config (before ++ [st]) =
          s₁.record [.statement before.length] (.failed e) := by
      rw [run, runFrom_append, Nat.zero_add, ← run]
      exact congrArg Prod.snd hRun
    refine ⟨_, rfl, hLeft.tail, hLeft.output, ?_, ?_⟩
    · intro t
      refine ⟨hLeft.linked t, ?_⟩
      rintro ⟨d, hd, -, hLink⟩
      rw [← hScript] at hd ⊢
      exact link_of_entry hd hLink
    · intro n hExec
      exact Builder.place_at_output hLeft.orderly hLeft.tail
        hLeft.output hExec

/- A function begins, and the first print is refused. -/
def refusedAtOnce : List Stmt :=
  [.action .none (.beginFunction "start"),
    .forRange .none (.literal (.int 0)) (.literal (.int 2))
      [.action .none (.print (.literal (.int 1)))]]

/-
  Nothing has taken the loop's first exec output, so that a
  print after the refused loop is accepted.
-/
theorem print_after_loop_refused_at_once :
    ∃ e s',
      runStmt [.statement 1] refusedAtOnce[1]
        (run "demo" .default (refusedAtOnce.take 1)) =
          (.error e, s') ∧
      s'.frame.tail = [⟨2, 0⟩] ∧
      s'.graph.execTarget ⟨2, 0⟩ = none ∧
      (Builder.placeBuiltin .printString [.str "after"] none
        s'.builder).1 = .ok 3 := by
  have hRefused :
      (runStmt [.statement 1] refusedAtOnce[1]
        (run "demo" .default
          (refusedAtOnce.take 1))).1.isOk = false := by
    decide +kernel
  rcases hRun :
      runStmt [.statement 1] refusedAtOnce[1]
        (run "demo" .default (refusedAtOnce.take 1)) with
    ⟨e | _, s'⟩
  · have hEnd :
        s' = (runStmt [.statement 1] refusedAtOnce[1]
          (run "demo" .default (refusedAtOnce.take 1))).2 := by
      rw [hRun]
    have hOpen : s'.graph.execTarget ⟨2, 0⟩ = none := by
      rw [hEnd]
      decide +kernel
    have hNext : s'.graph.nextId = 3 := by
      rw [hEnd]
      decide +kernel
    have hInside :
        ∃ d ∈ s'.journal,
          d ∉ (run "demo" .default
            (refusedAtOnce.take 1)).journal ∧
            d.path ≠ [.statement 1] ∧
              d.event.isFailure = true := by
      rw [hEnd]
      decide +kernel
    have hBefore :
        structured (refusedAtOnce.take 1) = true := by
      decide +kernel
    have hEvery :
        refusedAtOnce[1].every Stmt.structured = true := by
      decide +kernel
    rcases refused_body_leaves_first_output hBefore hEvery
        rfl hRun hInside with
      ⟨first, hFirst, hTail, -, -, hPlace⟩
    have hNode : first = ⟨2, 0⟩ :=
      hFirst.trans (by decide +kernel)
    rw [hNode] at hTail hPlace
    rw [hNext] at hPlace
    exact ⟨e, s', rfl, hTail, hOpen, (hPlace _ rfl).1 hOpen⟩
  · rw [hRun] at hRefused
    cases hRefused

/- A function begins, and the second print is refused. -/
def refusedLoop : List Stmt :=
  [.action .none (.beginFunction "start"),
    .forRange .none (.literal (.int 0)) (.literal (.int 2))
      [.action .none (.print (.literal (.str "x"))),
        .action .none (.print (.literal (.int 1)))]]

/-
  Not every output that a refused construct leaves is open.
  The first print took the loop's first exec output, and the
  cursor lists this output all the same, so that nothing can
  be printed after the loop.
-/
theorem no_print_after_refused_loop :
    structured refusedLoop = true ∧
      (∃ d ∈ (run "demo" .default refusedLoop).journal,
        d.path = [.statement 1, .loopBody, .statement 1] ∧
          d.event.isFailure = true) ∧
      (∃ d ∈ (run "demo" .default refusedLoop).journal,
        d.path = [.statement 1] ∧
          d.event.isFailure = true) ∧
      (run "demo" .default refusedLoop).frame.tail =
        [⟨2, 0⟩] ∧
      (run "demo" .default refusedLoop).graph.execTarget
        ⟨2, 0⟩ = some 3 ∧
      (Builder.placeBuiltin .printString [.str "after"] none
        (run "demo" .default refusedLoop).builder).1 =
          .error
            (.onNode (.execOutputAlreadyConnected 0) 2) := by
  refine ⟨by decide, by decide +kernel, by decide +kernel,
    by decide +kernel, by decide +kernel, rfl⟩

end FlowGraph.Script
