import FlowGraph.Proofs.Dispatch
import FlowGraph.Proofs.Portable

/-
  Statements that can be moved.

  A statement that comes through comes through on a session
  with further nodes in its graph as well, and makes the same
  nodes and links with the numbers put up.  Nothing else of
  a session matters: a function has a frame of its own, and
  nothing looks at the journal.

  Key definitions include:
    * `FlowGraph.Script.Session.Moved`
    * `FlowGraph.Script.Stmt.portable`

  Key theorems include:
    * `FlowGraph.Script.tracks_inBranch`
    * `FlowGraph.Script.tracks_dispatch`
    * `FlowGraph.Script.tracks_runStmt`
-/

------------------------------------------------------------
-- Sessions
------------------------------------------------------------

namespace FlowGraph.Script

open Builder (IdMoved)
open Process (Simulation Tracks Whatever)

/-
  The second session has further nodes in its graph and other
  names, but not among those to be seen.
-/
structure Session.Moved
    (V : String → Bool)
    (k d : Nat)
    (s s' : Session) :
    Prop where
  builder : s.builder.Moved k d s'.builder
  names : s.names.Moved V k d s.graph.nextId s'.names

/-
  Two sessions of which one has given out more numbers.  A
  run keeps results under the listed names only.
-/
def Session.moving
    (V : String → Bool)
    (L : List String)
    (k d : Nat) :
    Simulation Session where
  related := Session.Moved V k d
  extent s := s.graph.nextId
  onward s t :=
    s.builder.Widens t.builder ∧ s.names.Same L t.names
  onward_refl s := ⟨.refl s.builder, .refl s.names⟩
  onward_trans h₁ h₂ :=
    ⟨h₁.1.trans h₂.1, h₁.2.trans h₂.2⟩
  extent_le h := h.1.nextId_le

variable {V : String → Bool} {L : List String}
variable {k d n : Nat} {α : Type}
variable {Q : Nat → α → α → Prop}

/- The frames are changed in the same way. -/
theorem Session.Moved.onFrame
    {s s' : Session}
    {f f' : Frame → Frame}
    (h : s.Moved V k d s')
    (hFrame :
      (f s.frame).Moved k d s.graph.nextId (f' s'.frame)) :
    (s.onFrame f).Moved V k d (s'.onFrame f') :=
  ⟨⟨h.builder.graph, hFrame, h.builder.config⟩, h.names⟩

/- A run of its own changes the frame at will. -/
theorem Session.onward_onFrame
    {s t : Session}
    {f : Frame → Frame}
    (h : (Session.moving V L k d).onward (s.onFrame f) t)
    (f' : Frame → Frame) :
    (Session.moving V L k d).onward s (t.onFrame f') :=
  ⟨⟨h.1.nextId_le, h.1.config⟩, h.2⟩

theorem tracks_build
    {m m' : Build α}
    (h : Tracks (Builder.moving k d) n Q m m') :
    Tracks (Session.moving V L k d) n Q (liftM m)
      (liftM m') := by
  intro s s' hExtent hMoved
  rw [meets_build]
  refine (h s.builder s'.builder hExtent
    hMoved.builder).mono ?_ fun _ _ h => h
  intro a b hRun
  rw [meets_build]
  refine hRun.mono ?_ fun _ _ h => h
  rintro a' b' ⟨hOnward, hResult, hBuilder⟩
  exact ⟨⟨hOnward, .refl s.names⟩, hResult, hBuilder,
    hMoved.names.mono hOnward.nextId_le⟩

theorem tracks_resolved
    {f f' : Names → Except Error α}
    (hf :
      ∀ n' names names', n ≤ n' → k ≤ n' →
        names.Moved V k d n' names' →
          Carries (Q n') (f names) (f' names')) :
    Tracks (Session.moving V L k d) n Q (resolved f)
      (resolved f') := by
  intro s s' hExtent hMoved
  rw [meets_resolved]
  refine ⟨?_, fun _ _ => trivial⟩
  intro a ha
  rcases hf _ _ _ hExtent hMoved.builder.graph.base
      hMoved.names a ha with ⟨a', ha', hResult⟩
  refine meets_resolved.mpr ⟨?_, ?_⟩
  · intro b hb
    cases ha'.symm.trans hb
    exact ⟨⟨.refl s.builder, .refl s.names⟩, hResult, hMoved⟩
  · intro e he
    cases ha'.symm.trans he

/- A result is kept under listed names, and journaled. -/
theorem tracks_journaled
    {m m' : Run Result}
    {bind : Binding}
    (hm :
      Tracks (Session.moving V L k d) n (Result.Moved k d)
        m m')
    (hBind : bind.within L = true)
    (path path' : Path) :
    Tracks (Session.moving V L k d) n Whatever
      (journaled path bind m) (journaled path' bind m') := by
  intro s s' hExtent hMoved
  rw [meets_journaled]
  refine (hm s s' hExtent hMoved).mono ?_ fun _ _ h => h
  intro r t hRun
  rw [meets_journaled]
  refine hRun.mono ?_ fun _ _ h => h
  rintro r' t' ⟨hOnward, hResult, hMoved'⟩
  exact ⟨⟨hOnward.1, hOnward.2.trans
    (Names.same_keep hBind t.names r)⟩, trivial,
    hMoved'.builder, hMoved'.names.keep hResult bind⟩

/- The result is a node. -/
theorem tracks_node
    {m m' : Run Nat}
    (hm :
      Tracks (Session.moving V L k d) n (IdMoved k d) m m') :
    Tracks (Session.moving V L k d) n (Result.Moved k d)
      (do
        let id ← m
        return .node id)
      (do
        let id ← m'
        return .node id) :=
  hm.bind fun _ _ _ _ hId =>
    Process.tracks_pure fun _ hLe => .node (hId.mono hLe)

theorem tracks_entered
    {m m' : Run Unit}
    (hm :
      Tracks (Session.moving V L k d) n Whatever m m')
    (path path' : Path) :
    Tracks (Session.moving V L k d) n Whatever
      (entered path m) (entered path' m') := by
  intro s s' hExtent hMoved
  rw [meets_entered]
  refine (hm (s.record path .entered)
    (s'.record path' .entered) hExtent
      ⟨hMoved.builder, hMoved.names⟩).mono ?_ fun _ _ h => h
  intro _ t hRun
  rw [meets_entered]
  exact hRun

theorem tracks_keepLoop
    {bind : Binding}
    {node node' : Nat}
    {value value' : Value}
    (hNode : IdMoved k d n node node')
    (hValue : value.Moved k d n value')
    (hBind : bind.within L = true) :
    Tracks (Session.moving V L k d) n Whatever
      (keepLoop bind node value)
      (keepLoop bind node' value') := by
  intro s s' hExtent hMoved
  rw [meets_keepLoop, meets_keepLoop]
  have hFirst :=
    hMoved.names.keep (.value (hValue.mono hExtent)) bind
  refine ⟨⟨.refl s.builder, ?_⟩, trivial, hMoved.builder,
    hFirst.keep (.node (hNode.mono hExtent)) bind⟩
  exact (Names.same_keep hBind s.names (.value value)).trans
    (Names.same_keep hBind _ (.node node))

end FlowGraph.Script

------------------------------------------------------------
-- Scopes
------------------------------------------------------------

namespace FlowGraph.Script

open Builder (IdMoved)
open Process (Tracks Whatever)

variable {V : String → Bool} {L : List String}
variable {k d n : Nat}

/- What became of a body, the numbers put up. -/
structure Branch.Moved
    (k d : Nat)
    (b b' : Branch) :
    Prop where
  containsReturn : b'.containsReturn = b.containsReturn
  tail : b'.tail = b.tail.map (Endpoint.renumber (shift k d))
  head : b'.head = b.head.map (shift k d)

theorem tracks_inBranch
    {body body' : Run Unit}
    (hBody :
      Tracks (Session.moving V L k d) n Whatever body body')
    (node index : Nat) :
    Tracks (Session.moving V L k d) n
      (fun _ => Branch.Moved k d)
      (inBranch node index body)
      (inBranch (shift k d node) index body') := by
  intro s s' hExtent hMoved
  rw [meets_inBranch]
  have hStart :
      (s.withTail [⟨node, index⟩]).Moved V k d
        (s'.withTail [⟨shift k d node, index⟩]) :=
    hMoved.onFrame (hMoved.builder.frame.setTail rfl)
  refine (hBody (s.withTail [⟨node, index⟩])
    (s'.withTail [⟨shift k d node, index⟩]) hExtent
      hStart).mono ?_ fun _ _ h => h
  intro _ t hRun
  rw [meets_inBranch]
  refine hRun.mono ?_ fun _ _ h => h
  rintro _ t' ⟨hOnward, -, hEnd⟩
  refine ⟨Session.onward_onFrame hOnward _,
    ⟨?_, hEnd.builder.frame.tail,
    hEnd.builder.graph.links ⟨node, index⟩⟩,
    hEnd.onFrame (hEnd.builder.frame.setTail
      hMoved.builder.frame.tail)⟩
  show decide (s'.frame.returns < t'.frame.returns) = _
  rw [hMoved.builder.frame.returns,
    hEnd.builder.frame.returns]
  rfl

theorem tracks_inLoop
    {α : Type}
    {Q : Nat → α → α → Prop}
    {body body' : Run α}
    {node : Nat}
    (hBody : Tracks (Session.moving V L k d) n Q body body')
    (hNode : node < n) :
    Tracks (Session.moving V L k d) n Q (inLoop node body)
      (inLoop (shift k d node) body') := by
  intro s s' hExtent hMoved
  rw [meets_inLoop]
  have hStart :
      (s.onFrame fun f => f.pushLoop node).Moved V k d
        (s'.onFrame fun f => f.pushLoop (shift k d node)) :=
    hMoved.onFrame (hMoved.builder.frame.pushLoop
      (Nat.lt_of_lt_of_le hNode hExtent))
  refine (hBody (s.onFrame fun f => f.pushLoop node)
    (s'.onFrame fun f => f.pushLoop (shift k d node)) hExtent
      hStart).mono ?_ fun _ _ h => h
  intro _ t hRun
  rw [meets_inLoop]
  refine hRun.mono ?_ fun _ _ h => h
  rintro _ t' ⟨hOnward, hResult, hEnd⟩
  exact ⟨Session.onward_onFrame hOnward _, hResult,
    hEnd.onFrame hEnd.builder.frame.popLoop⟩

/-
  A function starts in a frame of its own, so that the frames
  around it do not matter.
-/
theorem moved_opened
    {s s' : Session}
    (hGraph : s.graph.Moved k d s'.graph)
    (hNames : s.names.Moved V k d s.graph.nextId s'.names)
    (hConfig : s'.builder.config = s.builder.config)
    (event : String) :
    (s.opened event).Moved V k d (s'.opened event) := by
  have hEntry :
      (entryNode event).Moved k d s.graph.nextId
        (entryNode event) := by
    rw [← node_graphEntry]
    exact Builtin.moved_node (by decide)
      (.cons (Value.moved_of_usable (g := .empty "")
        (usable_str event)) .nil) none
  refine ⟨⟨hGraph.add hEntry, ?_, hConfig⟩,
    hNames.mono (Nat.le_succ _)⟩
  refine ⟨?_, rfl, ?_, rfl, .none⟩
  · show [(⟨s'.graph.nextId, 0⟩ : Endpoint)] = _
    rw [hGraph.shift_nextId]
    rfl
  · intro id hId
    cases hId

theorem tracks_inFunction
    {body body' : Run Unit}
    (hBody :
      Tracks (Session.moving V L k d) n Whatever body body')
    (event : String) :
    Tracks (Session.moving V L k d) n (IdMoved k d)
      (inFunction event body) (inFunction event body') := by
  intro s s' hExtent hMoved
  rw [meets_inFunction]
  have hStart :=
    moved_opened hMoved.builder.graph hMoved.names
      hMoved.builder.config event
  refine (hBody (s.opened event) (s'.opened event)
    (Nat.le_succ_of_le hExtent) hStart).mono ?_
      fun _ _ h => h
  intro _ t hRun
  rw [meets_inFunction]
  refine hRun.mono ?_ fun _ _ h => h
  rintro _ t' ⟨hOnward, -, hEnd⟩
  have hLt : s.graph.nextId < t.graph.nextId :=
    hOnward.1.nextId_le
  exact ⟨⟨⟨Nat.le_of_lt hLt, hOnward.1.config⟩, hOnward.2⟩,
    ⟨hLt, hMoved.builder.graph.shift_nextId⟩,
    hEnd.onFrame (hMoved.builder.frame.mono
      (Nat.le_of_lt hLt))⟩

end FlowGraph.Script

------------------------------------------------------------
-- Constructs
------------------------------------------------------------

namespace FlowGraph.Script

open Builder (IdMoved)
open Process (Tracks Whatever tracks_check tracks_pure)

variable {V : String → Bool} {L : List String}
variable {k d n : Nat} {c c' : Value}

/- Joins are those of the same exec outputs. -/
theorem joinWith_map
    (join tail : List Endpoint) :
    joinWith (join.map (Endpoint.renumber (shift k d)))
        (tail.map (Endpoint.renumber (shift k d))) =
      (joinWith join tail).map
        (Endpoint.renumber (shift k d)) := by
  induction tail generalizing join with
  | nil => rfl
  | cons e rest ih =>
      rw [List.map_cons, joinWith, joinWith, ← ih]
      congr 1
      have hMem :
          e.renumber (shift k d) ∈
              join.map (Endpoint.renumber (shift k d)) ↔
            e ∈ join := by
        simp
      by_cases he : e ∈ join
      · rw [if_pos he, if_pos (hMem.mpr he)]
      · rw [if_neg he, if_neg (mt hMem.mp he), List.map_append]
        rfl

theorem joinTails_map
    (tails : List (List Endpoint)) :
    joinTails
        (tails.map (List.map (Endpoint.renumber (shift k d)))) =
      (joinTails tails).map
        (Endpoint.renumber (shift k d)) := by
  have hFold :
      ∀ join : List Endpoint,
        (tails.map (List.map
            (Endpoint.renumber (shift k d)))).foldl joinWith
              (join.map (Endpoint.renumber (shift k d))) =
          (tails.foldl joinWith join).map
            (Endpoint.renumber (shift k d)) := by
    induction tails with
    | nil => exact fun _ => rfl
    | cons tail rest ih =>
        intro join
        rw [List.map_cons, List.foldl_cons, joinWith_map, ih]
        rfl
  exact hFold []

/- The flow goes on from a join. -/
theorem tracks_setTail
    {tail tail' : List Endpoint}
    (h : tail' = tail.map (Endpoint.renumber (shift k d))) :
    Tracks (Session.moving V L k d) n Whatever
      (liftM (Builder.onFrame fun f => f.setTail tail))
      (liftM (Builder.onFrame fun f => f.setTail tail')) :=
  tracks_build (Builder.tracks_onFrame fun _ _ _ _ hFrame =>
    hFrame.setTail h)

theorem tracks_conditional
    {onTrue onTrue' onFalse onFalse' : Run Unit}
    (hc : c.Moved k d n c')
    (hTrue :
      Tracks (Session.moving V L k d) n Whatever onTrue
        onTrue')
    (hFalse :
      Tracks (Session.moving V L k d) n Whatever onFalse
        onFalse') :
    Tracks (Session.moving V L k d) n (IdMoved k d)
      (conditional c onTrue onFalse)
      (conditional c' onTrue' onFalse') := by
  refine (tracks_check fun _ hLe =>
    (hc.mono hLe).expect _).bind fun n₁ _ _ hLe₁ _ => ?_
  refine (tracks_build (Builder.tracks_placeBuiltin
    (by decide) (.cons (hc.mono hLe₁) .nil) none)).bind
      fun n₂ node node' hLe₂ hNode => ?_
  have hLe := Nat.le_trans hLe₁ hLe₂
  rw [hNode.eq]
  refine (tracks_inBranch (hTrue.later hLe) node 0).bind
    fun n₃ t t' hLe₃ ht => ?_
  refine (tracks_inBranch (hFalse.later
    (Nat.le_trans hLe hLe₃)) node 1).bind
      fun n₄ f f' hLe₄ hf => ?_
  refine (tracks_setTail ?_).andThen fun _ _ => ?_
  · rw [ht.tail, hf.tail]
    exact joinTails_map [t.tail, f.tail]
  · exact tracks_pure fun n₅ hLe₅ =>
      ⟨by have := hNode.lt; omega, rfl⟩

/- Related lists have related items. -/
theorem rel_getElem?
    {α β : Type}
    {Q : α → β → Prop}
    {items : List α}
    {items' : List β}
    (h : List.Forall₂ Q items items')
    (i : Nat) :
    Option.Rel Q items[i]? items'[i]? := by
  induction h generalizing i with
  | nil => exact .none
  | cons hHead _ ih =>
      cases i with
      | zero => exact .some hHead
      | succ i => exact ih i

/- What a branch of a switch does itself. -/
inductive ArmTracks
    (V : String → Bool)
    (L : List String)
    (k d n : Nat) :
    Arm (Run Unit) → Arm (Run Unit) → Prop
  | body
      {m m' : Run Unit}
      (h :
        Tracks (Session.moving V L k d) n Whatever m m') :
      ArmTracks V L k d n (.body m) (.body m')
  | empty : ArmTracks V L k d n .empty .empty
  | «alias» (key : CaseKey) :
      ArmTracks V L k d n (.alias key) (.alias key)

theorem tracks_runArm
    {arm arm' : Arm (Run Unit)}
    (h : ArmTracks V L k d n arm arm')
    (node index : Nat) :
    Tracks (Session.moving V L k d) n
      (fun _ => Option.Rel (Branch.Moved k d))
      (runArm node index arm)
      (runArm (shift k d node) index arm') := by
  cases h with
  | body h =>
      exact (tracks_inBranch h node index).bind
        fun _ _ _ _ hb => tracks_pure fun _ _ => .some hb
  | empty =>
      exact tracks_pure fun _ _ => .some ⟨rfl, rfl, rfl⟩
  | «alias» key => exact tracks_pure fun _ _ => .none

theorem tracks_runArms
    {arms arms' : List (Arm (Run Unit))}
    (h : List.Forall₂ (ArmTracks V L k d n) arms arms')
    (node index : Nat) :
    Tracks (Session.moving V L k d) n
      (fun _ => List.Forall₂ (Option.Rel (Branch.Moved k d)))
      (runArms node index arms)
      (runArms (shift k d node) index arms') := by
  induction h generalizing index with
  | nil => exact tracks_pure fun _ _ => .nil
  | cons hArm _ ih =>
      refine (tracks_runArm hArm node index).bind
        fun n₁ b b' hLe hb => ?_
      refine ((ih (index + 1)).later hLe).bind
        fun n₂ bs bs' _ hbs => ?_
      exact tracks_pure fun _ _ => .cons hb hbs

theorem tracks_wireAlias
    {shared shared' : Branch}
    {join join' : List Endpoint}
    (hShared : shared.Moved k d shared')
    (hJoin :
      join' = join.map (Endpoint.renumber (shift k d)))
    (node index target : Nat) :
    Tracks (Session.moving V L k d) n
      (fun _ join join' =>
        join' = join.map (Endpoint.renumber (shift k d)))
      (wireAlias node index target shared join)
      (wireAlias (shift k d node) index target shared'
        join') := by
  unfold wireAlias
  rw [hShared.head]
  cases shared.head with
  | some head =>
      exact (tracks_build (Builder.tracks_connect
        ⟨node, index⟩ head)).andThen
          fun _ _ => tracks_pure fun _ _ => hJoin
  | none =>
      refine tracks_pure fun _ _ => ?_
      rw [hJoin, hShared.tail, ← joinWith_map, List.map_map,
        List.map_map]
      congr 1
      apply List.map_congr_left
      intro e _
      -- An empty body is open at the output of its case, in
      -- place of which the alias has an output of its own.
      have hIff :
          e.renumber (shift k d) =
              Endpoint.renumber (shift k d) ⟨node, target⟩ ↔
            e = ⟨node, target⟩ :=
        Endpoint.renumber_shift_inj
      show (if e.renumber (shift k d) =
          Endpoint.renumber (shift k d) ⟨node, target⟩
        then _ else _) =
          Endpoint.renumber _ (if e = _ then _ else _)
      by_cases he : e = ⟨node, target⟩
      · rw [if_pos he, if_pos (hIff.mpr he)]
        rfl
      · rw [if_neg he, if_neg (mt hIff.mp he)]

theorem tracks_wireAliases
    {branches branches' : List (Option Branch)}
    (hBranches :
      List.Forall₂ (Option.Rel (Branch.Moved k d)) branches
        branches')
    {wired wired' : List (Option Branch × Nat)}
    (hWired :
      List.Forall₂
        (fun p p' => Option.Rel (Branch.Moved k d) p.1 p'.1 ∧
          p'.2 = p.2) wired wired')
    {join join' : List Endpoint}
    (hJoin :
      join' = join.map (Endpoint.renumber (shift k d)))
    (node index : Nat) :
    Tracks (Session.moving V L k d) n
      (fun _ join join' =>
        join' = join.map (Endpoint.renumber (shift k d)))
      (wireAliases node branches index wired join)
      (wireAliases (shift k d node) branches' index wired'
        join') := by
  induction hWired generalizing index join join' with
  | nil => exact tracks_pure fun _ _ => hJoin
  | @cons p p' _ _ hp _ ih =>
      rcases p with ⟨own, target'⟩
      rcases p' with ⟨own', target⟩
      obtain ⟨hOwn, rfl⟩ :
          Option.Rel (Branch.Moved k d) own own' ∧
            target = target' := hp
      cases hOwn with
      | some _ => exact ih hJoin (index + 1)
      | none =>
          have hTarget := rel_getElem? hBranches target
          unfold wireAliases
          revert hTarget
          generalize branches[target]? = found
          generalize branches'[target]? = found'
          intro hTarget
          cases hTarget with
          | none => exact ih hJoin (index + 1)
          | some hFound =>
              cases hFound with
              | none => exact ih hJoin (index + 1)
              | some hShared =>
                  exact (tracks_wireAlias hShared hJoin node
                    index target).bind fun _ _ _ hLe hJoined =>
                      (ih hJoined (index + 1)).later hLe

/- What the branches left open themselves. -/
theorem tails_of_forall₂
    {bs bs' : List (Option Branch)}
    (h :
      List.Forall₂ (Option.Rel (Branch.Moved k d)) bs bs') :
    (bs'.filterMap id).map Branch.tail =
      ((bs.filterMap id).map Branch.tail).map
        (List.map (Endpoint.renumber (shift k d))) := by
  induction h with
  | nil => rfl
  | cons hb _ ih =>
      cases hb with
      | none => exact ih
      | some hb => exact congrArg₂ List.cons hb.tail ih

theorem forall₂_zip
    {α β : Type}
    {Q : α → α → Prop}
    {items items' : List α}
    (h : List.Forall₂ Q items items')
    (others : List β) :
    List.Forall₂ (fun p p' => Q p.1 p'.1 ∧ p'.2 = p.2)
      (items.zip others) (items'.zip others) := by
  induction h generalizing others with
  | nil => exact .nil
  | cons hHead _ ih =>
      cases others with
      | nil => exact .nil
      | cons b rest => exact .cons ⟨hHead, rfl⟩ (ih rest)

/- Switches with the same labels and aliases. -/
theorem carries_checkSwitch
    {sw sw' : Switch (Run Unit)}
    (hc : c.Moved k d n c')
    (hLike : sw.Like sw') :
    Carries Eq (checkSwitch c sw) (checkSwitch c' sw') := by
  rw [checkSwitch_eq, checkSwitch_eq, hc.type]
  have hResolve : sw'.resolve = sw.resolve :=
    funext fun key => (hLike.resolve key).symm
  have hRepeated : sw'.repeated? = sw.repeated? := by
    rw [Switch.repeated?, Switch.repeated?, hLike.labels]
  rw [hResolve, hRepeated, ← hLike.keys, ← hLike.labels]
  split
  · exact .error
  · exact .same _

theorem tracks_dispatch
    {sw sw' : Switch (Run Unit)}
    (hc : c.Moved k d n c')
    (hLike : sw.Like sw')
    (hArms :
      List.Forall₂ (ArmTracks V L k d n) sw.arms sw'.arms) :
    Tracks (Session.moving V L k d) n (IdMoved k d)
      (dispatch c sw) (dispatch c' sw') := by
  refine (tracks_check fun _ hLe =>
    carries_checkSwitch (hc.mono hLe) hLike).bind ?_
  rintro n₁ targets _ hLe₁ rfl
  have hLabels :
      List.Forall₂ (Value.Moved k d n₁)
        (sw.labels.map Label.value)
        (sw'.labels.map Label.value) := by
    rw [← hLike.labels]
    apply List.forall₂_same.mpr
    intro v hv
    rcases List.mem_map.mp hv with ⟨l, _, rfl⟩
    exact Value.moved_of_usable (g := .empty "")
      (usable_label l)
  refine (tracks_build (Builder.tracks_placeBuiltin
    (by decide) (.cons (hc.mono hLe₁) hLabels) none)).bind
      fun n₂ node node' hLe₂ hNode => ?_
  rw [hNode.eq]
  have hLe := Nat.le_trans hLe₁ hLe₂
  refine ((tracks_runArms hArms node 0).later hLe).bind
    fun n₃ bs bs' hLe₃ hbs => ?_
  have hJoin :
      joinTails ((bs'.filterMap id).map Branch.tail) =
        (joinTails ((bs.filterMap id).map Branch.tail)).map
          (Endpoint.renumber (shift k d)) := by
    rw [tails_of_forall₂ hbs, joinTails_map]
  have hWired :=
    forall₂_zip hbs (targets.map sw.index)
  rw [show sw.index = sw'.index from funext hLike.index]
    at hWired ⊢
  refine (tracks_wireAliases hbs hWired hJoin node 0).bind
    fun n₄ join join' hLe₄ hJoin' => ?_
  refine (tracks_setTail hJoin').andThen fun _ _ => ?_
  exact tracks_pure fun n₅ hLe₅ =>
    ⟨by have := hNode.lt; omega, rfl⟩

theorem tracks_returnGuard :
    Tracks (Builder.moving k d) n (IdMoved k d) returnGuard
      returnGuard := by
  refine Builder.tracks_returnGate.bind
    fun n₁ gate gate' _ hGate => ?_
  refine (Builder.tracks_placeBuiltin (by decide)
    (.cons hGate.value .nil) none).bind
      fun n₂ node node' _ hNode => ?_
  refine (Builder.tracks_onFrame ?_).andThen fun _ _ => ?_
  · intro _ _ _ _ hFrame
    apply hFrame.setTail
    rw [hNode.eq]
    rfl
  · exact tracks_pure fun _ hLe => hNode.mono hLe

theorem tracks_loopBody
    {body body' : Run Unit}
    {node : Nat}
    (hBody :
      Tracks (Session.moving V L k d) n Whatever body body')
    (hNode : node < n) :
    Tracks (Session.moving V L k d) n Whatever
      (loopBody node body)
      (loopBody (shift k d node) body') := by
  refine (tracks_inLoop (tracks_inBranch hBody node 0)
    hNode).bind fun n₁ b b' _ hb => ?_
  refine (tracks_setTail rfl).andThen fun _ _ => ?_
  rw [hb.containsReturn]
  split
  · exact (tracks_build tracks_returnGuard).andThen
      fun _ _ => tracks_pure fun _ _ => trivial
  · exact tracks_pure fun _ _ => trivial

/- What a round does, given the node and the value. -/
def RoundTracks
    (V : String → Bool)
    (L : List String)
    (k d n : Nat)
    (body body' : Nat → Value → Run Unit) :
    Prop :=
  ∀ n' node node' value value', n ≤ n' →
    IdMoved k d n' node node' → value.Moved k d n' value' →
      Tracks (Session.moving V L k d) n' Whatever
        (body node value) (body' node' value')

theorem RoundTracks.later
    {body body' : Nat → Value → Run Unit}
    {n' : Nat}
    (h : RoundTracks V L k d n body body')
    (hLe : n ≤ n') :
    RoundTracks V L k d n' body body' :=
  fun _ _ _ _ _ hLe' => h _ _ _ _ _ (Nat.le_trans hLe hLe')

/- A loop: its node, the value of its rounds and its body. -/
theorem tracks_loopNode
    {kind : Builtin}
    {args args' : List Value}
    {body body' : Nat → Value → Run Unit}
    (hKind : kind ≠ .breakLoop)
    (hArgs : List.Forall₂ (Value.Moved k d n) args args')
    (hBody : RoundTracks V L k d n body body')
    (dynamic : Option ValueType)
    (slot : String) :
    Tracks (Session.moving V L k d) n (IdMoved k d)
      (do
        let node ←
          (liftM (Builder.placeBuiltin kind args dynamic)
            : Run Nat)
        let value ←
          (liftM (Builder.pinValue node slot 0) : Run Value)
        loopBody node (body node value)
        return node)
      (do
        let node ←
          (liftM (Builder.placeBuiltin kind args' dynamic)
            : Run Nat)
        let value ←
          (liftM (Builder.pinValue node slot 0) : Run Value)
        loopBody node (body' node value)
        return node) := by
  refine (tracks_build (Builder.tracks_placeBuiltin hKind
    hArgs dynamic)).bind fun n₁ node node' hLe₁ hNode => ?_
  rw [hNode.eq]
  refine (tracks_build (Builder.tracks_pinValue node slot
    0)).bind fun n₂ value value' hLe₂ hValue => ?_
  have hNode' := hNode.mono hLe₂
  rw [hNode.eq] at hNode'
  have hRound :=
    hBody n₂ node _ value value' (Nat.le_trans hLe₁ hLe₂)
      hNode' hValue
  refine (tracks_loopBody hRound hNode'.lt).andThen
    fun _ _ => ?_
  exact tracks_pure fun _ hLe => hNode'.mono hLe

theorem tracks_countingLoop
    {start start' stop stop' : Input}
    {body body' : Nat → Value → Run Unit}
    (hStart : start.Moved k d n start')
    (hStop : stop.Moved k d n stop')
    (hBody : RoundTracks V L k d n body body') :
    Tracks (Session.moving V L k d) n (IdMoved k d)
      (countingLoop start stop body)
      (countingLoop start' stop' body') := by
  refine (tracks_check fun _ hLe =>
    (hStart.mono hLe).read _).bind fun n₁ a a' hLe₁ ha => ?_
  refine (tracks_check fun _ hLe =>
    (hStop.mono (Nat.le_trans hLe₁ hLe)).read _).bind
      fun n₂ b b' hLe₂ hb => ?_
  exact tracks_loopNode (by decide)
    (.cons (ha.mono hLe₂) (.cons hb .nil))
      (hBody.later (Nat.le_trans hLe₁ hLe₂)) _ _

theorem tracks_itemLoop
    {list list' : Value}
    {body body' : Nat → Value → Run Unit}
    (hList : list.Moved k d n list')
    (hBody : RoundTracks V L k d n body body') :
    Tracks (Session.moving V L k d) n (IdMoved k d)
      (itemLoop list body) (itemLoop list' body') := by
  refine (tracks_check (Q := fun _ => Eq) ?_).bind ?_
  · intro n' _
    unfold itemType
    rw [hList.type]
    split
    · exact .ok rfl
    · exact .error
  · rintro n₁ element _ hLe₁ rfl
    exact tracks_loopNode (by decide)
      (.cons (hList.mono hLe₁) .nil) (hBody.later hLe₁) _ _

end FlowGraph.Script

------------------------------------------------------------
-- Statements
------------------------------------------------------------

namespace FlowGraph.Script

open Process (Tracks Whatever tracks_pure)

variable {V : String → Bool} {L : List String}
variable {k d : Nat}

/-
  A statement of a structured script, its bodies aside, that
  refers to nodes with lower numbers and to names that are
  seen, and keeps its results under listed names.
-/
def Stmt.portable
    (k : Nat)
    (V : String → Bool)
    (L : List String)
    (st : Stmt) :
    Bool :=
  st.structured && st.within k V && st.keeping.within L

/- A weaker test of the statements, bodies and all. -/
theorem every_mono
    {p q : Stmt → Bool}
    (h : ∀ st, p st = true → q st = true) :
    (∀ st : Stmt, st.every p = true → st.every q = true) ∧
      ∀ block : List Stmt,
        everyIn p block = true → everyIn q block = true := by
  apply Stmt.induction
  · intro st hBodies hEvery
    rw [Stmt.every_iff] at hEvery ⊢
    exact ⟨h st hEvery.1, fun b hb =>
      hBodies b hb (hEvery.2 b hb)⟩
  · exact id
  · intro st rest hStmt hRest hEvery
    rw [everyIn_cons] at hEvery ⊢
    exact ⟨hStmt hEvery.1, hRest hEvery.2⟩

theorem structured_of_portable
    {st : Stmt}
    (h : st.every (Stmt.portable k V L) = true) :
    st.every Stmt.structured = true := by
  refine (every_mono ?_).1 st h
  intro st hSelf
  have hSelf := (Bool.and_eq_true_iff.mp hSelf).1
  exact (Bool.and_eq_true_iff.mp hSelf).1

/- Lists with related items are related. -/
theorem forall₂_of_rel
    {α β : Type}
    {Q : α → β → Prop}
    {items : List α}
    {items' : List β}
    (h : ∀ i : Nat, Option.Rel Q items[i]? items'[i]?) :
    List.Forall₂ Q items items' := by
  induction items generalizing items' with
  | nil =>
      cases items' with
      | nil => exact .nil
      | cons b rest => cases h 0
  | cons a rest ih =>
      cases items' with
      | nil => cases h 0
      | cons b rest' =>
          cases h 0 with
          | some hHead =>
              exact .cons hHead (ih fun i => h (i + 1))

/- The arms of a switch at two places. -/
theorem armTracks_preparedSwitch
    {cases : List (Label × Arm (List Stmt))}
    {default : Arm (List Stmt)}
    {n : Nat}
    {path path' : Path}
    (bind : Binding)
    (control : Operand)
    (hBody :
      ∀ b ∈ (Stmt.switch bind control cases default).bodies,
        ∀ inner inner',
          Tracks (Session.moving V L k d) n Whatever
            (entered inner (runBlock inner 0 b))
            (entered inner' (runBlock inner' 0 b))) :
    List.Forall₂ (ArmTracks V L k d n)
      (preparedSwitch path cases default).arms
      (preparedSwitch path' cases default).arms := by
  apply forall₂_of_rel
  intro j
  rw [preparedSwitch_eq, preparedSwitch_eq, arms_mapArms,
    arms_mapArms]
  cases hArm : (Switch.mk cases default).arms[j]? with
  | none => exact .none
  | some arm =>
      apply Option.Rel.some
      cases arm with
      | empty => exact .empty
      | «alias» key => exact .alias key
      | body b =>
          have hb := body?_of_arms bind control hArm
          exact .body (hBody b (Stmt.mem_bodies hb) _ _)

/-
  A statement at two places, run from two sessions of which
  one has given out more numbers.
-/
theorem tracks_runStmt :
    (∀ (st : Stmt) (path path' : Path) (n : Nat),
      st.every (Stmt.portable k V L) = true →
        Tracks (Session.moving V L k d) n Whatever
          (runStmt path st) (runStmt path' st)) ∧
      ∀ (block : List Stmt) (path path' : Path) (i n : Nat),
        everyIn (Stmt.portable k V L) block = true →
          Tracks (Session.moving V L k d) n Whatever
            (runBlock path i block)
            (runBlock path' i block) := by
  apply Stmt.induction
  · intro st hBodies path path' n hEvery
    rw [Stmt.every_iff] at hEvery
    rcases hEvery with ⟨hSelf, hInner⟩
    rcases Bool.and_eq_true_iff.mp hSelf with ⟨hSelf, hBind⟩
    rcases Bool.and_eq_true_iff.mp hSelf with
      ⟨hStructured, hWithin⟩
    have hBody :
        ∀ b ∈ st.bodies, ∀ inner inner' n,
          Tracks (Session.moving V L k d) n Whatever
            (entered inner (runBlock inner 0 b))
            (entered inner' (runBlock inner' 0 b)) :=
      fun b hb inner inner' n => tracks_entered
        (hBodies b hb inner inner' 0 n (hInner b hb)) _ _
    cases st with
    | action bind a =>
        refine tracks_journaled ?_ hBind _ _
        refine (tracks_resolved fun n' names names' _ hLe h =>
          h.prepare hLe hStructured hWithin).bind ?_
        exact fun _ step step' _ hStep => tracks_build hStep
    | function bind event body =>
        refine tracks_journaled ?_ hBind _ _
        exact tracks_node (tracks_inFunction (hBody body
          (by simp [Stmt.bodies]) _ _ n) event)
    | ifThen bind c thenBody =>
        refine tracks_journaled ?_ hBind _ _
        refine (tracks_resolved fun n' names names' _ hLe h =>
          h.operand hLe hWithin).bind
            fun n₁ v v' hLe hv => ?_
        exact tracks_node (tracks_conditional hv
          (hBody thenBody (by simp [Stmt.bodies]) _ _ n₁)
          (tracks_pure fun _ _ => trivial))
    | ifElse bind c thenBody elseBody =>
        refine tracks_journaled ?_ hBind _ _
        refine (tracks_resolved fun n' names names' _ hLe h =>
          h.operand hLe hWithin).bind
            fun n₁ v v' hLe hv => ?_
        exact tracks_node (tracks_conditional hv
          (hBody thenBody (by simp [Stmt.bodies]) _ _ n₁)
          (hBody elseBody (by simp [Stmt.bodies]) _ _ n₁))
    | switch bind control cases default =>
        refine tracks_journaled ?_ hBind _ _
        refine (tracks_resolved fun n' names names' _ hLe h =>
          h.operand hLe hWithin).bind
            fun n₁ v v' hLe hv => ?_
        have hLike :
            (preparedSwitch path cases default).Like
              (preparedSwitch path' cases default) :=
          like_preparedSwitch.trans like_preparedSwitch.symm
        exact tracks_node (tracks_dispatch hv hLike
          (armTracks_preparedSwitch bind control
            fun b hb inner inner' =>
              hBody b hb inner inner' n₁))
    | forRange bind start stop body =>
        rcases Bool.and_eq_true_iff.mp hWithin with
          ⟨hStart, hStop⟩
        refine tracks_journaled ?_ rfl _ _
        refine (tracks_resolved fun n' names names' _ hLe h =>
          h.argument hLe hStart).bind
            fun n₁ a a' hLe₁ ha => ?_
        refine (tracks_resolved fun n' names names' _ hLe h =>
          h.argument hLe hStop).bind
            fun n₂ b b' hLe₂ hb => ?_
        apply tracks_node
        apply tracks_countingLoop (ha.mono hLe₂) hb
        intro n' node node' value value' _ hNode hValue
        exact (tracks_keepLoop hNode hValue hBind).andThen
          fun _ _ => hBody body (by simp [Stmt.bodies]) _ _ n'
    | forEach bind list body =>
        refine tracks_journaled ?_ rfl _ _
        refine (tracks_resolved fun n' names names' _ hLe h =>
          h.operand hLe hWithin).bind
            fun n₁ v v' hLe₁ hv => ?_
        apply tracks_node
        apply tracks_itemLoop hv
        intro n' node node' value value' _ hNode hValue
        exact (tracks_keepLoop hNode hValue hBind).andThen
          fun _ _ => hBody body (by simp [Stmt.bodies]) _ _ n'
    | branch | loop | attempt => cases hStructured
  · intro path path' i n _
    exact tracks_pure fun _ _ => trivial
  · intro st rest hStmt hRest path path' i n hEvery
    rw [everyIn_cons] at hEvery
    exact (hStmt _ _ n hEvery.1).andThen fun _ _ =>
      hRest path path' (i + 1) n hEvery.2

end FlowGraph.Script
