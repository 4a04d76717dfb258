import FlowGraph.Proofs.Breaks
import FlowGraph.Proofs.Guards
import FlowGraph.Proofs.Provenance

/-
  The gates of the functions.

  The gate of a function is declared by the first statement
  that asks for it, however deep in the body.  The frame of
  the function keeps it from then on, and the frames of other
  functions have gates of their own.

  Key definitions include:
    * `FlowGraph.Script.openingOf`
    * `FlowGraph.Script.Session.gateIn`
    * `FlowGraph.Script.Session.HasGates`

  Key theorems include:
    * `FlowGraph.Script.Unfolds.hasGates`
    * `FlowGraph.Script.showsGates_run`
    * `FlowGraph.Script.Session.HasGates.opening_of_node`
-/

------------------------------------------------------------
-- Functions Around A Place
------------------------------------------------------------

namespace FlowGraph.Script

/- Where the last one of the first functions has begun. -/
def lastBegin
    (script : List Stmt) :
    Nat → Option Path
  | 0 => none
  | i + 1 =>
      if script[i]?.any Stmt.begins then
        some [.statement i]
      else
        lastBegin script i

/- The same, given the segments from the inside out. -/
def openingOutside
    (script : List Stmt) :
    Path → Option Path
  | [] => none
  | [.statement i] => lastBegin script (i + 1)
  | .function :: outer => some (outer.reverse ++ [.function])
  | _ :: outer => openingOutside script outer

/-
  The place at which the function around a place opens: the
  body of a function, or the statement that begins it.  There
  is none before the first function.
-/
def openingOf
    (script : List Stmt)
    (path : Path) :
    Option Path :=
  openingOutside script path.reverse

variable {script : List Stmt} {path place m : Path}
variable {segment : Segment} {i : Nat}

theorem openingOf_function :
    openingOf script (path ++ [.function]) =
      some (path ++ [.function]) := by
  simp [openingOf, openingOutside]

/- All other segments stay in the same function. -/
theorem openingOutside_cons
    {outer : Path}
    (hOuter : outer ≠ [])
    (hSame : segment ≠ .function) :
    openingOutside script (segment :: outer) =
      openingOutside script outer := by
  cases outer with
  | nil => exact absurd rfl hOuter
  | cons next outer =>
      cases segment <;> simp_all [openingOutside]

theorem openingOf_append
    (hPath : path ≠ [])
    (hSame : segment ≠ .function) :
    openingOf script (path ++ [segment]) =
      openingOf script path := by
  unfold openingOf
  rw [List.reverse_append, List.reverse_singleton,
    List.singleton_append]
  exact openingOutside_cons
    (fun hNil => hPath (List.reverse_eq_nil_iff.mp hNil)) hSame

theorem length_lastBegin
    (h : lastBegin script i = some m) :
    m.length = 1 := by
  induction i with
  | zero => cases h
  | succ i ih =>
      unfold lastBegin at h
      split at h
      · cases h
        rfl
      · exact ih h

/- A function opens above the place or there. -/
theorem length_openingOf
    (h : openingOf script path = some m) :
    m.length ≤ path.length := by
  unfold openingOf at h
  rw [show path.length = path.reverse.length by simp]
  generalize path.reverse = outer at h
  fun_induction openingOutside script outer with
  | case1 => cases h
  | case2 i => exact Nat.le_of_eq (length_lastBegin h)
  | case3 outer =>
      cases h
      simp
  | case4 segment outer _ _ ih => exact Nat.le_succ_of_le (ih h)

/- Inside of a function no other one is around. -/
theorem openingOf_inside
    (h : path ++ [.function] <+: place) :
    ∃ m, openingOf script place = some m ∧
      path.length < m.length := by
  rcases h with ⟨below, rfl⟩
  unfold openingOf
  rw [List.reverse_append, List.reverse_append,
    List.reverse_singleton, List.singleton_append]
  induction below.reverse with
  | nil => exact ⟨_, rfl, by simp⟩
  | cons segment inner ih =>
      rw [List.cons_append]
      by_cases hSegment : segment = .function
      · rw [hSegment]
        exact ⟨_, rfl, by simp⟩
      · rw [openingOutside_cons (by simp) hSegment]
        exact ih

end FlowGraph.Script

------------------------------------------------------------
-- Gates Through Time
------------------------------------------------------------

namespace FlowGraph.Script

/- A function, and its gate at some moment. -/
abbrev Moment :=
  Option Path × Option Variable

/-
  What was known of a gate earlier agrees with what is known
  later.  A function keeps its gate, and no other function
  has the same.
-/
structure Agrees
    (earlier later : Moment) :
    Prop where
  same :
    earlier.1 = later.1 →
      ∀ v, earlier.2 = some v → later.2 = some v
  other :
    earlier.1 ≠ later.1 →
      ∀ v w, earlier.2 = some v → later.2 = some w →
        v.node ≠ w.node

theorem Agrees.refl
    (moment : Moment) :
    Agrees moment moment :=
  ⟨fun _ _ hv => hv, fun hNe => absurd rfl hNe⟩

/- Whether an action of a structured script needs the gate. -/
def Action.asksGate : Action → Bool
  | .returnNow | .returnGate => true
  | _ => false

theorem Action.asksGate_iff
    {act : Action} :
    act.asksGate = true ↔
      act = .returnNow ∨ act = .returnGate := by
  cases act <;> simp [asksGate]

/- The function that an entry is about, and its gate then. -/
def Entry.moment
    (script : List Stmt)
    (e : Entry) :
    Moment :=
  (openingOf script e.path, e.frame.gate)

/-
  The gate was declared by the statement that the entry is
  about: the declaration is new since the entries before.
-/
structure Entry.Declares
    (script : List Stmt)
    (e : Entry)
    (older : List Entry)
    (v : Variable) :
    Prop where
  asks :
    ∃ bind act,
      find? script e.path = some (.action bind act) ∧
        act.asksGate = true
  gate : v.IsGate e.graph
  isNew : nextNumber older.head? ≤ v.node
  below : v.node < e.graph.nextId

namespace Session

/- The moments that a session knows of, the latest first. -/
def moments
    (script : List Stmt)
    (opening : Option Path)
    (s : Session) :
    List Moment :=
  (opening, s.frame.gate) ::
    s.journal.map (Entry.moment script)

/- The gate is shown by an entry. -/
def Shows
    (script : List Stmt)
    (opening : Option Path)
    (s : Session)
    (v : Variable) :
    Prop :=
  ∃ e ∈ s.journal, e.moment script = (opening, some v)

/-
  The gates of all functions up to now, where the current
  function has opened at `opening`.
-/
structure HasGates
    (script : List Stmt)
    (opening : Option Path)
    (s : Session) :
    Prop where
  agree :
    (s.moments script opening).Pairwise
      fun later earlier => Agrees earlier later
  gates :
    ∀ moment ∈ s.moments script opening, ∀ v,
      moment.2 = some v →
        v.IsGate s.graph ∧ v.node < s.graph.nextId
  opened :
    ∀ moment ∈ s.moments script opening, ∀ m,
      moment.1 = some m → ∃ e ∈ s.journal, e.path = m
  declared :
    ∀ e ∈ s.journal, ∀ v, e.frame.gate = some v →
      ∃ newer d older,
        s.journal = newer ++ d :: older ∧
          d.moment script = (openingOf script e.path, some v) ∧
            d.Declares script older v
  recent : nextNumber s.journal.head? ≤ s.graph.nextId

variable {script : List Stmt} {opening : Option Path}
variable {s s' : Session} {path : Path}

/- The script goes on in the same function. -/
theorem HasGates.later
    (h : s.HasGates script opening)
    (hLater : s.Later s')
    (hJournal : s'.journal = s.journal)
    (hGate :
      ∀ v, s'.frame.gate = some v →
        s.frame.gate = some v ∨
          v.IsGate s'.graph ∧ v.node < s'.graph.nextId) :
    s'.HasGates script opening := by
  rcases List.pairwise_cons.mp h.agree with ⟨hNow, hBefore⟩
  have hKept :
      ∀ moment ∈ s.moments script opening, ∀ v,
        moment.2 = some v →
          v.IsGate s'.graph ∧ v.node < s'.graph.nextId := by
    intro moment hMoment v hv
    rcases h.gates moment hMoment v hv with ⟨hIs, hLt⟩
    exact ⟨hIs.mono fun _ _ hNode => hLater.nodes hNode,
      Nat.lt_of_lt_of_le hLt hLater.nextId_le⟩
  refine ⟨?_, ?_, ?_, ?_, ?_⟩
  · unfold moments
    rw [hJournal]
    refine List.pairwise_cons.mpr ⟨?_, hBefore⟩
    intro moment hMoment
    refine ⟨?_, ?_⟩
    · intro hSame v hv
      exact hLater.gateKept v
        ((hNow moment hMoment).same hSame v hv)
    · intro hOther v w hv hw
      rcases hLater.gateNew w hw with hOld | hNew
      · exact (hNow moment hMoment).other hOther v w hv hOld
      · have hLt := (h.gates moment
          (List.mem_cons_of_mem _ hMoment) v hv).2
        omega
  · intro moment hMoment v hv
    unfold moments at hMoment
    rw [hJournal] at hMoment
    rcases List.mem_cons.mp hMoment with hEq | hMoment
    · rw [hEq] at hv
      rcases hGate v hv with hOld | hNew
      · exact hKept _ List.mem_cons_self v hOld
      · exact hNew
    · exact hKept moment (List.mem_cons_of_mem _ hMoment) v hv
  · intro moment hMoment m hm
    unfold moments at hMoment
    rw [hJournal] at hMoment ⊢
    rcases List.mem_cons.mp hMoment with hEq | hMoment
    · rw [hEq] at hm
      exact h.opened _ List.mem_cons_self m hm
    · exact h.opened moment (List.mem_cons_of_mem _ hMoment) m
        hm
  · rw [hJournal]
    exact h.declared
  · rw [hJournal]
    exact Nat.le_trans h.recent hLater.nextId_le

/- Nothing happens to the gate. -/
theorem HasGates.same
    (h : s.HasGates script opening)
    (hLater : s.Later s')
    (hJournal : s'.journal = s.journal)
    (hGate : s'.frame.gate = s.frame.gate) :
    s'.HasGates script opening :=
  h.later hLater hJournal fun _ hv => Or.inl (hGate ▸ hv)

/- An older declaration stays where it is. -/
theorem HasGates.declared_cons
    (h : s.HasGates script opening)
    {e d : Entry}
    {v : Variable}
    (he : e ∈ s.journal)
    (hv : e.frame.gate = some v) :
    ∃ newer d' older,
      d :: s.journal = newer ++ d' :: older ∧
        d'.moment script = (openingOf script e.path, some v) ∧
          d'.Declares script older v := by
  rcases h.declared e he v hv with
    ⟨newer, d', older, hSplit, hRest⟩
  exact ⟨d :: newer, d', older, by rw [hSplit]; rfl, hRest⟩

/-
  An entry is written.  The gate was shown before, or the
  entry is about the statement that declares it.
-/
theorem HasGates.record
    {event : Event}
    (h : s.HasGates script (openingOf script path))
    (hGate :
      ∀ v, s.frame.gate = some v →
        s.Shows script (openingOf script path) v ∨
          Entry.Declares script ⟨path, s.builder, event⟩
            s.journal v) :
    (s.record path event).HasGates script
      (openingOf script path) := by
  have hMoments :
      (s.record path event).moments script
          (openingOf script path) =
        (openingOf script path, s.frame.gate) ::
          s.moments script (openingOf script path) := rfl
  have hNow := (List.pairwise_cons.mp h.agree).1
  -- The new moment is the one that was the latest.
  have hMem :
      ∀ moment ∈ (s.record path event).moments script
          (openingOf script path),
        moment ∈ s.moments script (openingOf script path) := by
    intro moment hMoment
    rw [hMoments] at hMoment
    rcases List.mem_cons.mp hMoment with hEq | hMoment
    · rw [hEq]
      exact List.mem_cons_self
    · exact hMoment
  refine ⟨?_, fun moment hMoment =>
    h.gates moment (hMem moment hMoment), ?_, ?_,
    Nat.le_refl _⟩
  · rw [hMoments]
    refine List.pairwise_cons.mpr ⟨?_, h.agree⟩
    intro moment hMoment
    rcases List.mem_cons.mp hMoment with hEq | hMoment
    · rw [hEq]
      exact .refl _
    · exact hNow moment hMoment
  · intro moment hMoment m hm
    rcases h.opened moment (hMem moment hMoment) m hm with
      ⟨e, he, hPath⟩
    exact ⟨e, List.mem_cons_of_mem _ he, hPath⟩
  · intro e he v hv
    rcases List.mem_cons.mp he with hEq | he
    · rw [hEq] at hv ⊢
      rcases hGate v hv with ⟨d, hd, hMoment⟩ | hNew
      · rw [← show openingOf script d.path = openingOf script
          path from congrArg Prod.fst hMoment]
        exact h.declared_cons hd (congrArg Prod.snd hMoment)
      · exact ⟨[], _, s.journal, rfl,
          congrArg (Prod.mk _) hv, hNew⟩
    · exact h.declared_cons he hv

/- What is shown goes on being shown. -/
theorem Shows.mono
    {v : Variable}
    (h : s.Shows script opening v)
    (hJournal : s.journal <:+ s'.journal) :
    s'.Shows script opening v := by
  rcases h with ⟨e, he, hMoment⟩
  exact ⟨e, hJournal.subset he, hMoment⟩

/-
  A function opens at a place that nothing was written about.
  So nothing is known of its gate.
-/
theorem HasGates.opens
    {event : Event}
    (h : s.HasGates script opening)
    (hNodes :
      ∀ {id n}, s.graph.nodes.get? id = some n →
        s'.graph.nodes.get? id = some n)
    (hLe : s.graph.nextId ≤ s'.graph.nextId)
    (hJournal : s'.journal = s.journal)
    (hGate : s'.frame.gate = none)
    (hOpens : openingOf script path = some path)
    (hNew : path ∉ s.journal.map Entry.path) :
    (s'.record path event).HasGates script (some path) := by
  have hMoments :
      (s'.record path event).moments script (some path) =
        (some path, none) :: (some path, none) ::
          s.journal.map (Entry.moment script) := by
    show (some path, s'.frame.gate) ::
      (openingOf script path, s'.frame.gate) ::
        s'.journal.map (Entry.moment script) = _
    rw [hGate, hOpens, hJournal]
  have hOld :
      ∀ moment ∈ s.journal.map (Entry.moment script),
        moment ∈ s.moments script opening :=
    fun _ hMoment => List.mem_cons_of_mem _ hMoment
  have hUnknown :
      ∀ moment ∈ s.journal.map (Entry.moment script),
        Agrees moment (some path, none) := by
    intro moment hMoment
    refine ⟨?_, ?_⟩
    rotate_left
    · intro _ v w _ hNone
      cases hNone
    intro hHere
    rcases h.opened moment (hOld moment hMoment) path hHere with
      ⟨e, he, hPath⟩
    exact absurd (hPath ▸ List.mem_map_of_mem he) hNew
  refine ⟨?_, ?_, ?_, ?_, Nat.le_refl _⟩
  · rw [hMoments]
    refine List.pairwise_cons.mpr ⟨?_,
      List.pairwise_cons.mpr ⟨hUnknown,
        (List.pairwise_cons.mp h.agree).2⟩⟩
    exact List.forall_mem_cons.mpr ⟨.refl _, hUnknown⟩
  · rw [hMoments]
    intro moment hMoment v hv
    rcases List.mem_cons.mp hMoment with rfl | hMoment
    · cases hv
    rcases List.mem_cons.mp hMoment with rfl | hMoment
    · cases hv
    rcases h.gates moment (hOld moment hMoment) v hv with
      ⟨hIs, hLt⟩
    exact ⟨hIs.mono fun _ _ hNode => hNodes hNode,
      Nat.lt_of_lt_of_le hLt hLe⟩
  · have hSelf :
        ∀ m, some path = some m →
          ∃ e ∈ (s'.record path event).journal, e.path = m := by
      intro m hm
      cases hm
      exact ⟨_, List.mem_cons_self, rfl⟩
    rw [hMoments]
    refine List.forall_mem_cons.mpr ⟨hSelf,
      List.forall_mem_cons.mpr ⟨hSelf, ?_⟩⟩
    intro moment hMoment m hm
    rcases h.opened moment (hOld moment hMoment) m hm with
      ⟨e, he, hPath⟩
    exact ⟨e, List.mem_cons_of_mem _ (hJournal ▸ he), hPath⟩
  · intro e he v hv
    rcases List.mem_cons.mp he with hEq | he
    · rw [hEq] at hv
      cases hGate.symm.trans hv
    · show ∃ newer d older, _ :: s'.journal = _ ∧ _
      rw [hJournal] at he ⊢
      exact h.declared_cons he hv

/-
  A function is left, and the frame around it is back.  What
  was written inside is about other functions.
-/
theorem HasGates.closes
    {inner : Option Path}
    {news : List Entry}
    (h : s.HasGates script opening)
    (hShown :
      ∀ v, s.frame.gate = some v → s.Shows script opening v)
    (hInner : s'.HasGates script inner)
    (hJournal : s'.journal = news ++ s.journal)
    (hNews :
      ∀ e ∈ news, openingOf script e.path ≠ opening)
    (hNodes :
      ∀ {id n}, s.graph.nodes.get? id = some n →
        s'.graph.nodes.get? id = some n)
    (hLe : s.graph.nextId ≤ s'.graph.nextId) :
    (s'.onFrame fun _ => s.frame).HasGates script opening := by
  have hNow := (List.pairwise_cons.mp h.agree).1
  have hBefore := (List.pairwise_cons.mp hInner.agree).2
  have hOld :
      ∀ moment ∈ s'.journal.map (Entry.moment script),
        moment ∈ s'.moments script inner :=
    fun _ hMoment => List.mem_cons_of_mem _ hMoment
  refine ⟨List.pairwise_cons.mpr ⟨?_, hBefore⟩,
    List.forall_mem_cons.mpr ⟨?_, fun moment hMoment =>
      hInner.gates moment (hOld moment hMoment)⟩,
    List.forall_mem_cons.mpr ⟨?_, fun moment hMoment =>
      hInner.opened moment (hOld moment hMoment)⟩,
    hInner.declared, hInner.recent⟩
  · intro moment hMoment
    rcases List.mem_map.mp hMoment with ⟨d, hd, rfl⟩
    rw [onFrame_journal, hJournal] at hd
    rcases List.mem_append.mp hd with hNew | hOld
    · refine ⟨fun hSame => absurd hSame (hNews d hNew), ?_⟩
      intro hOther v w hv hw
      -- The gate was shown before the function opened.
      rcases hShown w hw with ⟨e, he, hShows⟩
      rw [hJournal, List.map_append, List.pairwise_append]
        at hBefore
      have hAgrees :=
        hBefore.2.2 _ (List.mem_map_of_mem hNew) _
          (List.mem_map_of_mem he)
      rw [hShows] at hAgrees
      exact (hAgrees.other (Ne.symm hOther) w v rfl hv).symm
    · exact hNow _ (List.mem_map_of_mem hOld)
  · intro v hv
    rcases h.gates _ List.mem_cons_self v hv with ⟨hIs, hLt⟩
    exact ⟨hIs.mono fun _ _ hNode => hNodes hNode,
      Nat.lt_of_lt_of_le hLt hLe⟩
  · intro m hm
    rcases h.opened _ List.mem_cons_self m hm with ⟨e, he, hPath⟩
    refine ⟨e, ?_, hPath⟩
    rw [onFrame_journal, hJournal]
    exact List.mem_append_right _ he

end Session

end FlowGraph.Script

------------------------------------------------------------
-- Between Statements
------------------------------------------------------------

namespace FlowGraph.Script

/- In addition, the gate of the current function is shown. -/
structure Session.ShowsGates
    (script : List Stmt)
    (opening : Option Path)
    (s : Session) :
    Prop extends s.HasGates script opening where
  shown :
    ∀ v, s.frame.gate = some v → s.Shows script opening v

namespace Session

variable {script : List Stmt} {opening : Option Path}
variable {s s' : Session} {path : Path}

theorem ShowsGates.same
    (h : s.ShowsGates script opening)
    (hLater : s.Later s')
    (hJournal : s'.journal = s.journal)
    (hGate : s'.frame.gate = s.frame.gate) :
    s'.ShowsGates script opening :=
  ⟨h.toHasGates.same hLater hJournal hGate, fun v hv =>
    (h.shown v (hGate ▸ hv)).mono hLater.journal⟩

/- An entry shows the gate. -/
theorem HasGates.shows
    {event : Event}
    (h : s.HasGates script (openingOf script path))
    (hGate :
      ∀ v, s.frame.gate = some v →
        s.Shows script (openingOf script path) v ∨
          Entry.Declares script ⟨path, s.builder, event⟩
            s.journal v) :
    (s.record path event).ShowsGates script
      (openingOf script path) :=
  ⟨h.record hGate, fun _ hv =>
    ⟨_, List.mem_cons_self, congrArg (Prod.mk _) hv⟩⟩

theorem ShowsGates.record
    (h : s.ShowsGates script (openingOf script path))
    (event : Event) :
    (s.record path event).ShowsGates script
      (openingOf script path) :=
  h.toHasGates.shows fun v hv => Or.inl (h.shown v hv)

end Session

end FlowGraph.Script

------------------------------------------------------------
-- Declarations
------------------------------------------------------------

namespace FlowGraph

namespace Builder

variable {b : Builder}

/- A gate is declared where there was none. -/
theorem isGate_gated
    (hNone : b.frame.gate = none) :
    b.gateOf.node = b.graph.nextId ∧
      b.gateOf.IsGate b.gated.graph := by
  unfold gateOf gated
  rw [hNone]
  exact ⟨rfl, rfl, Graph.get?_attach_self⟩

theorem gateOf_eq
    {v : Variable}
    (h : b.frame.gate = some v) :
    b.gateOf = v := by
  unfold gateOf
  rw [h]
  rfl

/- All nodes that are there when the gate is are kept. -/
theorem returned_nodes
    (hReady : b.Ready)
    {id : Nat}
    {n : Node}
    (h : b.gated.graph.nodes.get? id = some n) :
    b.returned.graph.nodes.get? id = some n := by
  have hRaised :=
    advances_placed (n := raiseNode b.gateOf)
      (advances_gated hReady).ready rfl
  exact (advances_stopped hRaised.ready).advance.grows.nodes
    (hRaised.advance.grows.nodes h)

end Builder

/-
  Actions do nothing to the gate, except that the ones that
  ask for it declare it if there is none.
-/
theorem Script.Action.Acts.gate_cases
    {names : Names}
    {b b' : Builder}
    {act : Action}
    {r : Result}
    (h : act.Acts names b r b')
    (hReady : b.Ready) :
    b'.frame.gate = b.frame.gate ∨
      act.asksGate = true ∧
        ∃ v, b'.frame.gate = some v ∧
          b.graph.nextId ≤ v.node ∧ v.IsGate b'.graph := by
  cases h with
  | returns =>
      cases hGate : b.frame.gate with
      | some v =>
          left
          rw [Builder.returned_gate, Builder.gateOf_eq hGate]
      | none =>
          rcases Builder.isGate_gated hGate with ⟨hNode, hIs⟩
          exact Or.inr ⟨rfl, _, Builder.returned_gate,
            Nat.le_of_eq hNode.symm, hIs.mono fun _ _ hOld =>
              Builder.returned_nodes hReady hOld⟩
  | declares =>
      cases hGate : b.frame.gate with
      | some v =>
          left
          rw [Builder.gated_gate, Builder.gateOf_eq hGate]
      | none =>
          rcases Builder.isGate_gated hGate with ⟨hNode, hIs⟩
          exact Or.inr ⟨rfl, _, Builder.gated_gate,
            Nat.le_of_eq hNode.symm, hIs⟩
  | _ => exact Or.inl rfl

/- A loop has a gate before it is followed by a guard. -/
theorem Script.gate_afterLoop
    {s b : Session}
    (hGate :
      s.frame.returns < b.frame.returns →
        ∃ v, b.frame.gate = some v) :
    (s.afterLoop b).frame.gate = b.frame.gate := by
  unfold Session.afterLoop
  split
  · rename_i hMore
    rcases hGate hMore with ⟨v, hv⟩
    have hOver :
        (b.afterRounds s.graph.nextId).builder.frame.gate =
          some v := hv
    rw [hv]
    show (b.afterRounds
      s.graph.nextId).builder.guarded.frame.gate = some v
    rw [guarded_of_gate hOver]
    exact hOver
  · rfl

end FlowGraph

------------------------------------------------------------
-- Statements
------------------------------------------------------------

namespace FlowGraph.Script

variable {script : List Stmt} {path : Path} {st : Stmt}
variable {s s' s₁ : Session} {a b : Segment → Session}
variable {r : Result}

/- A function has gates of its own, and so has the outside. -/
theorem hasGates_function
    {event : String}
    {body : List Stmt}
    (hReady : s.Ready)
    (hBody :
      BodyRan script (path ++ [.function]) body
        (s.opened event) s')
    (hNodup : (s'.journal.map Entry.path).Nodup)
    (hInner :
      ((s.opened event).record (path ++ [.function])
          .entered).ShowsGates script
          (some (path ++ [.function])) →
        s'.ShowsGates script (some (path ++ [.function])))
    (hs : s.ShowsGates script (openingOf script path)) :
    (s'.onFrame fun _ => s.frame).ShowsGates script
      (openingOf script path) := by
  rcases BlockRan.wrote hBody with ⟨news, hJournal, -, hPaths⟩
  have hOpened :
      ∀ {id n}, s.graph.nodes.get? id = some n →
        (s.opened event).graph.nodes.get? id = some n :=
    fun hNode => (Graph.grows_attach
      hReady.builder.wf).nodes hNode
  have hNew :
      path ++ [.function] ∉ s.journal.map Entry.path := by
    rw [hJournal, List.map_append, List.nodup_append] at hNodup
    exact (List.nodup_cons.mp hNodup.2.1).1
  have hEntered :
      ((s.opened event).record (path ++ [.function])
        .entered).ShowsGates script
          (some (path ++ [.function])) :=
    ⟨hs.toHasGates.opens hOpened (Nat.le_succ _) rfl rfl
      openingOf_function hNew, fun _ hv => nomatch hv⟩
  have hLater := hBody.leads.later
  have hAll :
      s'.journal =
        (news ++ [⟨path ++ [.function],
          (s.opened event).builder, .entered⟩]) ++
            s.journal := by
    rw [hJournal, List.append_assoc]
    rfl
  refine ⟨hs.toHasGates.closes hs.shown
    (hInner hEntered).toHasGates hAll ?_
    (fun hNode => hLater.nodes (hOpened hNode))
    (Nat.le_trans (Nat.le_succ _) hLater.nextId_le), ?_⟩
  · intro e he hSame
    have hInside : path ++ [.function] <+: e.path := by
      rcases List.mem_append.mp he with he | he
      · exact hPaths e he
      · cases List.mem_singleton.mp he
        exact List.prefix_refl _
    rcases openingOf_inside hInside with ⟨m, hm, hLt⟩
    have hLe := length_openingOf (hSame.symm.trans hm)
    omega
  · intro v hv
    exact (hs.shown v hv).mono ⟨_, hAll.symm⟩

/-
  The gates of all functions, once a statement is done and
  before it is journaled.  The gate of its own function was
  shown in the meantime or is declared by the statement.
-/
theorem Unfolds.hasGates
    (h : Unfolds script path s a b st r s₁)
    (hRan :
      StmtRan script path st s
        (s₁.finish path st.binding r))
    (hPath : path ≠ [])
    (hNodup : (s₁.journal.map Entry.path).Nodup)
    (hBodies :
      ∀ segment body, st.body? segment = some body →
        ((a segment).record (path ++ [segment])
            .entered).ShowsGates script
            (openingOf script (path ++ [segment])) →
          (b segment).ShowsGates script
            (openingOf script (path ++ [segment])))
    (hs : s.ShowsGates script (openingOf script path)) :
    s₁.HasGates script (openingOf script path) ∧
      ∀ v, s₁.frame.gate = some v →
        s₁.Shows script (openingOf script path) v ∨
          Entry.Declares script
            ⟨path, s₁.builder, .finished r⟩ s₁.journal v := by
  have hReady := hRan.ready
  have hShown :
      s₁.ShowsGates script (openingOf script path) →
        s₁.HasGates script (openingOf script path) ∧
          ∀ v, s₁.frame.gate = some v →
            s₁.Shows script (openingOf script path) v ∨
              Entry.Declares script
                ⟨path, s₁.builder, .finished r⟩ s₁.journal
                v :=
    fun h => ⟨h.toHasGates, fun v hv => Or.inl (h.shown v hv)⟩
  -- A body of the same function keeps what is shown.
  have hInner :
      ∀ segment body, segment ≠ .function →
        st.body? segment = some body →
          (a segment).ShowsGates script
              (openingOf script path) →
            (b segment).ShowsGates script
              (openingOf script path) := by
    intro segment body hSame hBody hStart
    have hOpening :
        openingOf script (path ++ [segment]) =
          openingOf script path :=
      openingOf_append hPath hSame
    rw [← hOpening] at hStart ⊢
    exact hBodies segment body hBody (hStart.record _)
  cases h with
  | @action bind act _ after hActs =>
      have hLater : s.Later (s.withBuilder after) :=
        Session.later_withBuilder hRan.leads.builder
      rcases hActs.gate_cases hReady.builder with
        hSame | ⟨hAsks, v, hv, hNew, hIs⟩
      · exact hShown (hs.same hLater rfl hSame)
      · have hEq :
            ∀ w, (s.withBuilder after).frame.gate = some w →
              w = v :=
          fun w hw => Option.some.inj (hw.symm.trans hv)
        have hBelow : v.node < after.graph.nextId :=
          hRan.leads.ready.builder.wf.node_lt hIs.node
        refine ⟨hs.toHasGates.later hLater rfl ?_, ?_⟩
        · intro w hw
          rw [hEq w hw]
          exact Or.inr ⟨hIs, hBelow⟩
        · intro w hw
          rw [hEq w hw]
          exact Or.inr ⟨⟨bind, act, hRan.place.self, hAsks⟩,
            hIs, Nat.le_trans hs.recent hNew, hBelow⟩
  | function hStart hBody =>
      have hOwn := hBodies .function _ rfl
      rw [openingOf_function] at hOwn
      rw [hStart] at hBody hOwn
      exact hShown (hasGates_function hReady hBody hNodup hOwn
        hs)
  | @conditional st v thenBody elseBody hDecides hFirst hThen
      hSecond hElseReady hElse =>
      have hStart :
          (a .thenBody).ShowsGates script
            (openingOf script path) := by
        rw [hFirst]
        exact hs.same ((Session.later_placed hReady rfl).trans
          (Session.later_withTail _ _)) rfl rfl
      have hMiddle :=
        hInner .thenBody _ nofun hDecides.bodies.1 hStart
      have hOther :
          (a .elseBody).ShowsGates script
            (openingOf script path) := by
        rw [hSecond]
        exact hMiddle.same (Session.later_withTail _ _) rfl rfl
      have hEnd :
          (b .elseBody).ShowsGates script
            (openingOf script path) := by
        cases elseBody with
        | none =>
            rw [show b .elseBody = a .elseBody from hElse]
            exact hOther
        | some body =>
            exact hInner .elseBody body nofun
              hDecides.bodies.2 hOther
      exact hShown (hEnd.same (Session.later_withTail _ _) rfl
        rfl)
  | @switch bind control v cases default branches s₂ s₃ join
      hEval hAssembled hArms hRuns =>
      rcases hAssembled.same with ⟨after, hSame, hEnd⟩
      have hPlaced :
          (s.placed (switchNode v (preparedSwitch path cases
            default))).ShowsGates script
              (openingOf script path) :=
        hs.same (Session.later_placed hReady rfl) rfl rfl
      have hLast :=
        (hArms.induct
          (fun d =>
            d.ShowsGates script (openingOf script path))
          (fun _ _ hd =>
            hd.same (Session.later_withTail _ _) rfl rfl)
          ?_ hPlaced).2
      · refine hShown (hLast.same hAssembled.later
          hAssembled.journal ?_)
        rw [hEnd]
        show after.frame.gate = s₂.builder.frame.gate
        rw [hSame.frame]
      · intro j run hArm hStart
        rcases body_preparedSwitch _ _ hArm rfl with
          ⟨body, hBody, _⟩
        refine hInner (armSegment j) body ?_ hBody hStart
        cases j <;> nofun
  | loop hRepeats hStart hBody =>
      have hLeads := hBody.leads
      have hCounts :=
        (counts_returns script).2 _ _ _ _ _ hBody
      rw [hStart] at hLeads
      have hOver := (leads_rounds hReady hRepeats hLeads).ready
      have hReturns :
          (a .loopBody).frame.returns = s.frame.returns := by
        rw [hStart]
        rfl
      have hRound :
          (a .loopBody).ShowsGates script
            (openingOf script path) := by
        rw [hStart]
        exact hs.same ((Session.later_placed hReady
          hRepeats.body.2.1).trans (Session.later_of_eq rfl rfl
            rfl (List.suffix_refl _))) rfl rfl
      have hEnd :=
        hInner .loopBody _ nofun hRepeats.body.1 hRound
      refine hShown (hEnd.same (later_afterLoop hOver)
        journal_afterLoop (gate_afterLoop ?_))
      intro hMore
      rw [← hReturns] at hMore
      exact hCounts.gate (hCounts.grown.mp hMore)

/- A statement keeps all gates, and so does a body. -/
theorem showsGates_ran
    (script : List Stmt) :
    (∀ st path s s', StmtRan script path st s s' →
      path ≠ [] → (s'.journal.map Entry.path).Nodup →
        s.ShowsGates script (openingOf script path) →
          s'.ShowsGates script (openingOf script path)) ∧
      ∀ block path i s s', BlockRan script path i block s s' →
        path ≠ [] → (s'.journal.map Entry.path).Nodup →
          s.ShowsGates script (openingOf script path) →
            s'.ShowsGates script (openingOf script path) := by
  apply ran_induction script
  · intro path st s a b r s₁ hRan hUnfolds hBodies hPath
      hNodup hs
    have hInner : (s₁.journal.map Entry.path).Nodup :=
      (List.nodup_cons.mp hNodup).2
    rcases hUnfolds.hasGates hRan hPath hInner
          (fun segment body hBody hStart => by
            have hSuffix :=
              (hUnfolds.encloses hRan.ready hBody).journal
            exact hBodies segment body hBody (by simp)
              (hInner.sublist (hSuffix.sublist.map _)) hStart)
          hs with
      ⟨hGates, hShown⟩
    have hNames :
        (s₁.withNames (s₁.names.keep st.binding
          r)).HasGates script (openingOf script path) :=
      hGates.same (Session.later_of_eq rfl rfl rfl
        (List.suffix_refl _)) rfl rfl
    exact hNames.shows hShown
  · intro path i s _ _ _ hs
    exact hs
  · intro path i st rest s s₁ s₂ hFirst hRest hStmt hBlock
      hPath hNodup hs
    have hOpening :
        openingOf script (path ++ [.statement i]) =
          openingOf script path :=
      openingOf_append hPath (by simp)
    rw [hOpening] at hStmt
    have hSuffix := hRest.leads.later.journal
    exact hBlock hPath hNodup (hStmt (by simp)
      (hNodup.sublist (hSuffix.sublist.map _)) hs)

end FlowGraph.Script

------------------------------------------------------------
-- Scripts
------------------------------------------------------------

namespace FlowGraph.Script

variable {name : String} {config : Config}
variable {script block : List Stmt} {st : Stmt} {i : Nat}
variable {s s' : Session}

theorem begins_of_structured
    (h : st.structured = true) :
    st.begins = false := by
  unfold Stmt.begins
  split
  · cases h
  · rfl

theorem lastBegin_succ
    (h : script[i]? = some st) :
    lastBegin script (i + 1) =
      if st.begins then some [.statement i]
      else lastBegin script i := by
  simp [lastBegin, h]

/- A statement at the top, which may begin a function. -/
theorem TopRan.showsGates
    (h : TopRan script i st s s')
    (hAt : script[i]? = some st)
    (hNodup : (s'.journal.map Entry.path).Nodup)
    (hs : s.ShowsGates script (lastBegin script i)) :
    s'.ShowsGates script (lastBegin script (i + 1)) := by
  cases h with
  | @begins bind event _ hReady =>
      have hOpens : lastBegin script (i + 1) = some [.statement i] :=
        lastBegin_succ hAt
      rw [hOpens]
      have hGates :
          ((s.opened event).finish [.statement i] bind
            (.node s.graph.nextId)).HasGates script
              (some [.statement i]) :=
        hs.toHasGates.opens
          (fun hNode => (Graph.grows_attach
            hReady.builder.wf).nodes hNode)
          (Nat.le_succ _) rfl rfl hOpens
          (List.nodup_cons.mp hNodup).1
      exact ⟨hGates, fun _ hv => nomatch hv⟩
  | runs hRan =>
      have hRuns : st.begins = false :=
        begins_of_structured
          ((Stmt.every_iff st).mp hRan.structured).1
      have hSame :
          openingOf script [.statement i] =
            lastBegin script i := by
        refine (lastBegin_succ hAt).trans ?_
        rw [hRuns]
        rfl
      exact (showsGates_ran script).1 _ _ _ _ hRan (by simp)
        hNodup (hSame ▸ hs)

/- A script that is not refused keeps all gates. -/
theorem showsGates_runFrom
    (hBlock : structured block = true)
    (hPlace : Holds script [] i block)
    (hReady : s.Ready)
    (hOk :
      ∀ e ∈ (runFrom i block s).journal,
        e.event.isFailure = false)
    (hNodup :
      ((runFrom i block s).journal.map Entry.path).Nodup)
    (hs : s.ShowsGates script (lastBegin script i)) :
    (runFrom i block s).ShowsGates script
      (lastBegin script (i + block.length)) := by
  induction block generalizing i s with
  | nil => exact hs
  | cons st rest ih =>
      rcases Bool.and_eq_true_iff.mp hBlock with ⟨hStmt, hRest⟩
      unfold runFrom at hOk hNodup ⊢
      rcases hRan : runStmt [.statement i] st s with
        ⟨err | _, s'⟩
      · rw [hRan] at hOk
        rcases failed_mem_runFrom hRan rest with ⟨d, hd, hFailed⟩
        have hNot := hOk d hd
        rw [hFailed] at hNot
        cases hNot
      · rw [hRan] at hOk hNodup
        have hTop :=
          topRan_of_ok hStmt hPlace.head hReady hRan
        have hSuffix := (wrote_runFrom rest (i + 1) s').suffix
        have hNext :=
          hTop.showsGates hPlace.head.self
            (hNodup.sublist (hSuffix.sublist.map _)) hs
        rw [show i + (st :: rest).length =
          i + 1 + rest.length by simp; omega]
        exact ih hRest hPlace.tail hTop.onward.ready hOk hNodup
          hNext

theorem showsGates_run
    (hScript : structured script = true)
    (hOk :
      ∀ e ∈ (run name config script).entries,
        e.event.isFailure = false) :
    ∃ opening,
      (run name config script).ShowsGates script opening := by
  have hMoments :
      ∀ moment ∈ (Session.new name config).moments script none,
        moment = (none, none) :=
    fun _ hMoment => List.mem_singleton.mp hMoment
  have hNew :
      (Session.new name config).ShowsGates script none := by
    refine ⟨⟨List.pairwise_singleton _ _, ?_, ?_, ?_,
      Nat.le_refl _⟩, ?_⟩
    · intro moment hMoment v hv
      rw [hMoments moment hMoment] at hv
      cases hv
    · intro moment hMoment m hm
      rw [hMoments moment hMoment] at hm
      cases hm
    · intro e he
      cases he
    · intro v hv
      cases hv
  exact ⟨_, showsGates_runFrom hScript (holds_script script)
    (Session.Told.new (P := fun _ => True) name config).start
    (fun e he => hOk e (List.mem_reverse.mpr he))
    (nodup_journal name config script) hNew⟩

end FlowGraph.Script

------------------------------------------------------------
-- The Gate Of A Function
------------------------------------------------------------

namespace FlowGraph.Script

/-
  The gate of the function that opens at a place, as the last
  entry about the function shows it.
-/
def Session.gateIn
    (script : List Stmt)
    (s : Session)
    (opening : Option Path) :
    Option Variable :=
  (s.journal.find? fun e =>
    openingOf script e.path = opening).bind
      fun e => e.frame.gate

/- Some statement of the function needs the gate. -/
def AsksGate
    (script : List Stmt)
    (opening : Option Path) :
    Prop :=
  ∃ path bind act,
    find? script path = some (.action bind act) ∧
      act.asksGate = true ∧ openingOf script path = opening

namespace Session.HasGates

variable {script : List Stmt} {opening here : Option Path}
variable {s : Session} {v w : Variable}

/- What any entry shows, the last one shows. -/
theorem gateIn_eq_some_iff
    (h : s.HasGates script here) :
    s.gateIn script opening = some v ↔
      s.Shows script opening v := by
  constructor
  · intro hGate
    rcases Option.bind_eq_some_iff.mp hGate with ⟨e, hFind, hv⟩
    have hOpening := List.find?_some hFind
    refine ⟨e, List.mem_of_find?_eq_some hFind, ?_⟩
    rw [Entry.moment, hv, of_decide_eq_true hOpening]
  · rintro ⟨e, he, hMoment⟩
    have hOpening :
        openingOf script e.path = opening :=
      congrArg Prod.fst hMoment
    have hv : e.frame.gate = some v :=
      congrArg Prod.snd hMoment
    unfold gateIn
    cases hFind : s.journal.find? fun e =>
        openingOf script e.path = opening with
    | none =>
        have hNot := List.find?_eq_none.mp hFind e he
        exact absurd (decide_eq_true hOpening) hNot
    | some d =>
        rcases List.find?_eq_some_iff_append.mp hFind with
          ⟨hSame, newer, older, hSplit, hNewer⟩
        have hSame := of_decide_eq_true hSame
        have hPairs := (List.pairwise_cons.mp h.agree).2
        rw [hSplit] at he hPairs
        rw [List.map_append, List.pairwise_append] at hPairs
        rcases List.mem_append.mp he with hNew | hOld
        · have hNot := hNewer e hNew
          simp [hOpening] at hNot
        · rcases List.mem_cons.mp hOld with hEq | hOld
          · exact hEq ▸ hv
          · have hAgrees :=
              (List.pairwise_cons.mp hPairs.2.1).1 _
                (List.mem_map_of_mem hOld)
            exact hAgrees.same (hOpening.trans hSame.symm) v hv

/- Different functions have different gates. -/
theorem opening_of_node
    {other : Option Path}
    (h : s.HasGates script here)
    (hv : s.Shows script opening v)
    (hw : s.Shows script other w)
    (hNode : v.node = w.node) :
    opening = other := by
  refine Classical.byContradiction fun hNe => ?_
  rcases hv with ⟨e, he, hMoment⟩
  rcases hw with ⟨d, hd, hOther⟩
  rcases List.append_of_mem he with ⟨newer, older, hSplit⟩
  have hPairs := (List.pairwise_cons.mp h.agree).2
  rw [hSplit] at hd hPairs
  rw [List.map_append, List.pairwise_append, List.map_cons,
    List.pairwise_cons, hMoment] at hPairs
  rcases List.mem_append.mp hd with hNewer | hRest
  · have hAgrees :=
      hPairs.2.2 _ (List.mem_map_of_mem hNewer) _
        List.mem_cons_self
    rw [hOther] at hAgrees
    exact hAgrees.other hNe v w rfl rfl hNode
  · rcases List.mem_cons.mp hRest with hEq | hOlder
    · rw [hEq, hMoment] at hOther
      exact hNe (congrArg Prod.fst hOther)
    · have hAgrees :=
        hPairs.2.1.1 _ (List.mem_map_of_mem hOlder)
      rw [hOther] at hAgrees
      exact hAgrees.other (Ne.symm hNe) w v rfl rfl
        hNode.symm

end Session.HasGates

end FlowGraph.Script
