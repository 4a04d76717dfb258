import FlowGraph.Proofs.Progress

/-
  Branches of a construct.

  A construct places a node and runs a body from each of its
  exec outputs.  The flow is spread over all of these until
  it is joined again.

  Key definitions include:
    * `FlowGraph.Script.Session.Refused`
    * `FlowGraph.Script.Sound`
    * `FlowGraph.Script.Session.Spread`

  Key theorems include:
    * `FlowGraph.Script.Session.Spread.focus`
    * `FlowGraph.Script.Sound.inBranch`
    * `FlowGraph.Script.mem_joinTails`
-/

------------------------------------------------------------
-- Refused Runs
------------------------------------------------------------

namespace FlowGraph.Script

/-
  An entry shows an open cursor, or a refusal for another
  reason than the graph.
-/
structure Entry.Fair
    (e : Entry) :
    Prop where
  isOpen : e.event.isFailure = false → e.IsOpen
  harmless :
    ∀ err, e.event = .failed err → err.isRegistry = false

theorem Entry.fair_of_isOpen
    {e : Entry}
    (h : e.event.isFailure = false ∧ e.IsOpen) :
    e.Fair := by
  refine ⟨fun _ => h.2, ?_⟩
  intro err hErr
  have hEvent := h.1
  rw [hErr] at hEvent
  cases hEvent

/- All entries that a run has added are fair. -/
def Session.Refused
    (s s' : Session) :
    Prop :=
  ∃ news, s'.journal = news ++ s.journal ∧
    ∀ e ∈ news, e.Fair

namespace Session

variable {P : Entry → Prop}
variable {lo : Nat} {s s₁ s₂ : Session}

/- No entry was added. -/
theorem refused_of_eq
    (h : s₁.journal = s.journal) :
    s.Refused s₁ :=
  ⟨[], h, by simp⟩

/- The entries of a run that came through are fair. -/
theorem Leads.refused
    (h : Leads P lo s s₁) :
    s.Refused s₁ := by
  obtain ⟨news, hJournal, hNews⟩ := h.journal
  exact ⟨news, hJournal, fun e he =>
    Entry.fair_of_isOpen (hNews.isOpen e he)⟩

theorem Refused.trans
    (h₁ : s.Refused s₁)
    (h₂ : s₁.Refused s₂) :
    s.Refused s₂ := by
  obtain ⟨news, hJournal, hNews⟩ := h₁
  obtain ⟨news', hJournal', hNews'⟩ := h₂
  refine ⟨news' ++ news, ?_, ?_⟩
  · rw [hJournal', hJournal, List.append_assoc]
  · intro e he
    rcases List.mem_append.mp he with he | he
    · exact hNews' e he
    · exact hNews e he

/- The refusal of a statement is journaled. -/
theorem Refused.record
    {path : Path}
    {err : Error}
    (h : s.Refused s₁)
    (hErr : err.isRegistry = false) :
    s.Refused (s₁.record path (.failed err)) := by
  obtain ⟨news, hJournal, hNews⟩ := h
  refine ⟨⟨path, s₁.builder, .failed err⟩ :: news, ?_, ?_⟩
  · rw [List.cons_append, ← hJournal]
    rfl
  · rw [List.forall_mem_cons]
    refine ⟨⟨?_, ?_⟩, hNews⟩
    · intro hEvent
      cases hEvent
    · intro err' hEq
      cases hEq
      exact hErr

end Session

/- What a refused run leaves behind. -/
def Session.Refuses
    (s : Session)
    (e : Error)
    (s' : Session) :
    Prop :=
  e.isRegistry = false ∧ s.Refused s'

/-
  From any session that is ready, the body leads to another
  one or is refused for other reasons than the graph.
-/
def Sound
    (P : Entry → Prop)
    (body : Run Unit) :
    Prop :=
  ∀ s : Session, s.Ready →
    body.Meets s
      (fun _ s' => Session.Leads P s.graph.nextId s s')
      s.Refuses

/- The same for a construct that yields its node. -/
def SoundNode
    (P : Entry → Prop)
    (m : Run Nat) :
    Prop :=
  ∀ s : Session, s.Ready →
    m.Meets s
      (fun id s' =>
        Session.Leads P s.graph.nextId s s' ∧
          Session.IsNew s s' (.node id))
      s.Refuses

end FlowGraph.Script

------------------------------------------------------------
-- Flow From Several Outputs
------------------------------------------------------------

namespace FlowGraph.Script

/-
  The flow of a session has spread over several new exec
  outputs; nodes that bodies finished are numbered from `lo`
  on.
-/
structure Session.Spread
    (P : Entry → Prop)
    (lo : Nat)
    (s s₁ : Session)
    (tail : List Endpoint) :
    Prop where
  start : s.Ready
  leads : Session.Leads P lo s (s₁.withTail tail)
  isNew : ∀ e ∈ tail, s.graph.nextId ≤ e.node
  lo_le : lo ≤ s₁.graph.nextId

namespace Session.Spread

variable {P : Entry → Prop}
variable {lo : Nat} {s s₁ s₂ : Session}
variable {tail tail' : List Endpoint}
variable {start : Endpoint}

theorem cursor
    (h : Spread P lo s s₁ tail) :
    s₁.graph.Cursor tail :=
  h.leads.ready.builder.cursor

theorem wf
    (h : Spread P lo s s₁ tail) :
    s₁.graph.Wf :=
  h.leads.ready.builder.wf

/- The session is ready to go on from one of the outputs. -/
theorem ready
    (h : Spread P lo s s₁ tail)
    (hStart : start ∈ tail) :
    (s₁.withTail [start]).Ready :=
  h.leads.ready.withTail
    (Graph.cursor_singleton (h.cursor.isOpen start hStart))

/- One of the outputs is taken up. -/
theorem focus
    (h : Spread P lo s s₁ tail)
    (hStart : start ∈ tail)
    (hBelow : start.node < lo)
    (hBody :
      Leads P s₁.graph.nextId (s₁.withTail [start])
        (s₂.withTail tail')) :
    Spread P lo s s₂ (tail.erase start ++ tail') := by
  have hLe : s₁.graph.nextId ≤ s₂.graph.nextId :=
    hBody.nextId_le
  refine ⟨h.start,
    h.leads.focus h.start h.isNew hStart hBelow h.lo_le
      hBody, ?_, Nat.le_trans h.lo_le hLe⟩
  intro e he
  rcases List.mem_append.mp he with he | he
  · exact h.isNew e (List.mem_of_mem_erase he)
  · rcases hBody.builder.advance.mem_or_new he with hEq | hGe
    · rw [List.mem_singleton.mp hEq]
      exact h.isNew start hStart
    · exact Nat.le_trans h.leads.nextId_le hGe

/- Outputs of nodes below the bound may be dropped. -/
theorem narrow
    (h : Spread P lo s s₁ tail)
    (hNodup : tail'.Nodup)
    (hSub : ∀ e ∈ tail', e ∈ tail)
    (hKept : ∀ e ∈ tail, lo ≤ e.node → e ∈ tail') :
    Spread P lo s s₁ tail' :=
  ⟨h.start,
    h.leads.narrow h.isNew hNodup hSub hKept,
    fun e he => h.isNew e (hSub e he), h.lo_le⟩

/- The outputs may be listed in another order. -/
theorem perm
    (h : Spread P lo s s₁ tail)
    (hPerm : tail.Perm tail') :
    Spread P lo s s₁ tail' :=
  h.narrow (hPerm.nodup_iff.mp h.cursor.nodup)
    (fun _ he => hPerm.mem_iff.mpr he)
    (fun _ he _ => hPerm.mem_iff.mp he)

end Session.Spread

end FlowGraph.Script

------------------------------------------------------------
-- The Outputs Of A New Node
------------------------------------------------------------

namespace FlowGraph.Script

/- The exec outputs of a node from the `i`-th on. -/
def outputsFrom
    (node : Nat) :
    Nat → Nat → List Endpoint
  | _, 0 => []
  | i, k + 1 => ⟨node, i⟩ :: outputsFrom node (i + 1) k

theorem mem_outputsFrom
    {node i k : Nat}
    {e : Endpoint} :
    e ∈ outputsFrom node i k ↔
      e.node = node ∧ i ≤ e.index ∧ e.index < i + k := by
  induction k generalizing i with
  | zero =>
      simp only [outputsFrom, List.not_mem_nil, false_iff]
      omega
  | succ k ih =>
      obtain ⟨m, j⟩ := e
      simp only [outputsFrom, List.mem_cons, ih,
        Endpoint.mk.injEq]
      omega

theorem nodup_outputsFrom
    (node i k : Nat) :
    (outputsFrom node i k).Nodup := by
  induction k generalizing i with
  | zero => exact List.nodup_nil
  | succ k ih =>
      refine List.nodup_cons.mpr ⟨?_, ih (i + 1)⟩
      intro hMem
      have hLe := (mem_outputsFrom.mp hMem).2.1
      exact Nat.not_succ_le_self i hLe

variable {P : Entry → Prop} {s : Session} {n : Node}

/- The flow spreads over the outputs of a new node. -/
theorem spread_placed
    (hReady : s.Ready)
    (hExec : n.nodeClass = .exec) :
    Session.Spread P (s.graph.nextId + 1) s (s.placed n)
      (outputsFrom s.graph.nextId 0 n.execOutputs) := by
  have hPlaced :=
    Builder.advances_placed hReady.builder hExec
  have hNode :
      ∀ e ∈ outputsFrom s.graph.nextId 0 n.execOutputs,
        e.node = s.graph.nextId ∧ e.index < n.execOutputs := by
    intro e he
    have hMem := mem_outputsFrom.mp he
    omega
  have hCursor :
      (s.placed n).graph.Cursor
        (outputsFrom s.graph.nextId 0 n.execOutputs) := by
    refine ⟨nodup_outputsFrom _ _ _, ?_⟩
    intro e he
    obtain ⟨hEq, hLt⟩ := hNode e he
    have hOpen :=
      Builder.isOpen_placed hReady.builder hExec hLt
    rw [show e = ⟨s.graph.nextId, e.index⟩ by rw [← hEq]]
    exact hOpen
  have hNew :
      ∀ e ∈ outputsFrom s.graph.nextId 0 n.execOutputs,
        s.graph.nextId ≤ e.node := by
    intro e he
    exact Nat.le_of_eq (hNode e he).1.symm
  exact ⟨hReady,
    Session.leads_withBuilder hReady
      (hPlaced.withTail hCursor hNew),
    hNew, Nat.le_refl _⟩

end FlowGraph.Script

------------------------------------------------------------
-- Bodies Of Branches
------------------------------------------------------------

namespace FlowGraph.Script

/- What a body did that was run from an exec output. -/
structure Ran
    (start : Endpoint)
    (s : Session)
    (b : Branch)
    (s' : Session) :
    Prop where
  grows : s.graph.Grows [start] s'.graph
  tail :
    ∀ e ∈ b.tail, e = start ∨ s.graph.nextId ≤ e.node
  head : b.head = s'.graph.execTarget start

variable {P : Entry → Prop}
variable {lo node index : Nat} {s s₁ : Session}
variable {tail : List Endpoint} {body : Run Unit}

/- A body is run from one of the outputs of a spread flow. -/
theorem Sound.inBranch
    (hBody : Sound P body)
    (h : Session.Spread P lo s s₁ tail)
    (hStart : ⟨node, index⟩ ∈ tail)
    (hBelow : node < lo) :
    (inBranch node index body).Meets s₁
      (fun b s₂ =>
        Session.Spread P lo s s₂
            (tail.erase ⟨node, index⟩ ++ b.tail) ∧
          Ran ⟨node, index⟩ s₁ b s₂)
      s.Refuses := by
  rw [meets_inBranch]
  refine (hBody _ (h.ready hStart)).mono ?_ ?_
  · intro _ s' hLeads
    have hAdvance := hLeads.builder.advance
    refine ⟨h.focus hStart hBelow hLeads,
      hAdvance.grows, ?_, rfl⟩
    intro e he
    rcases hAdvance.mem_or_new he with hEq | hGe
    · exact Or.inl (List.mem_singleton.mp hEq)
    · exact Or.inr hGe
  · rintro e s' ⟨hErr, hRefused⟩
    exact ⟨hErr, h.leads.refused.trans hRefused⟩

end FlowGraph.Script

------------------------------------------------------------
-- Joins
------------------------------------------------------------

namespace FlowGraph.Script

variable {e : Endpoint} {join tail : List Endpoint}

theorem mem_joinWith :
    e ∈ joinWith join tail ↔ e ∈ join ∨ e ∈ tail := by
  induction tail generalizing join with
  | nil =>
      simp [joinWith]
  | cons d rest ih =>
      unfold joinWith
      rw [ih, List.mem_cons]
      by_cases hd : d ∈ join
      · rw [if_pos hd]
        constructor
        · rintro (he | he)
          · exact Or.inl he
          · exact Or.inr (Or.inr he)
        · rintro (he | rfl | he)
          · exact Or.inl he
          · exact Or.inl hd
          · exact Or.inr he
      · rw [if_neg hd, List.mem_append, List.mem_singleton,
          or_assoc]

theorem nodup_joinWith
    (h : join.Nodup) :
    (joinWith join tail).Nodup := by
  induction tail generalizing join with
  | nil => exact h
  | cons d rest ih =>
      unfold joinWith
      apply ih
      by_cases hd : d ∈ join
      · rw [if_pos hd]
        exact h
      · rw [if_neg hd, List.nodup_append]
        refine ⟨h, by simp, ?_⟩
        intro a ha b hb hEq
        rw [hEq, List.mem_singleton.mp hb] at ha
        exact hd ha

theorem joinWith_append
    (join tail tail' : List Endpoint) :
    joinWith join (tail ++ tail') =
      joinWith (joinWith join tail) tail' := by
  induction tail generalizing join with
  | nil => rfl
  | cons d rest ih => exact ih _

/- A join starts from what is joined already. -/
theorem foldl_joinWith
    (tails : List (List Endpoint))
    (join : List Endpoint) :
    tails.foldl joinWith join =
      joinWith join tails.flatten := by
  induction tails generalizing join with
  | nil => rfl
  | cons tail rest ih =>
      rw [List.foldl_cons, ih, List.flatten_cons,
        joinWith_append]

/- A join holds what any of the bodies left open. -/
theorem mem_joinTails
    {tails : List (List Endpoint)} :
    e ∈ joinTails tails ↔ ∃ tail ∈ tails, e ∈ tail := by
  unfold joinTails
  rw [foldl_joinWith, mem_joinWith]
  simp

/- A join lists each endpoint once. -/
theorem nodup_joinTails
    (tails : List (List Endpoint)) :
    (joinTails tails).Nodup := by
  unfold joinTails
  rw [foldl_joinWith]
  exact nodup_joinWith List.nodup_nil

end FlowGraph.Script
