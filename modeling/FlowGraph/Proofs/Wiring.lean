import FlowGraph.Proofs.Appending
import FlowGraph.Proofs.Dispatch
import FlowGraph.Proofs.NodeTyping

/-
  What the statements of a structured script link.

  A statement links exec outputs that the cursor lists and
  exec outputs of new nodes, whether it is refused or not,
  and the cursor afterwards lists no others either.  The
  bodies of a construct are run from outputs of its own new
  node.

  Key definitions include:
    * `FlowGraph.Builder.GoesOn`
    * `FlowGraph.Script.Session.Came`
    * `FlowGraph.Script.Tame`

  Key theorems include:
    * `FlowGraph.Builder.meets_place_goesOn`
    * `FlowGraph.Script.tame_runStmt`
    * `FlowGraph.Script.goesOn_runFrom`
-/

------------------------------------------------------------
-- Flow That Goes On
------------------------------------------------------------

namespace FlowGraph.Builder

/-
  The flow has gone on, refused or not: of the exec outputs
  that were there, only listed ones may have got a link, and
  the cursor lists what it listed before or what is new.
-/
structure GoesOn
    (b b' : Builder) :
    Prop where
  nextId_le : b.graph.nextId ≤ b'.graph.nextId
  tail :
    ∀ e ∈ b'.frame.tail, e ∈ b.frame.tail ∨
      b.graph.nextId ≤ e.node ∧ e.node < b'.graph.nextId
  apart :
    ∀ {e}, e.node < b.graph.nextId → e ∉ b.frame.tail →
      b'.graph.execTarget e = b.graph.execTarget e

/- The flow goes on from nodes that are there. -/
def Rooted
    (b : Builder) :
    Prop :=
  ∀ e ∈ b.frame.tail, e.node < b.graph.nextId

namespace GoesOn

variable {b b₁ b₂ : Builder}
variable {tail : List Endpoint}

theorem refl
    (b : Builder) :
    b.GoesOn b :=
  ⟨Nat.le_refl _, fun _ he => Or.inl he, fun _ _ => rfl⟩

theorem trans
    (h₁ : b.GoesOn b₁)
    (h₂ : b₁.GoesOn b₂) :
    b.GoesOn b₂ := by
  have hLe := h₁.nextId_le
  have hLe' := h₂.nextId_le
  refine ⟨Nat.le_trans hLe hLe', ?_, ?_⟩
  · intro e he
    rcases h₂.tail e he with hOld | hNew
    · rcases h₁.tail e hOld with hListed | hNew
      · exact Or.inl hListed
      · exact Or.inr ⟨hNew.1, by omega⟩
    · exact Or.inr ⟨by omega, hNew.2⟩
  · intro e hLt hNot
    have hNot' : e ∉ b₁.frame.tail := by
      intro he
      rcases h₁.tail e he with hListed | hNew
      · exact hNot hListed
      · omega
    rw [h₂.apart (by omega) hNot', h₁.apart hLt hNot]

theorem rooted
    (h : b.GoesOn b₁)
    (hRooted : b.Rooted) :
    b₁.Rooted := by
  intro e he
  have hLe := h.nextId_le
  rcases h.tail e he with hListed | hNew
  · have hLt := hRooted e hListed
    omega
  · exact hNew.2

/- The cursor may be set to what is listed or new. -/
theorem withTail
    (h : b.GoesOn b₁)
    (hTail :
      ∀ e ∈ tail, e ∈ b.frame.tail ∨
        b.graph.nextId ≤ e.node ∧ e.node < b₁.graph.nextId) :
    b.GoesOn (b₁.withTail tail) :=
  ⟨h.nextId_le, hTail, h.apart⟩

/- The cursor is given back after the flow went on. -/
theorem restore
    (h₁ : b.GoesOn b₁)
    (h₂ : b.GoesOn b₂)
    (hLe : b₁.graph.nextId ≤ b₂.graph.nextId) :
    b.GoesOn (b₂.withTail b₁.frame.tail) := by
  apply h₂.withTail
  intro e he
  rcases h₁.tail e he with hListed | hNew
  · exact Or.inl hListed
  · exact Or.inr ⟨hNew.1, by omega⟩

end GoesOn

/-
  Some exec outputs were linked, as far as that was not
  refused, and nothing else has changed.
-/
structure Links
    (tail : List Endpoint)
    (b b' : Builder) :
    Prop where
  same : b.SameNodes b'
  apart :
    ∀ e, e ∉ tail →
      b'.graph.execTarget e = b.graph.execTarget e

open Process

theorem leaves_connect_links
    (e : Endpoint)
    (t : Nat) :
    (connect e t).Leaves (Links [e]) := by
  intro b
  refine ⟨leaves_connect e t b, ?_⟩
  intro d hd
  have hNe : d ≠ e := by simpa using hd
  unfold connect
  cases hConnect : b.graph.connect e t with
  | error err => rfl
  | ok g =>
      rcases bind_eq_ok.mp hConnect with ⟨_, _, hLink⟩
      split at hLink
      · cases hLink
      · cases hLink
        exact Table.get?_insert_of_ne _ _ hNe

theorem leaves_each_links
    (tail : List Endpoint)
    (t : Nat) :
    (Process.each (fun e => connect e t) tail).Leaves
      (Links tail) := by
  induction tail with
  | nil => exact fun b => ⟨.refl, fun _ _ => rfl⟩
  | cons e rest ih =>
      intro b
      have hWiden :
          ∀ {b b' tail'}, Links tail' b b' →
            (∀ d ∈ tail', d ∈ e :: rest) →
              Links (e :: rest) b b' :=
        fun h hSub =>
          ⟨h.same, fun d hd => h.apart d fun hIn =>
            hd (hSub d hIn)⟩
      refine bind_state (R := Links (e :: rest)) ?_ ?_ ?_
      · intro b₀ b₁ b₂ h₁ h₂
        refine ⟨h₁.same.trans h₂.same, ?_⟩
        intro d hd
        rw [h₂.apart d hd, h₁.apart d hd]
      · exact hWiden (leaves_connect_links e t b) (by simp)
      · intro _ b₁
        exact hWiden (ih b₁) fun _ hd =>
          List.mem_cons_of_mem _ hd

theorem goesOn_added
    (b : Builder)
    (n : Node) :
    b.GoesOn (b.added n) :=
  ⟨Nat.le_succ _, fun _ he => Or.inl he, fun _ _ => rfl⟩

/- A node is placed, or added and perhaps not linked. -/
theorem meets_place_goesOn
    (n : Node)
    (b : Builder) :
    (place n).Meets b
      (fun id b' => b.GoesOn b' ∧ id = b.graph.nextId ∧
        b'.graph.nextId = b.graph.nextId + 1)
      (fun _ b' => b.GoesOn b') := by
  have hAdded :
      ∀ b', Links b.frame.tail
          { b.added n with frame := b.frame.setTail [] } b' →
        b.GoesOn b' := by
    intro b' hLinks
    have hNext : b'.graph.nextId = b.graph.nextId + 1 :=
      hLinks.same.nextId
    refine ⟨by omega, ?_, ?_⟩
    · intro e he
      rw [hLinks.same.frame] at he
      cases he
    · intro e _ hNot
      exact hLinks.apart e hNot
  unfold place
  simp only [meets_bind, meets_fromFrame, meets_add]
  refine (leaves_iff.mp (leaves_each_links _ _) _).mono ?_
    fun _ b' hLinks => hAdded b' hLinks
  intro _ b' hLinks
  have hGoesOn := hAdded b' hLinks
  have hNext : b'.graph.nextId = b.graph.nextId + 1 :=
    hLinks.same.nextId
  split
  · refine ⟨hGoesOn.withTail ?_, rfl, hNext⟩
    intro e he
    cases List.mem_singleton.mp he
    refine Or.inr ⟨Nat.le_refl _, ?_⟩
    rw [hNext]
    exact Nat.lt_succ_self _
  · exact ⟨hGoesOn, rfl, hNext⟩

theorem goesOn_sealPath
    (b : Builder)
    (returning : Bool) :
    b.GoesOn
      { b with frame := b.frame.sealPath returning } := by
  refine ⟨Nat.le_refl _, ?_, fun _ _ => rfl⟩
  intro e he
  cases he

theorem steady_goesOn :
    Steady GoesOn where
  refl := .refl
  trans := .trans
  add n b := goesOn_added b n
  place n := by
    rw [leaves_iff]
    intro b
    exact (meets_place_goesOn n b).mono
      (fun _ _ h => h.1) fun _ _ h => h
  sealPath := goesOn_sealPath
  setGate b _ :=
    ⟨Nat.le_refl _, fun _ he => Or.inl he, fun _ _ => rfl⟩

variable {b b₁ b₂ : Builder} {tail : List Endpoint}

/- New exec outputs are linked. -/
theorem GoesOn.links
    (h : b.GoesOn b₁)
    (hLinks : Links tail b₁ b₂)
    (hNew : ∀ e ∈ tail, b.graph.nextId ≤ e.node) :
    b.GoesOn b₂ := by
  have hNext : b₂.graph.nextId = b₁.graph.nextId :=
    hLinks.same.nextId
  refine ⟨hNext ▸ h.nextId_le, ?_, ?_⟩
  · intro e he
    rw [hLinks.same.frame] at he
    rw [hNext]
    exact h.tail e he
  · intro e hLt hNot
    have hApart : e ∉ tail := by
      intro he
      have hLe := hNew e he
      omega
    rw [hLinks.apart e hApart, h.apart hLt hNot]

theorem goesOn_returnGuard :
    Script.returnGuard.Leaves GoesOn := by
  rw [leaves_iff]
  intro b
  unfold Script.returnGuard
  rw [meets_bind]
  refine (leaves_iff.mp steady_goesOn.returnGate b).mono ?_
    fun _ _ h => h
  intro gate b₁ hGate
  rw [meets_bind]
  refine (meets_place_goesOn _ b₁).mono ?_
    fun _ _ h => hGate.trans h
  rintro id b₂ ⟨hPlaced, rfl, hNext⟩
  simp only [meets_bind, meets_onFrame, meets_pure]
  apply (hGate.trans hPlaced).withTail
  intro e he
  cases List.mem_singleton.mp he
  refine Or.inr ⟨hGate.nextId_le, ?_⟩
  rw [hNext]
  exact Nat.lt_succ_self _

end FlowGraph.Builder

------------------------------------------------------------
-- Runs That Are Tame
------------------------------------------------------------

namespace FlowGraph.Script

/- No refusal was written of since. -/
def Session.Clean
    (s s' : Session) :
    Prop :=
  ∃ news, s'.journal = news ++ s.journal ∧
    ∀ d ∈ news, d.event.isFailure = false

namespace Session

variable {s s₁ s₂ : Session}

theorem clean_of_eq
    (h : s₁.journal = s.journal) :
    s.Clean s₁ :=
  ⟨[], h, by simp⟩

theorem Clean.trans
    (h₁ : s.Clean s₁)
    (h₂ : s₁.Clean s₂) :
    s.Clean s₂ := by
  rcases h₁ with ⟨news, hJournal, hNews⟩
  rcases h₂ with ⟨more, hJournal', hMore⟩
  refine ⟨more ++ news, ?_, ?_⟩
  · rw [hJournal', hJournal, List.append_assoc]
  · intro d hd
    rcases List.mem_append.mp hd with hd | hd
    · exact hMore d hd
    · exact hNews d hd

theorem clean_record
    {event : Event}
    (s : Session)
    (path : Path)
    (hEvent : event.isFailure = false) :
    s.Clean (s.record path event) := by
  refine ⟨[⟨path, s.builder, event⟩], rfl, ?_⟩
  intro d hd
  cases List.mem_singleton.mp hd
  exact hEvent

/-
  Within a construct that started at the first session the
  flow has come to the second one.
-/
structure Came
    (s₀ s : Session) :
    Prop where
  goesOn : s₀.builder.GoesOn s.builder
  clean : s₀.Clean s

/- The exec outputs are new since the first session. -/
def AreNew
    (s₀ s : Session)
    (tail : List Endpoint) :
    Prop :=
  ∀ e ∈ tail, s₀.graph.nextId ≤ e.node ∧
    e.node < s.graph.nextId

theorem AreNew.mono
    {tail : List Endpoint}
    (h : s.AreNew s₁ tail)
    (hLe : s₁.graph.nextId ≤ s₂.graph.nextId) :
    s.AreNew s₂ tail := by
  intro e he
  have hNew := h e he
  omega

theorem Came.refl
    (s : Session) :
    s.Came s :=
  ⟨.refl _, clean_of_eq rfl⟩

theorem Came.trans
    (h₁ : s.Came s₁)
    (h₂ : s₁.Came s₂) :
    s.Came s₂ :=
  ⟨h₁.goesOn.trans h₂.goesOn, h₁.clean.trans h₂.clean⟩

/- The cursor is set to new exec outputs. -/
theorem Came.withTail
    {tail : List Endpoint}
    (h : s.Came s₁)
    (hNew : s.AreNew s₁ tail) :
    s.Came (s₁.withTail tail) :=
  ⟨h.goesOn.withTail fun e he => Or.inr (hNew e he),
    h.clean⟩

end Session

variable {α β : Type}

/-
  From any session the flow goes on, refused or not, and a
  run that comes through writes of no refusal.
-/
def Tame
    (m : Run α) :
    Prop :=
  ∀ s : Session,
    m.Meets s (fun _ s' => s.Came s')
      (fun _ s' => s.builder.GoesOn s'.builder)

theorem Tame.bind
    {m : Run α}
    {f : α → Run β}
    (hm : Tame m)
    (hf : ∀ a, Tame (f a)) :
    Tame (m >>= f) := by
  intro s
  rw [Process.meets_bind]
  refine (hm s).mono ?_ fun _ _ h => h
  intro a s₁ hFirst
  exact (hf a s₁).mono
    (fun _ _ hSecond => hFirst.trans hSecond)
    fun _ _ hSecond => hFirst.goesOn.trans hSecond

theorem tame_pure
    (a : α) :
    Tame (pure a : Run α) :=
  fun s => .refl s

theorem tame_except
    (r : Except Error α) :
    Tame (liftM r : Run α) := by
  intro s
  rw [Process.meets_ofExcept]
  exact ⟨fun _ _ => .refl s, fun _ _ => .refl _⟩

theorem tame_resolved
    (f : Names → Except Error α) :
    Tame (resolved f) := by
  intro s
  rw [meets_resolved]
  exact ⟨fun _ _ => .refl s, fun _ _ => .refl _⟩

theorem tame_build
    {m : Build α}
    (hm : m.Leaves Builder.GoesOn) :
    Tame (liftM m : Run α) := by
  intro s
  rw [meets_build]
  exact (Process.leaves_iff.mp hm s.builder).mono
    (fun _ _ h => ⟨h, Session.clean_of_eq rfl⟩)
    fun _ _ h => h

theorem tame_keepLoop
    (bind : Binding)
    (node : Nat)
    (value : Value) :
    Tame (keepLoop bind node value) := by
  intro s
  rw [meets_keepLoop]
  exact ⟨.refl _, Session.clean_of_eq rfl⟩

theorem Tame.entered
    {body : Run Unit}
    (h : Tame body)
    (path : Path) :
    Tame (entered path body) := by
  intro s
  rw [meets_entered]
  exact (h _).mono
    (fun _ _ hRun =>
      ⟨hRun.goesOn,
        (Session.clean_record s path rfl).trans hRun.clean⟩)
    fun _ _ hRun => hRun

theorem Tame.journaled
    {m : Run Result}
    (h : Tame m)
    (path : Path)
    (bind : Binding) :
    Tame (journaled path bind m) := by
  intro s
  rw [meets_journaled]
  refine (h s).mono ?_ fun _ _ hRun => hRun
  intro r s' hRun
  exact ⟨hRun.goesOn,
    hRun.clean.trans (Session.clean_record _ path rfl)⟩

end FlowGraph.Script

------------------------------------------------------------
-- Constructs
------------------------------------------------------------

namespace FlowGraph.Script

open Session

variable {s₀ s : Session}

/- A body is run from a new exec output. -/
theorem Tame.inBranch
    {body : Run Unit}
    {node index : Nat}
    (hBody : Tame body)
    (hCame : s₀.Came s)
    (hNew : s₀.AreNew s [⟨node, index⟩]) :
    (inBranch node index body).Meets s
      (fun b s' => s₀.Came s' ∧
        s.graph.nextId ≤ s'.graph.nextId ∧
        s₀.AreNew s' b.tail)
      (fun _ s' => s₀.builder.GoesOn s'.builder) := by
  rw [meets_inBranch]
  have hStart := hCame.withTail hNew
  refine (hBody (s.withTail [⟨node, index⟩])).mono ?_ ?_
  · intro _ s' hRun
    have hAll := hStart.trans hRun
    have hLe : s.graph.nextId ≤ s'.graph.nextId :=
      hRun.goesOn.nextId_le
    refine ⟨⟨hCame.goesOn.restore hAll.goesOn hLe,
      hAll.clean⟩, hLe, ?_⟩
    intro e he
    rcases hRun.goesOn.tail e he with hListed | hLater
    · exact hNew.mono hLe e hListed
    · have hStartLe := hCame.goesOn.nextId_le
      exact ⟨Nat.le_trans hStartLe hLater.1, hLater.2⟩
  · intro _ s' hRun
    exact hCame.goesOn.restore (hStart.goesOn.trans hRun)
      hRun.nextId_le

/- The node of a construct is placed. -/
theorem meets_placed_came
    (s : Session)
    (kind : Builtin)
    (args : List Value)
    (dynamic : Option ValueType) :
    (liftM (Builder.placeBuiltin kind args dynamic)
      : Run Nat).Meets s
      (fun id s' => s.Came s' ∧ ∀ index,
        s.AreNew s' [⟨id, index⟩])
      (fun _ s' => s.builder.GoesOn s'.builder) := by
  rw [meets_build]
  refine (Builder.meets_place_goesOn _ s.builder).mono ?_
    fun _ _ h => h
  rintro id b ⟨hGoesOn, rfl, hNext⟩
  refine ⟨⟨hGoesOn, clean_of_eq rfl⟩, ?_⟩
  intro index e he
  cases List.mem_singleton.mp he
  refine ⟨Nat.le_refl _, ?_⟩
  exact Nat.lt_of_lt_of_eq (Nat.lt_succ_self _) hNext.symm

theorem tame_conditional
    {onTrue onFalse : Run Unit}
    (hTrue : Tame onTrue)
    (hFalse : Tame onFalse)
    (c : Value) :
    Tame (conditional c onTrue onFalse) := by
  refine (tame_except _).bind fun _ => ?_
  intro s
  rw [Process.meets_bind]
  refine (meets_placed_came s _ _ _).mono ?_ fun _ _ h => h
  rintro node s₁ ⟨hPlaced, hNode⟩
  rw [Process.meets_bind]
  refine (hTrue.inBranch hPlaced (hNode 0)).mono ?_
    fun _ _ h => h
  rintro t s₂ ⟨hFirst, hLe, hTail⟩
  rw [Process.meets_bind]
  refine (hFalse.inBranch hFirst ((hNode 1).mono hLe)).mono
    ?_ fun _ _ h => h
  rintro f s₃ ⟨hSecond, hLe', hTail'⟩
  simp only [Process.meets_bind, meets_build,
    Builder.meets_onFrame, Process.meets_pure]
  apply hSecond.withTail
  intro e he
  rcases (mem_joinTails (e := e)).mp he with ⟨tail, hIn, he⟩
  simp only [List.mem_cons, List.not_mem_nil, or_false] at hIn
  rcases hIn with rfl | rfl
  · exact hTail.mono hLe' e he
  · exact hTail' e he

/- What the branches of a switch left open is new. -/
def Session.NewTails
    (s₀ s : Session)
    (branches : List (Option Branch)) :
    Prop :=
  ∀ b, some b ∈ branches → s₀.AreNew s b.tail

theorem tame_runArms
    {arms : List (Arm (Run Unit))}
    (hArms :
      ∀ arm ∈ arms, ∀ body, arm.body? = some body →
        Tame body)
    {node : Nat}
    (index : Nat)
    (hCame : s₀.Came s)
    (hNode : ∀ j, s₀.AreNew s [⟨node, j⟩]) :
    (runArms node index arms).Meets s
      (fun branches s' => s₀.Came s' ∧
        s.graph.nextId ≤ s'.graph.nextId ∧
        s₀.NewTails s' branches)
      (fun _ s' => s₀.builder.GoesOn s'.builder) := by
  induction arms generalizing s index with
  | nil =>
      refine ⟨hCame, Nat.le_refl _, ?_⟩
      intro b hb
      cases hb
  | cons arm rest ih =>
      have hArm :
          (runArm node index arm).Meets s
            (fun own s' => s₀.Came s' ∧
              s.graph.nextId ≤ s'.graph.nextId ∧
              ∀ b, own = some b → s₀.AreNew s' b.tail)
            (fun _ s' => s₀.builder.GoesOn s'.builder) := by
        cases arm with
        | body body =>
            have hBody := hArms _ List.mem_cons_self body rfl
            unfold runArm
            rw [Process.meets_bind]
            refine (hBody.inBranch hCame (hNode index)).mono
              ?_ fun _ _ h => h
            rintro b s' ⟨hRun, hLe, hTail⟩
            refine ⟨hRun, hLe, ?_⟩
            intro b' hb'
            cases hb'
            exact hTail
        | empty =>
            refine ⟨hCame, Nat.le_refl _, ?_⟩
            intro b hb
            cases hb
            exact hNode index
        | «alias» k =>
            refine ⟨hCame, Nat.le_refl _, ?_⟩
            intro b hb
            cases hb
      unfold runArms
      rw [Process.meets_bind]
      refine hArm.mono ?_ fun _ _ h => h
      rintro own s₁ ⟨hFirst, hLe, hOwn⟩
      rw [Process.meets_bind]
      refine (ih (fun a ha => hArms a
        (List.mem_cons_of_mem _ ha)) (index + 1) hFirst
          fun j => (hNode j).mono hLe).mono ?_ fun _ _ h => h
      rintro branches s₂ ⟨hSecond, hLe', hTails⟩
      refine ⟨hSecond, Nat.le_trans hLe hLe', ?_⟩
      intro b hb
      rcases List.mem_cons.mp hb with hEq | hb
      · exact (hOwn b hEq.symm).mono hLe'
      · exact hTails b hb

/- An alias is wired from a new exec output. -/
theorem meets_wireAlias_came
    {node index target : Nat}
    {shared : Branch}
    {join : List Endpoint}
    (hCame : s₀.Came s)
    (hNode : ∀ j, s₀.AreNew s [⟨node, j⟩])
    (hShared : s₀.AreNew s shared.tail)
    (hJoin : s₀.AreNew s join) :
    (wireAlias node index target shared join).Meets s
      (fun join' s' => s₀.Came s' ∧
        s'.graph.nextId = s.graph.nextId ∧
        s₀.AreNew s' join')
      (fun _ s' => s₀.builder.GoesOn s'.builder) := by
  unfold wireAlias
  split
  · rename_i head _
    have hStep :
        ∀ b, Builder.Links [⟨node, index⟩] s.builder b →
          s₀.builder.GoesOn b :=
      fun b hLinks => hCame.goesOn.links hLinks fun e he =>
        (hNode index e he).1
    rw [Process.meets_bind, meets_build]
    refine (Process.leaves_iff.mp
      (Builder.leaves_connect_links ⟨node, index⟩ head)
        s.builder).mono ?_ fun _ b hLinks => hStep b hLinks
    intro _ b hLinks
    have hNext : b.graph.nextId = s.graph.nextId :=
      hLinks.same.nextId
    refine ⟨⟨hStep b hLinks, hCame.clean⟩, hNext, ?_⟩
    exact hJoin.mono (Nat.le_of_eq hNext.symm)
  · refine ⟨hCame, rfl, ?_⟩
    intro e he
    rcases mem_joinWith.mp he with he | he
    · exact hJoin e he
    · rcases List.mem_map.mp he with ⟨d, hd, rfl⟩
      split
      · exact hNode index _ (List.mem_singleton_self _)
      · exact hShared d hd

theorem tame_wireAliases
    {node : Nat}
    {branches : List (Option Branch)}
    (resolved : List (Option Branch × Nat))
    (index : Nat)
    {join : List Endpoint}
    (hCame : s₀.Came s)
    (hNode : ∀ j, s₀.AreNew s [⟨node, j⟩])
    (hTails : s₀.NewTails s branches)
    (hJoin : s₀.AreNew s join) :
    (wireAliases node branches index resolved join).Meets s
      (fun join' s' => s₀.Came s' ∧ s₀.AreNew s' join')
      (fun _ s' => s₀.builder.GoesOn s'.builder) := by
  induction resolved generalizing s index join with
  | nil => exact ⟨hCame, hJoin⟩
  | cons p rest ih =>
      rcases p with ⟨own, target⟩
      cases own with
      | some b => exact ih (index + 1) hCame hNode hTails hJoin
      | none =>
          unfold wireAliases
          split
          · rename_i shared hShared
            have hNew :=
              hTails shared (List.mem_of_getElem? hShared)
            rw [Process.meets_bind]
            refine (meets_wireAlias_came hCame hNode hNew
              hJoin).mono ?_ fun _ _ h => h
            rintro join' s' ⟨hWired, hNext, hJoin'⟩
            have hLe := Nat.le_of_eq hNext.symm
            exact ih (index + 1) hWired
              (fun j => (hNode j).mono hLe)
              (fun b hb => (hTails b hb).mono hLe) hJoin'
          · exact ih (index + 1) hCame hNode hTails hJoin

theorem tame_dispatch
    {sw : Switch (Run Unit)}
    (hArms :
      ∀ arm ∈ sw.arms, ∀ body, arm.body? = some body →
        Tame body)
    (control : Value) :
    Tame (dispatch control sw) := by
  refine (tame_except _).bind fun targets => ?_
  intro s
  rw [Process.meets_bind]
  refine (meets_placed_came s _ _ _).mono ?_ fun _ _ h => h
  rintro node s₁ ⟨hPlaced, hNode⟩
  rw [Process.meets_bind]
  refine (tame_runArms hArms 0 hPlaced hNode).mono ?_
    fun _ _ h => h
  rintro branches s₂ ⟨hRun, hLe, hTails⟩
  have hJoin :
      s.AreNew s₂ (joinTails
        (branches.filterMap id |>.map Branch.tail)) := by
    intro e he
    rcases mem_joinTails.mp he with ⟨tail, hIn, he⟩
    rcases List.mem_map.mp hIn with ⟨b, hb, rfl⟩
    rcases List.mem_filterMap.mp hb with ⟨own, hOwn, hEq⟩
    exact hTails b (hEq ▸ hOwn) e he
  rw [Process.meets_bind]
  refine (tame_wireAliases _ 0 hRun
    (fun j => (hNode j).mono hLe) hTails hJoin).mono ?_
      fun _ _ h => h
  rintro join s₃ ⟨hWired, hNew⟩
  simp only [Process.meets_bind, meets_build,
    Builder.meets_onFrame, Process.meets_pure]
  exact hWired.withTail hNew

/- A loop goes round from its new node. -/
theorem meets_loopBody_came
    {body : Run Unit}
    {node : Nat}
    (hBody : Tame body)
    (hCame : s₀.Came s)
    (hNode : ∀ j, s₀.AreNew s [⟨node, j⟩]) :
    (loopBody node body).Meets s
      (fun _ s' => s₀.Came s')
      (fun _ s' => s₀.builder.GoesOn s'.builder) := by
  unfold loopBody
  rw [Process.meets_bind, meets_inLoop]
  have hInside :
      s₀.Came (s.onFrame fun f => f.pushLoop node) :=
    ⟨⟨hCame.goesOn.nextId_le, hCame.goesOn.tail,
      hCame.goesOn.apart⟩, hCame.clean⟩
  refine (hBody.inBranch hInside (hNode 0)).mono ?_ ?_
  · rintro b s₁ ⟨hRun, hLe, -⟩
    have hDone : s₀.Came (s₁.afterRounds node) := by
      have hOut :
          s₀.Came (s₁.onFrame fun f => f.popLoop.2) :=
        ⟨⟨hRun.goesOn.nextId_le, hRun.goesOn.tail,
          hRun.goesOn.apart⟩, hRun.clean⟩
      exact hOut.withTail ((hNode 1).mono hLe)
    rw [Process.meets_bind, meets_build,
      Builder.meets_onFrame]
    split
    · rw [Process.meets_bind, meets_build]
      refine (Process.leaves_iff.mp
        Builder.goesOn_returnGuard
          (s₁.afterRounds node).builder).mono ?_ ?_
      · intro _ b' hGuard
        exact ⟨hDone.goesOn.trans hGuard, hDone.clean⟩
      · intro _ b' hGuard
        exact hDone.goesOn.trans hGuard
    · exact hDone
  · intro _ s₁ hRun
    exact ⟨hRun.nextId_le, hRun.tail, hRun.apart⟩

/- Looking at an output changes nothing. -/
theorem tame_pinValue
    (id : Nat)
    (slot : String)
    (index : Nat) :
    (liftM (Builder.pinValue id slot index)
      : Run Value).Leaves fun s s' => s' = s :=
  fun _ => rfl

/- A loop: its node, the value of its rounds and its body. -/
theorem meets_loopNode_came
    {body : Nat → Value → Run Unit}
    (hBody : ∀ node value, Tame (body node value))
    (kind : Builtin)
    (args : List Value)
    (dynamic : Option ValueType)
    (slot : String)
    (s : Session) :
    (do
      let node ←
        (liftM (Builder.placeBuiltin kind args dynamic)
          : Run Nat)
      let value ←
        (liftM (Builder.pinValue node slot 0) : Run Value)
      loopBody node (body node value)
      return node : Run Nat).Meets s
      (fun _ s' => s.Came s')
      (fun _ s' => s.builder.GoesOn s'.builder) := by
  rw [Process.meets_bind]
  refine (meets_placed_came s _ _ _).mono ?_ fun _ _ h => h
  rintro node s₁ ⟨hPlaced, hNode⟩
  rw [Process.meets_bind]
  refine (Process.leaves_iff.mp
    (tame_pinValue node slot 0) s₁).mono ?_ ?_
  · rintro value _ rfl
    rw [Process.meets_bind]
    exact meets_loopBody_came (hBody node value) hPlaced
      hNode
  · rintro _ _ rfl
    exact hPlaced.goesOn

theorem tame_countingLoop
    {body : Nat → Value → Run Unit}
    (hBody : ∀ node value, Tame (body node value))
    (start stop : Input) :
    Tame (countingLoop start stop body) :=
  (tame_except _).bind fun _ => (tame_except _).bind fun _ =>
    meets_loopNode_came hBody _ _ _ _

theorem tame_itemLoop
    {body : Nat → Value → Run Unit}
    (hBody : ∀ node value, Tame (body node value))
    (list : Value) :
    Tame (itemLoop list body) :=
  (tame_except _).bind fun _ =>
    meets_loopNode_came hBody _ _ _ _

theorem came_opened
    (s : Session)
    (event : String) :
    s.Came (s.opened event) := by
  refine ⟨⟨Nat.le_succ _, ?_, fun _ _ => rfl⟩,
    clean_of_eq rfl⟩
  intro e he
  cases List.mem_singleton.mp he
  exact Or.inr ⟨Nat.le_refl _, Nat.lt_succ_self _⟩

theorem tame_inFunction
    {body : Run Unit}
    (hBody : Tame body)
    (event : String) :
    Tame (inFunction event body) := by
  intro s
  rw [meets_inFunction]
  have hOpened := came_opened s event
  have hBack :
      ∀ s' : Session, s.builder.GoesOn s'.builder →
        s.builder.GoesOn
          (s'.onFrame fun _ => s.frame).builder :=
    fun s' h =>
      ⟨h.nextId_le, fun _ he => Or.inl he, h.apart⟩
  refine (hBody (s.opened event)).mono ?_ ?_
  · intro _ s' hRun
    have hAll := hOpened.trans hRun
    exact ⟨hBack s' hAll.goesOn, hAll.clean⟩
  · intro _ s' hRun
    exact hBack s' (hOpened.goesOn.trans hRun)

end FlowGraph.Script

------------------------------------------------------------
-- Statements
------------------------------------------------------------

namespace FlowGraph.Script

open Session

/- A structured action does not set the cursor. -/
theorem tame_action
    {a : Action}
    (h : a.structured = true) :
    Tame a.run := by
  have hCursor : a.setsCursor = false := by
    cases a with
    | beginFunction | setTail | linkFrom => cases h
    | _ => rfl
  intro s
  rw [Action.run, Process.meets_bind, meets_resolved]
  refine ⟨?_, fun _ _ => .refl _⟩
  intro step hPrepare
  have hMeans := Action.means_of_prepare hPrepare
  exact tame_build
    (Builder.steady_goesOn.action hMeans hCursor) s

/-
  A structured statement links only what the cursor lists
  and what is new, refused or not.
-/
theorem tame_runStmt :
    (∀ (st : Stmt) (path : Path),
      st.every Stmt.structured = true →
        Tame (runStmt path st)) ∧
      ∀ (block : List Stmt) (path : Path) (i : Nat),
        everyIn Stmt.structured block = true →
          Tame (runBlock path i block) := by
  apply Stmt.induction
  · intro st hBodies path hEvery
    rw [Stmt.every_iff] at hEvery
    rcases hEvery with ⟨hSelf, hInner⟩
    have hBody :
        ∀ b ∈ st.bodies, ∀ inner,
          Tame (entered inner (runBlock inner 0 b)) :=
      fun b hb inner =>
        (hBodies b hb inner 0 (hInner b hb)).entered inner
    cases st with
    | action bind a => exact (tame_action hSelf).journaled _ _
    | function bind event body =>
        have hRun := hBody body (by simp [Stmt.bodies])
        exact ((tame_inFunction (hRun _) event).bind
          fun _ => tame_pure _).journaled _ _
    | ifThen bind c thenBody =>
        have hThen := hBody thenBody (by simp [Stmt.bodies])
        exact ((tame_resolved _).bind fun v =>
          (tame_conditional (hThen _) (tame_pure ()) v).bind
            fun _ => tame_pure _).journaled _ _
    | ifElse bind c thenBody elseBody =>
        have hThen := hBody thenBody (by simp [Stmt.bodies])
        have hElse := hBody elseBody (by simp [Stmt.bodies])
        exact ((tame_resolved _).bind fun v =>
          (tame_conditional (hThen _) (hElse _) v).bind
            fun _ => tame_pure _).journaled _ _
    | switch bind control cases default =>
        have hArms :
            ∀ arm ∈ (preparedSwitch path cases default).arms,
              ∀ body, arm.body? = some body → Tame body := by
          intro arm hArm body hEq
          rcases List.mem_iff_getElem?.mp hArm with ⟨j, hj⟩
          rcases body_preparedSwitch bind control hj hEq with
            ⟨b, hb, rfl⟩
          exact hBody b (Stmt.mem_bodies hb) _
        exact ((tame_resolved _).bind fun v =>
          (tame_dispatch hArms v).bind
            fun _ => tame_pure _).journaled _ _
    | forRange bind start stop body =>
        have hRound := hBody body (by simp [Stmt.bodies])
        exact ((tame_resolved _).bind fun start =>
          (tame_resolved _).bind fun stop =>
            (tame_countingLoop (fun node value =>
              (tame_keepLoop bind node value).bind
                fun _ => hRound _) start stop).bind
              fun _ => tame_pure _).journaled _ _
    | forEach bind list body =>
        have hRound := hBody body (by simp [Stmt.bodies])
        exact ((tame_resolved _).bind fun list =>
          (tame_itemLoop (fun node value =>
            (tame_keepLoop bind node value).bind
              fun _ => hRound _) list).bind
            fun _ => tame_pure _).journaled _ _
    | branch | loop | attempt => cases hSelf
  · intro path i _
    exact tame_pure ()
  · intro st rest hStmt hRest path i hEvery
    rw [everyIn_cons] at hEvery
    exact (hStmt _ hEvery.1).bind fun _ =>
      hRest path (i + 1) hEvery.2

/- A structured script goes on from nodes that are there. -/
theorem goesOn_runFrom
    {script : List Stmt}
    (hScript : structured script = true)
    (i : Nat)
    (s : Session) :
    s.builder.GoesOn (runFrom i script s).builder := by
  induction script generalizing i s with
  | nil => exact .refl _
  | cons st rest ih =>
      obtain ⟨hStmt, hRest⟩ : _ ∧ structured rest = true := by
        simpa [structured] using hScript
      have hStep :
          (runStmt [.statement i] st).Meets s
            (fun _ s' => s.builder.GoesOn s'.builder)
            (fun _ s' => s.builder.GoesOn s'.builder) := by
        rcases hStmt with hBegins | hEvery
        · unfold Stmt.begins at hBegins
          split at hBegins
          · rw [meets_begin]
            exact (came_opened s _).goesOn
          · cases hBegins
        · exact (tame_runStmt.1 st _ hEvery s).mono
            (fun _ _ h => h.goesOn) fun _ _ h => h
      exact (Process.meets_state.mp hStep).trans
        (ih hRest (i + 1) _)

theorem rooted_run
    {script : List Stmt}
    (hScript : structured script = true)
    (name : String)
    (config : Config) :
    (run name config script).builder.Rooted := by
  apply (goesOn_runFrom hScript 0 (.new name config)).rooted
  intro e he
  cases he

end FlowGraph.Script
