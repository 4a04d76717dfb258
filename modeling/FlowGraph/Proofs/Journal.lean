import FlowGraph.Proofs.Control
import FlowGraph.Proofs.Structured

/-
  The journal only grows, and tells of each place once.

  Whatever a step of a script does, and whether or not it is
  refused, it adds entries in front of those that are there.
  A statement writes about its own place and about places
  below it, and no two entries are about the same place.

  Key definitions include:
    * `FlowGraph.Script.Session.Wrote`
    * `FlowGraph.Script.Writes`

  Key theorems include:
    * `FlowGraph.Script.writes_runStmt`
    * `FlowGraph.Script.wrote_runFrom`
    * `FlowGraph.Script.runFrom_preserves`
-/

------------------------------------------------------------
-- What Was Written
------------------------------------------------------------

namespace FlowGraph.Script

variable {P Q : Path → Prop}

/-
  What was written since is about places of `P`, and about
  each of them at most once.
-/
def Session.Wrote
    (P : Path → Prop)
    (s s' : Session) :
    Prop :=
  ∃ news, s'.journal = news ++ s.journal ∧
    (news.map Entry.path).Nodup ∧ ∀ e ∈ news, P e.path

namespace Session

variable {s s₁ s' : Session}

theorem wrote_of_eq
    (h : s'.journal = s.journal) :
    s.Wrote P s' :=
  ⟨[], h, List.nodup_nil, by simp⟩

theorem wrote_record
    (path : Path)
    (event : Event) :
    s.Wrote (· = path) (s.record path event) := by
  refine ⟨[⟨path, s.builder, event⟩], rfl, by simp, ?_⟩
  intro e he
  rw [List.mem_singleton.mp he]

theorem Wrote.mono
    (h : s.Wrote P s')
    (hPath : ∀ p, P p → Q p) :
    s.Wrote Q s' := by
  obtain ⟨news, hJournal, hNodup, hNews⟩ := h
  exact ⟨news, hJournal, hNodup,
    fun e he => hPath _ (hNews e he)⟩

/- Entries about other places may follow. -/
theorem Wrote.trans
    (h : s.Wrote P s₁)
    (h' : s₁.Wrote Q s')
    (hApart : ∀ p, P p → ¬ Q p) :
    s.Wrote (fun p => P p ∨ Q p) s' := by
  obtain ⟨news, hJournal, hNodup, hNews⟩ := h
  obtain ⟨more, hJournal', hNodup', hMore⟩ := h'
  refine ⟨more ++ news, ?_, ?_, ?_⟩
  · rw [hJournal', hJournal, List.append_assoc]
  · rw [List.map_append, List.nodup_append]
    refine ⟨hNodup', hNodup, ?_⟩
    intro p hp q hq hEq
    obtain ⟨d, hd, rfl⟩ := List.mem_map.mp hp
    obtain ⟨e, he, rfl⟩ := List.mem_map.mp hq
    exact hApart _ (hNews e he) (hEq ▸ hMore d hd)
  · intro e he
    rcases List.mem_append.mp he with he | he
    · exact Or.inr (hMore e he)
    · exact Or.inl (hNews e he)

theorem Wrote.suffix
    (h : s.Wrote P s') :
    s.journal <:+ s'.journal := by
  obtain ⟨news, hJournal, -, -⟩ := h
  exact ⟨news, hJournal.symm⟩

end Session

end FlowGraph.Script

------------------------------------------------------------
-- Steps That Write
------------------------------------------------------------

namespace FlowGraph.Script

variable {α β : Type}
variable {P Q : Path → Prop}

/- The step writes about places of `P`, refused or not. -/
def Writes
    (P : Path → Prop)
    (m : Run α) :
    Prop :=
  ∀ s : Session,
    m.Meets s (fun _ s' => s.Wrote P s')
      (fun _ s' => s.Wrote P s')

/- The step writes nothing. -/
def Quiet
    (m : Run α) :
    Prop :=
  Writes (fun _ => False) m

theorem Writes.mono
    {m : Run α}
    (hm : Writes P m)
    (hPath : ∀ p, P p → Q p) :
    Writes Q m :=
  fun s => (hm s).mono (fun _ _ h => h.mono hPath)
    (fun _ _ h => h.mono hPath)

/- Steps that write about different places. -/
theorem Writes.bind
    {m : Run α}
    {f : α → Run β}
    (hm : Writes P m)
    (hf : ∀ a, Writes Q (f a))
    (hApart : ∀ p, P p → ¬ Q p) :
    Writes (fun p => P p ∨ Q p) (m >>= f) := by
  intro s
  rw [Process.meets_bind]
  refine (hm s).mono ?_ fun _ _ h => h.mono fun _ => Or.inl
  intro a s' hFirst
  exact (hf a s').mono
    (fun _ _ hSecond => hFirst.trans hSecond hApart)
    (fun _ _ hSecond => hFirst.trans hSecond hApart)

theorem Quiet.andThen
    {m : Run α}
    {f : α → Run β}
    (hm : Quiet m)
    (hf : ∀ a, Writes P (f a)) :
    Writes P (m >>= f) :=
  (Writes.bind hm hf fun _ h => h.elim).mono
    fun _ h => h.resolve_left id

theorem Writes.andThen
    {m : Run α}
    {f : α → Run β}
    (hm : Writes P m)
    (hf : ∀ a, Quiet (f a)) :
    Writes P (m >>= f) :=
  (Writes.bind hm hf fun _ _ h => h).mono
    fun _ h => h.resolve_right id

theorem quiet_pure
    (a : α) :
    Quiet (pure a : Run α) := by
  intro s
  rw [Process.meets_pure]
  exact Session.wrote_of_eq rfl

theorem quiet_except
    (r : Except Error α) :
    Quiet (liftM r : Run α) := by
  intro s
  rw [Process.meets_ofExcept]
  exact ⟨fun _ _ => Session.wrote_of_eq rfl,
    fun _ _ => Session.wrote_of_eq rfl⟩

/- A step on the builder leaves the journal alone. -/
theorem quiet_build
    (m : Build α) :
    Quiet (liftM m : Run α) := by
  intro s
  rw [meets_build]
  unfold Process.Meets
  split <;> exact Session.wrote_of_eq rfl

theorem quiet_resolved
    (f : Names → Except Error α) :
    Quiet (resolved f) := by
  intro s
  rw [meets_resolved]
  exact ⟨fun _ _ => Session.wrote_of_eq rfl,
    fun _ _ => Session.wrote_of_eq rfl⟩

theorem quiet_keepLoop
    (bind : Binding)
    (node : Nat)
    (value : Value) :
    Quiet (keepLoop bind node value) := by
  intro s
  rw [meets_keepLoop]
  exact Session.wrote_of_eq rfl

theorem Writes.inBranch
    {body : Run Unit}
    (h : Writes P body)
    (node index : Nat) :
    Writes P (inBranch node index body) := by
  intro s
  rw [meets_inBranch]
  exact h _

theorem Writes.inLoop
    {body : Run α}
    (h : Writes P body)
    (node : Nat) :
    Writes P (inLoop node body) := by
  intro s
  rw [meets_inLoop]
  exact h _

theorem Writes.inFunction
    {body : Run Unit}
    (h : Writes P body)
    (event : String) :
    Writes P (inFunction event body) := by
  intro s
  rw [meets_inFunction]
  exact h _

/- A statement is journaled after all within it. -/
theorem Writes.journaled
    {m : Run Result}
    {path : Path}
    (h : Writes P m)
    (hPath : ¬ P path)
    (bind : Binding) :
    Writes (fun p => P p ∨ p = path)
      (journaled path bind m) := by
  have hApart : ∀ p, P p → ¬ p = path := by
    intro p hp hEq
    exact hPath (hEq ▸ hp)
  intro s
  rw [meets_journaled]
  exact (h s).mono
    (fun _ _ hs =>
      hs.trans (Session.wrote_record path _) hApart)
    (fun _ _ hs =>
      hs.trans (Session.wrote_record path _) hApart)

/- A body is journaled before all within it. -/
theorem Writes.entered
    {body : Run Unit}
    {path : Path}
    (h : Writes P body)
    (hPath : ¬ P path) :
    Writes (fun p => p = path ∨ P p)
      (entered path body) := by
  have hApart : ∀ p, p = path → ¬ P p := by
    intro p hEq hp
    exact hPath (hEq ▸ hp)
  intro s
  rw [meets_entered]
  exact (h _).mono
    (fun _ _ hs =>
      (Session.wrote_record path .entered).trans hs hApart)
    (fun _ _ hs =>
      (Session.wrote_record path .entered).trans hs hApart)

end FlowGraph.Script

------------------------------------------------------------
-- Constructs
------------------------------------------------------------

namespace FlowGraph.Script

variable {P Q : Path → Prop}

theorem Writes.conditional
    {onTrue onFalse : Run Unit}
    (hTrue : Writes P onTrue)
    (hFalse : Writes Q onFalse)
    (hApart : ∀ p, P p → ¬ Q p)
    (c : Value) :
    Writes (fun p => P p ∨ Q p)
      (conditional c onTrue onFalse) :=
  (quiet_except _).andThen fun _ =>
    (quiet_build _).andThen fun node =>
      (hTrue.inBranch node 0).bind
        (fun _ => (hFalse.inBranch node 1).andThen fun _ =>
          (quiet_build _).andThen fun _ => quiet_pure node)
        hApart

/- The `j`-th body of a switch writes about its own places. -/
theorem writes_runArms
    {R : Nat → Path → Prop}
    (hApart : ∀ j k p, R j p → R k p → j = k)
    {arms : List (Arm (Run Unit))}
    {i : Nat}
    (h :
      ∀ j arm body, arms[j]? = some arm →
        arm.body? = some body → Writes (R (i + j)) body)
    (node : Nat) :
    Writes (fun p => ∃ j, i ≤ j ∧ R j p)
      (runArms node i arms) := by
  induction arms generalizing i with
  | nil => exact (quiet_pure _).mono fun _ h => h.elim
  | cons arm rest ih =>
      have hArm : Writes (R i) (runArm node i arm) := by
        cases arm with
        | body body =>
            have hBody : Writes (R i) body := h 0 _ body rfl rfl
            exact (hBody.inBranch node i).andThen fun _ =>
              quiet_pure _
        | empty => exact (quiet_pure _).mono fun _ h => h.elim
        | «alias» k =>
            exact (quiet_pure _).mono fun _ h => h.elim
      have hRest :
          Writes (fun p => ∃ j, i + 1 ≤ j ∧ R j p)
            (runArms node (i + 1) rest) := by
        apply ih
        intro j arm body hArm hBody
        have hLater := h (j + 1) arm body hArm hBody
        rwa [show i + (j + 1) = i + 1 + j by omega] at hLater
      have hBoth :=
        hArm.bind
          (fun b => hRest.andThen fun bs =>
            quiet_pure (b :: bs))
          (by
            rintro p hp ⟨j, hLe, hj⟩
            have := hApart i j p hp hj
            omega)
      refine Writes.mono hBoth ?_
      rintro p (hp | ⟨j, hLe, hj⟩)
      · exact ⟨i, Nat.le_refl i, hp⟩
      · exact ⟨j, by omega, hj⟩

theorem quiet_wireAliases
    (node : Nat)
    (branches : List (Option Branch))
    (resolved : List (Option Branch × Nat))
    (i : Nat)
    (join : List Endpoint) :
    Quiet (wireAliases node branches i resolved join) := by
  induction resolved generalizing i join with
  | nil => exact quiet_pure _
  | cons p rest ih =>
      obtain ⟨own, target⟩ := p
      cases own with
      | some b => exact ih (i + 1) join
      | none =>
          unfold wireAliases
          split
          · rename_i shared _
            refine Quiet.andThen ?_ fun join' =>
              ih (i + 1) join'
            unfold wireAlias
            split
            · exact (quiet_build _).andThen fun _ =>
                quiet_pure _
            · exact quiet_pure _
          · exact ih (i + 1) join

theorem writes_dispatch
    {R : Nat → Path → Prop}
    (sw : Switch (Run Unit))
    (hApart : ∀ j k p, R j p → R k p → j = k)
    (h :
      ∀ j arm body, sw.arms[j]? = some arm →
        arm.body? = some body → Writes (R j) body)
    (control : Value) :
    Writes (fun p => ∃ j, R j p) (dispatch control sw) := by
  have hArms :
      ∀ node, Writes (fun p => ∃ j, R j p)
        (runArms node 0 sw.arms) := by
    intro node
    refine (writes_runArms hApart ?_ node).mono ?_
    · intro j arm body hArm hBody
      rw [Nat.zero_add]
      exact h j arm body hArm hBody
    · rintro p ⟨j, -, hj⟩
      exact ⟨j, hj⟩
  exact (quiet_except _).andThen fun _ =>
    (quiet_build _).andThen fun node =>
      (hArms node).andThen fun _ =>
        (quiet_wireAliases node _ _ _ _).andThen fun _ =>
          (quiet_build _).andThen fun _ => quiet_pure node

theorem Writes.loopBody
    {body : Run Unit}
    (h : Writes P body)
    (node : Nat) :
    Writes P (loopBody node body) := by
  refine ((h.inBranch node 0).inLoop node).andThen ?_
  intro branch
  refine (quiet_build _).andThen ?_
  intro _
  split
  · exact (quiet_build _).andThen fun _ => quiet_pure _
  · exact quiet_pure _

theorem writes_countingLoop
    {body : Nat → Value → Run Unit}
    (h : ∀ node value, Writes P (body node value))
    (start stop : Input) :
    Writes P (countingLoop start stop body) :=
  (quiet_except _).andThen fun _ =>
    (quiet_except _).andThen fun _ =>
      (quiet_build _).andThen fun node =>
        (quiet_build _).andThen fun value =>
          ((h node value).loopBody node).andThen fun _ =>
            quiet_pure node

theorem writes_itemLoop
    {body : Nat → Value → Run Unit}
    (h : ∀ node value, Writes P (body node value))
    (list : Value) :
    Writes P (itemLoop list body) :=
  (quiet_except _).andThen fun _ =>
    (quiet_build _).andThen fun node =>
      (quiet_build _).andThen fun value =>
        ((h node value).loopBody node).andThen fun _ =>
          quiet_pure node

end FlowGraph.Script

------------------------------------------------------------
-- Bodies Of A Switch
------------------------------------------------------------

namespace FlowGraph.Script

variable {path : Path}
variable {cases : List (Label × Arm (List Stmt))}
variable {default : Arm (List Stmt)}

/- The switch of a statement, its bodies ready to run. -/
def preparedSwitch
    (path : Path)
    (cases : List (Label × Arm (List Stmt)))
    (default : Arm (List Stmt)) :
    Switch (Run Unit) :=
  ⟨prepareCases path 0 cases,
    prepareArm (path ++ [.default]) default⟩

/- The segment that leads to the body at an exec output. -/
def armSegment : Nat → Segment
  | 0 => .default
  | j + 1 => .case j

theorem armSegment_inj
    {j k : Nat}
    (h : armSegment j = armSegment k) :
    j = k := by
  cases j <;> cases k <;> simp_all [armSegment]

/-
  The switch with each of its arms changed, depending on the
  segment that leads to the arm.
-/
def mapArms
    {β γ : Type}
    (F : Segment → Arm β → Arm γ)
    (sw : Switch β) :
    Switch γ :=
  ⟨sw.cases.mapIdx fun j c => (c.1, F (.case j) c.2),
    F .default sw.default⟩

/- The arms are changed one by one. -/
theorem arms_mapArms
    {β γ : Type}
    (F : Segment → Arm β → Arm γ)
    (sw : Switch β)
    (j : Nat) :
    (mapArms F sw).arms[j]? =
      sw.arms[j]?.map (F (armSegment j)) := by
  cases j with
  | zero => rfl
  | succ j =>
      simp only [Switch.arms, mapArms,
        List.getElem?_cons_succ, List.getElem?_map,
        List.getElem?_mapIdx, Option.map_map]
      rfl

theorem prepareCases_eq
    (i : Nat) :
    prepareCases path i cases =
      cases.mapIdx fun j c =>
        (c.1, prepareArm (path ++ [.case (i + j)]) c.2) := by
  induction cases generalizing i with
  | nil => rfl
  | cons c rest ih =>
      obtain ⟨l, arm⟩ := c
      rw [prepareCases, ih, List.mapIdx_cons]
      simp only [Nat.add_right_comm i 1, Nat.add_assoc]
      rfl

/- The arms of a switch are made ready one by one. -/
theorem preparedSwitch_eq :
    preparedSwitch path cases default =
      mapArms
        (fun segment => prepareArm (path ++ [segment]))
        (Switch.mk cases default) := by
  simp only [preparedSwitch, prepareCases_eq, Nat.zero_add]
  rfl

theorem body?_prepareArm
    {arm : Arm (List Stmt)}
    {body : Run Unit}
    (h : (prepareArm path arm).body? = some body) :
    ∃ b, arm.body? = some b ∧
      body = entered path (runBlock path 0 b) := by
  cases arm with
  | body b =>
      cases h
      exact ⟨b, rfl, rfl⟩
  | empty => cases h
  | «alias» k => cases h

/- The bodies of a switch are bodies of the statement. -/
theorem body?_of_arms
    (bind : Binding)
    (control : Operand)
    {j : Nat}
    {arm : Arm (List Stmt)}
    (h : (Switch.mk cases default).arms[j]? = some arm) :
    (Stmt.switch bind control cases default).body?
        (armSegment j) = arm.body? := by
  cases j with
  | zero =>
      cases h
      rfl
  | succ j =>
      rw [Switch.arms, List.getElem?_cons_succ,
        List.getElem?_map] at h
      rcases Option.map_eq_some_iff.mp h with ⟨c, hc, hEq⟩
      simp only [armSegment, Stmt.body?, hc, Option.bind_some,
        hEq]

/- What is run in a branch is a body of the statement. -/
theorem body_preparedSwitch
    (bind : Binding)
    (control : Operand)
    {j : Nat}
    {arm : Arm (Run Unit)}
    {body : Run Unit}
    (hArm :
      (preparedSwitch path cases default).arms[j]? =
        some arm)
    (hBody : arm.body? = some body) :
    ∃ b,
      (Stmt.switch bind control cases default).body?
          (armSegment j) = some b ∧
        body = entered (path ++ [armSegment j])
          (runBlock (path ++ [armSegment j]) 0 b) := by
  rw [preparedSwitch_eq, arms_mapArms] at hArm
  rcases Option.map_eq_some_iff.mp hArm with
    ⟨arm', hArm', hPrepared⟩
  rw [← hPrepared] at hBody
  rcases body?_prepareArm hBody with ⟨b, hb, hEq⟩
  exact ⟨b, (body?_of_arms bind control hArm').trans hb, hEq⟩

end FlowGraph.Script

------------------------------------------------------------
-- Statements
------------------------------------------------------------

namespace FlowGraph.Script

theorem eq_of_common_start
    {path p : Path}
    {a b : Segment}
    (ha : path ++ [a] <+: p)
    (hb : path ++ [b] <+: p) :
    a = b := by
  obtain ⟨u, rfl⟩ := ha
  obtain ⟨v, hv⟩ := hb
  simp only [List.append_assoc, List.append_cancel_left_eq,
    List.cons_append, List.nil_append,
    List.cons.injEq] at hv
  exact hv.1.symm

theorem not_common_start
    {path : Path}
    {a : Segment} :
    ¬ path ++ [a] <+: path := by
  intro h
  have hLe := h.length_le
  rw [List.length_append] at hLe
  exact Nat.not_succ_le_self _ hLe

/-
  A statement writes about places that its own leads to, and
  a block about those of its statements.
-/
theorem writes_runStmt :
    (∀ (s : Stmt) (path : Path),
      Writes (path <+: ·) (runStmt path s)) ∧
      ∀ (b : List Stmt) (path : Path) (i : Nat),
        Writes
          (fun p => ∃ j, i ≤ j ∧
            path ++ [.statement j] <+: p)
          (runBlock path i b) := by
  apply Stmt.induction
  · intro s hBodies path
    have hBody :
        ∀ b ∈ s.bodies, ∀ segment,
          Writes (path ++ [segment] <+: ·)
            (entered (path ++ [segment])
              (runBlock (path ++ [segment]) 0 b)) := by
      intro b hb segment
      refine Writes.mono ((hBodies b hb (path ++ [segment])
        0).entered ?_) ?_
      · rintro ⟨j, -, hj⟩
        exact not_common_start hj
      · rintro p (rfl | ⟨j, -, hj⟩)
        · exact List.prefix_refl _
        · exact (List.prefix_append _ _).trans hj
    have hJournaled :
        ∀ {P : Path → Prop} {m : Run Result} {bind},
          (∀ p, P p → ∃ segment, path ++ [segment] <+: p) →
            Writes P m →
              Writes (path <+: ·)
                (journaled path bind m) := by
      intro P m bind hBelow h
      refine Writes.mono (h.journaled ?_ bind) ?_
      · intro hPath
        obtain ⟨segment, hPrefix⟩ := hBelow path hPath
        exact not_common_start hPrefix
      · rintro p (hp | rfl)
        · obtain ⟨segment, hPrefix⟩ := hBelow p hp
          exact (List.prefix_append _ _).trans hPrefix
        · exact List.prefix_refl _
    have hOne :
        ∀ segment p, path ++ [segment] <+: p →
          ∃ segment, path ++ [segment] <+: p :=
      fun segment _ h => ⟨segment, h⟩
    cases s with
    | action bind a =>
        refine hJournaled (fun _ => False.elim) ?_
        exact (quiet_resolved _).andThen quiet_build
    | function bind event body =>
        have hInner := hBody body (by simp [Stmt.bodies])
        refine hJournaled (hOne .function) ?_
        exact ((hInner .function).inFunction event).andThen
          fun _ => quiet_pure _
    | ifThen bind c thenBody =>
        have hThen := hBody thenBody (by simp [Stmt.bodies])
        refine hJournaled (fun p =>
          Or.rec (hOne .thenBody p) False.elim) ?_
        exact (quiet_resolved _).andThen fun v =>
          ((hThen .thenBody).conditional (quiet_pure ())
            (fun _ _ h => h) v).andThen fun _ => quiet_pure _
    | ifElse bind c thenBody elseBody =>
        have hThen := hBody thenBody (by simp [Stmt.bodies])
        have hElse := hBody elseBody (by simp [Stmt.bodies])
        refine hJournaled (fun p =>
          Or.rec (hOne .thenBody p) (hOne .elseBody p)) ?_
        refine (quiet_resolved _).andThen fun v =>
          ((hThen .thenBody).conditional (hElse .elseBody)
            ?_ v).andThen fun _ => quiet_pure _
        intro p hp hq
        cases eq_of_common_start hp hq
    | switch bind control cases default =>
        refine hJournaled
          (P := fun p => ∃ j, path ++ [armSegment j] <+: p)
          (fun p ⟨j, h⟩ => hOne (armSegment j) p h) ?_
        refine (quiet_resolved _).andThen fun v =>
          (writes_dispatch (preparedSwitch path cases default)
            ?_ ?_ v).andThen fun _ => quiet_pure _
        · intro j k p hj hk
          exact armSegment_inj (eq_of_common_start hj hk)
        · intro j arm body hArm hEq
          obtain ⟨b, hb, rfl⟩ :=
            body_preparedSwitch bind control hArm hEq
          exact hBody b (Stmt.mem_bodies hb) _
    | forRange bind start stop body =>
        have hInner := hBody body (by simp [Stmt.bodies])
        refine hJournaled (hOne .loopBody) ?_
        exact (quiet_resolved _).andThen fun start =>
          (quiet_resolved _).andThen fun stop =>
            (writes_countingLoop
              (fun node value =>
                (quiet_keepLoop bind node value).andThen
                  fun _ => hInner .loopBody) start
              stop).andThen fun _ => quiet_pure _
    | forEach bind list body =>
        have hInner := hBody body (by simp [Stmt.bodies])
        refine hJournaled (hOne .loopBody) ?_
        exact (quiet_resolved _).andThen fun list =>
          (writes_itemLoop
            (fun node value =>
              (quiet_keepLoop bind node value).andThen
                fun _ => hInner .loopBody) list).andThen
            fun _ => quiet_pure _
    | branch node index body =>
        have hInner := hBody body (by simp [Stmt.bodies])
        refine hJournaled (hOne .branch) ?_
        exact (quiet_resolved _).andThen fun id =>
          ((hInner .branch).inBranch id index).andThen
            fun _ => quiet_pure _
    | loop node body =>
        have hInner := hBody body (by simp [Stmt.bodies])
        refine hJournaled (hOne .loop) ?_
        exact (quiet_resolved _).andThen fun id =>
          ((hInner .loop).inLoop id).andThen fun _ =>
            quiet_pure _
    | attempt body =>
        have hInner := hBody body (by simp [Stmt.bodies])
        refine hJournaled (hOne .attempt) ?_
        intro s
        rw [Process.meets_bind, Process.meets_observe]
        exact hInner .attempt s
  · intro path i
    exact (quiet_pure ()).mono fun _ h => h.elim
  · intro s rest hs hRest path i
    refine Writes.mono ((hs _).bind
      (fun _ => hRest path (i + 1)) ?_) ?_
    · rintro p hp ⟨j, hLe, hj⟩
      cases eq_of_common_start hp hj
      exact Nat.not_succ_le_self _ hLe
    · rintro p (hp | ⟨j, hLe, hj⟩)
      · exact ⟨i, Nat.le_refl i, hp⟩
      · exact ⟨j, by omega, hj⟩

/- A script is run part by part. -/
theorem runFrom_append
    (block rest : List Stmt)
    (i : Nat)
    (s : Session) :
    runFrom i (block ++ rest) s =
      runFrom (i + block.length) rest (runFrom i block s) := by
  induction block generalizing i s with
  | nil => rfl
  | cons st others ih =>
      rw [List.cons_append, runFrom, runFrom, ih,
        List.length_cons]
      congr 1
      omega

/- What the statements of a script write from `i` on. -/
theorem wrote_runFrom
    (script : List Stmt)
    (i : Nat)
    (s : Session) :
    s.Wrote
      (fun p => ∃ j, i ≤ j ∧ [.statement j] <+: p)
      (runFrom i script s) := by
  induction script generalizing i s with
  | nil => exact Session.wrote_of_eq rfl
  | cons st rest ih =>
      have hStep := writes_runStmt.1 st [.statement i] s
      have hFirst :
          s.Wrote ([.statement i] <+: ·)
            (runStmt [.statement i] st s).2 := by
        unfold Process.Meets at hStep
        split at hStep
        · rename_i hRun
          rw [hRun]
          exact hStep
        · rename_i hRun
          rw [hRun]
          exact hStep
      refine Session.Wrote.mono
        (hFirst.trans (ih (i + 1) _) ?_) ?_
      · rintro p hp ⟨j, hLe, hj⟩
        have hi : [] ++ [Segment.statement i] <+: p := hp
        have hj' : [] ++ [Segment.statement j] <+: p := hj
        cases eq_of_common_start hi hj'
        exact Nat.not_succ_le_self _ hLe
      · rintro p (hp | ⟨j, hLe, hj⟩)
        · exact ⟨i, Nat.le_refl i, hp⟩
        · exact ⟨j, by omega, hj⟩

/- No two entries of a script are about the same place. -/
theorem nodup_journal
    (name : String)
    (config : Config)
    (script : List Stmt) :
    ((run name config script).journal.map
      Entry.path).Nodup := by
  obtain ⟨news, hJournal, hNodup, -⟩ :=
    wrote_runFrom script 0 (.new name config)
  rw [run, hJournal]
  simpa [Session.new] using hNodup

/- The entry about a place is found there. -/
theorem find?_path_of_mem
    {journal : List Entry}
    (hNodup : (journal.map Entry.path).Nodup)
    {e : Entry}
    (he : e ∈ journal) :
    journal.find? (fun d => d.path = e.path) = some e := by
  rcases List.append_of_mem he with ⟨news, olds, hSplit⟩
  rw [List.find?_eq_some_iff_append]
  refine ⟨by simp, news, olds, hSplit, ?_⟩
  intro d hd
  rw [hSplit, List.map_append] at hNodup
  have hNe :=
    (List.nodup_append.mp hNodup).2.2 d.path
      (List.mem_map_of_mem hd) e.path List.mem_cons_self
  simpa using hNe

/- There is one entry about a place. -/
theorem eq_of_path_eq
    {journal : List Entry}
    (hNodup : (journal.map Entry.path).Nodup)
    {d e : Entry}
    (hd : d ∈ journal)
    (he : e ∈ journal)
    (hPath : d.path = e.path) :
    d = e := by
  have hFound := find?_path_of_mem hNodup hd
  rw [hPath, find?_path_of_mem hNodup he] at hFound
  exact (Option.some.inj hFound).symm

/- The node that an entry tells of. -/
def Entry.node?
    (e : Entry) :
    Option Nat :=
  match e.event with
  | .finished (.node id) => some id
  | _ => none

/- The node that the statement at a place has yielded. -/
def Session.nodeAt
    (s : Session)
    (path : Path) :
    Option Nat :=
  (s.journal.find? fun e => e.path = path).bind Entry.node?

/- The entry about a place tells of its node. -/
theorem Session.nodeAt_of_mem
    {s : Session}
    (hNodup : (s.journal.map Entry.path).Nodup)
    {e : Entry}
    (he : e ∈ s.journal) :
    s.nodeAt e.path = e.node? := by
  rw [Session.nodeAt, find?_path_of_mem hNodup he]
  rfl

theorem Session.mem_of_nodeAt
    {s : Session}
    {path : Path}
    {id : Nat}
    (h : s.nodeAt path = some id) :
    ∃ e ∈ s.journal, e.path = path ∧ e.node? = some id := by
  rcases Option.bind_eq_some_iff.mp h with
    ⟨e, hFound, hNode⟩
  exact ⟨e, List.mem_of_find?_eq_some hFound,
    by simpa using List.find?_some hFound, hNode⟩

end FlowGraph.Script

------------------------------------------------------------
-- Refused Statements
------------------------------------------------------------

namespace FlowGraph.Script

/- Every statement is journaled. -/
theorem runStmt_eq_journaled
    (path : Path)
    (s : Stmt) :
    ∃ bind m, runStmt path s = journaled path bind m := by
  cases s <;> exact ⟨_, _, rfl⟩

/- A refused statement leaves an entry that says so. -/
theorem runStmt_of_error
    {path : Path}
    {st : Stmt}
    {s s' : Session}
    {e : Error}
    (h : runStmt path st s = (.error e, s')) :
    ∃ s₁ : Session, s' = s₁.record path (.failed e) := by
  obtain ⟨bind, m, hEq⟩ := runStmt_eq_journaled path st
  have hMeets :
      (journaled path bind m).Meets s (fun _ _ => True)
        (fun e s' => ∃ s₁ : Session,
          s' = s₁.record path (.failed e)) := by
    rw [meets_journaled]
    unfold Process.Meets
    split
    · trivial
    · exact ⟨_, rfl⟩
  rw [hEq] at h
  exact hMeets.of_error h

/- What a refused statement wrote stays in the journal. -/
theorem failed_mem_runFrom
    {i : Nat}
    {st : Stmt}
    {s s' : Session}
    {e : Error}
    (h : runStmt [.statement i] st s = (.error e, s'))
    (rest : List Stmt) :
    ∃ d ∈ (runFrom (i + 1) rest s').journal,
      d.event = .failed e := by
  rcases runStmt_of_error h with ⟨s₁, hRecord⟩
  have hSuffix := (wrote_runFrom rest (i + 1) s').suffix
  rw [hRecord] at hSuffix ⊢
  exact ⟨_, hSuffix.subset List.mem_cons_self, rfl⟩

/-
  What every statement of a script preserves holds after a
  script that was not refused.
-/
theorem runFrom_preserves
    {I : Session → Prop}
    {block : List Stmt}
    {i : Nat}
    {s : Session}
    (h : I s)
    (hStep :
      ∀ (j : Nat) (st : Stmt), block[j]? = some st →
        ∀ s, I s →
          (runStmt [.statement (i + j)] st).Meets s
            (fun _ s' => I s') (fun _ _ => True))
    (hOk :
      ∀ e ∈ (runFrom i block s).journal,
        e.event.isFailure = false) :
    I (runFrom i block s) := by
  induction block generalizing i s with
  | nil => exact h
  | cons st rest ih =>
      have hFirst := hStep 0 st rfl s h
      rw [Nat.add_zero] at hFirst
      have hRest :
          ∀ (j : Nat) (st : Stmt), rest[j]? = some st →
            ∀ s, I s →
              (runStmt [.statement (i + 1 + j)] st).Meets s
                (fun _ s' => I s') (fun _ _ => True) := by
        intro j st' hj
        rw [show i + 1 + j = i + (j + 1) by omega]
        exact hStep (j + 1) st' hj
      unfold runFrom at hOk ⊢
      rcases hRun : runStmt [.statement i] st s with
        ⟨err | _, s'⟩
      · rw [hRun] at hOk
        rcases failed_mem_runFrom hRun rest with
          ⟨d, hd, hFailed⟩
        have hNot := hOk d hd
        rw [hFailed] at hNot
        cases hNot
      · rw [hRun] at hOk
        exact ih (hFirst.of_ok hRun) hRest hOk

/- A function begins at the top. -/
theorem meets_begin
    {path : Path}
    {bind : Binding}
    {event : String}
    {s : Session}
    {Q : Unit → Session → Prop}
    {E : Error → Session → Prop} :
    (runStmt path
        (.action bind (.beginFunction event))).Meets s Q E ↔
      Q () ((s.opened event).finish path bind
        (.node s.graph.nextId)) := by
  rw [show runStmt path
      (.action bind (.beginFunction event)) =
        journaled path bind
          (Action.beginFunction event).run from rfl,
    meets_journaled]
  exact Iff.rfl

end FlowGraph.Script
