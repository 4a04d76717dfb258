import FlowGraph.Proofs.Sustained

/-
  Scoped state is restored on every way out.

  A statement, finished or refused, leaves the loops around
  as they were.  A branch gives the cursor back and a
  function the whole frame, whatever their bodies do.  As
  long as one function is built, its returns are only added
  to and its gate, once declared, stays the same.

  Key definitions include:
    * `FlowGraph.Frame.Continues`
    * `FlowGraph.Script.Session.Unwinds`
    * `FlowGraph.Script.beginsAtTop`

  Key theorems include:
    * `FlowGraph.Script.sustained_unwinds`
    * `FlowGraph.Script.inFunction_frame`
    * `FlowGraph.Script.scopes_restored`
-/

------------------------------------------------------------
-- Frames Of One Function
------------------------------------------------------------

namespace FlowGraph

/-
  The second frame is a later one of the same function: no
  return is forgotten, and a gate stays what it is.
-/
structure Frame.Continues
    (f f' : Frame) :
    Prop where
  returns : f.returns ≤ f'.returns
  gate : ∀ v, f.gate = some v → f'.gate = some v

namespace Frame.Continues

variable {f f₁ f₂ : Frame}

theorem refl
    (f : Frame) :
    f.Continues f :=
  ⟨Nat.le_refl _, fun _ hGate => hGate⟩

theorem trans
    (h₁ : f.Continues f₁)
    (h₂ : f₁.Continues f₂) :
    f.Continues f₂ :=
  ⟨Nat.le_trans h₁.returns h₂.returns,
    fun v hGate => h₂.gate v (h₁.gate v hGate)⟩

end Frame.Continues

/- A step that also leaves the loops around as they were. -/
structure Builder.Unwinds
    (b b' : Builder) :
    Prop where
  loops : b'.frame.loops = b.frame.loops
  continues : b.frame.Continues b'.frame

end FlowGraph

------------------------------------------------------------
-- Steps Of A Builder
------------------------------------------------------------

namespace FlowGraph.Builder

namespace Unwinds

variable {b b₁ b₂ : Builder}

theorem refl
    (b : Builder) :
    b.Unwinds b :=
  ⟨rfl, .refl _⟩

theorem trans
    (h₁ : b.Unwinds b₁)
    (h₂ : b₁.Unwinds b₂) :
    b.Unwinds b₂ :=
  ⟨h₂.loops.trans h₁.loops,
    h₁.continues.trans h₂.continues⟩

/- A step that leaves the frame alone. -/
theorem of_frame
    (h : b₁.frame = b.frame) :
    b.Unwinds b₁ := by
  constructor
  · rw [h]
  · rw [h]
    exact .refl _

theorem setTail
    (b : Builder)
    (tail : List Endpoint) :
    b.Unwinds { b with frame := b.frame.setTail tail } :=
  ⟨rfl, ⟨Nat.le_refl _, fun _ hGate => hGate⟩⟩

theorem sealPath
    (b : Builder)
    (returning : Bool) :
    b.Unwinds
      { b with frame := b.frame.sealPath returning } := by
  refine ⟨rfl, ⟨?_, fun _ hGate => hGate⟩⟩
  simp only [Frame.sealPath]
  split <;> omega

theorem gated
    (b : Builder) :
    b.Unwinds b.gated := by
  refine ⟨gated_loops, ⟨Nat.le_of_eq gated_returns.symm, ?_⟩⟩
  intro v hGate
  rw [gated_gate, gateOf, hGate]
  rfl

end Unwinds

open Process

variable {α β : Type}

theorem unwinds_bind
    {m : Build α}
    {f : α → Build β}
    (hm : m.Leaves Unwinds)
    (hf : ∀ a, (f a).Leaves Unwinds) :
    (m >>= f).Leaves Unwinds :=
  hm.bind Unwinds.trans hf

theorem unwinds_checked
    {r : Except Error α}
    {f : α → Build β}
    (hf : ∀ a, (f a).Leaves Unwinds) :
    ((liftM r : Build α) >>= f).Leaves Unwinds :=
  .checked .refl fun a _ => hf a

theorem unwinds_add
    (n : Node) :
    (add n).Leaves Unwinds :=
  fun _ => .of_frame rfl

theorem unwinds_connect
    (e : Endpoint)
    (t : Nat) :
    (connect e t).Leaves Unwinds := by
  intro b
  unfold connect
  split <;> exact .of_frame rfl

theorem unwinds_place
    (n : Node) :
    (place n).Leaves Unwinds := by
  refine unwinds_bind (fun b => .setTail b []) fun tail => ?_
  refine unwinds_bind (unwinds_add n) fun id => ?_
  refine unwinds_bind (Leaves.each (R := Unwinds) .refl
    .trans (fun e => unwinds_connect e id) tail) fun _ => ?_
  split
  · exact unwinds_bind (fun b => .setTail b [⟨id, 0⟩])
      fun _ => .refl
  · exact .refl

theorem unwinds_placeOfType
    (nodeType : String)
    (args : List Value) :
    (placeOfType nodeType args).Leaves Unwinds := by
  unfold placeOfType
  split
  · split <;> exact unwinds_place _
  · exact unwinds_place _

theorem unwinds_declareVariable
    (initial : Value) :
    (declareVariable initial).Leaves Unwinds := by
  rw [leaves_iff]
  intro b
  rw [meets_declareVariable]
  exact .of_frame rfl

theorem unwinds_setVariable
    (v : Variable)
    (input : Input) :
    (setVariable v input).Leaves Unwinds :=
  unwinds_checked fun _ => unwinds_place _

theorem unwinds_printString
    (input : Input) :
    (printString input).Leaves Unwinds :=
  unwinds_checked fun _ => unwinds_place _

theorem unwinds_binary
    (op : BinaryOp)
    (x y : Value) :
    (binary op x y).Leaves Unwinds := by
  rw [leaves_iff]
  intro b
  rw [meets_binary]
  refine ⟨?_, fun _ _ => .refl b⟩
  intro x' y' _
  split <;> exact .of_frame rfl

theorem unwinds_unary
    (op : UnaryOp)
    (x : Value) :
    (unary op x).Leaves Unwinds := by
  rw [leaves_iff]
  intro b
  rw [meets_unary]
  refine ⟨?_, fun _ _ => .refl b⟩
  intro _ _
  split <;> exact .of_frame rfl

theorem unwinds_assembleList
    (element : Scalar)
    (items : List Input) :
    (assembleList element items).Leaves Unwinds :=
  leaves_iff.mpr fun b => meets_assembleList
    (fun _ _ => .of_frame rfl) fun _ _ => .refl b

theorem unwinds_assembleDictionary
    (key value : ValueType)
    (pairs : List (Input × Input)) :
    (assembleDictionary key value pairs).Leaves Unwinds :=
  leaves_iff.mpr fun b => meets_assembleDictionary
    (fun _ _ => .of_frame rfl) fun _ _ => .refl b

theorem unwinds_breakLoop
    (loops : List Nat) :
    (breakLoop loops).Leaves Unwinds :=
  unwinds_bind .refl fun _ => unwinds_checked fun _ =>
    unwinds_bind (unwinds_place _) fun _ =>
      unwinds_bind (fun b => .sealPath b false) fun _ => .refl

theorem unwinds_returnGate :
    returnGate.Leaves Unwinds := by
  rw [leaves_iff]
  intro b
  rw [meets_returnGate]
  exact .gated b

theorem unwinds_returnNow :
    returnNow.Leaves Unwinds := by
  refine unwinds_bind unwinds_returnGate fun gate => ?_
  refine unwinds_bind (unwinds_setVariable gate _)
    fun _ => ?_
  refine unwinds_bind .refl fun f => ?_
  split
  · exact unwinds_bind (unwinds_breakLoop f.loops)
      fun _ => fun b => .sealPath b true
  · exact fun b => .sealPath b true

theorem unwinds_continueLoop :
    continueLoop.Leaves Unwinds := by
  rw [leaves_iff]
  intro b
  rw [meets_continueLoop]
  split
  · exact .sealPath b false
  · exact .refl b

theorem unwinds_returnGuard :
    Script.returnGuard.Leaves Unwinds :=
  unwinds_bind unwinds_returnGate fun _ =>
    unwinds_bind (unwinds_place _) fun id =>
      unwinds_bind (fun b => .setTail b [⟨id, 1⟩])
        fun _ => .refl

end FlowGraph.Builder

------------------------------------------------------------
-- Moments Of A Function
------------------------------------------------------------

namespace FlowGraph.Script

/- The number of functions around a place. -/
def Path.depth
    (path : Path) :
    Nat :=
  path.count .function

/-
  The frames that entries about places at one depth show,
  the earliest first; the latest entry comes first.
-/
def framesAt
    (depth : Nat)
    (news : List Entry) :
    List Frame :=
  (news.reverse.filter fun e => e.path.depth = depth).map
    Entry.frame

theorem framesAt_append
    {depth : Nat}
    {news olds : List Entry} :
    framesAt depth (news ++ olds) =
      framesAt depth olds ++ framesAt depth news := by
  simp [framesAt]

/- Lists in order, the last of one being first of the next. -/
theorem pairwise_join
    {α : Type}
    {R : α → α → Prop}
    {a b : α}
    {first second : List α}
    (hTrans : ∀ {a b c}, R a b → R b c → R a c)
    (h₁ : (first ++ [a]).Pairwise R)
    (h₂ : (a :: second ++ [b]).Pairwise R) :
    (first ++ second ++ [b]).Pairwise R := by
  rcases List.pairwise_append.mp h₁ with ⟨hFirst, -, hEnd⟩
  rcases List.pairwise_cons.mp h₂ with ⟨hStart, hSecond⟩
  rw [List.append_assoc, List.pairwise_append]
  refine ⟨hFirst, hSecond, ?_⟩
  intro x hx y hy
  exact hTrans (hEnd x hx a List.mem_cons_self) (hStart y hy)

namespace Session

/-
  Between the two sessions the function at a depth was built
  further: of all the frames that it had, each continues the
  earlier ones.
-/
def Proceeds
    (depth : Nat)
    (s s' : Session) :
    Prop :=
  ∃ news, s'.journal = news ++ s.journal ∧
    (s.frame :: framesAt depth news ++ [s'.frame]).Pairwise
      Frame.Continues

/- The loops around are the same as well. -/
structure Unwinds
    (depth : Nat)
    (s s' : Session) :
    Prop where
  loops : s'.frame.loops = s.frame.loops
  proceeds : s.Proceeds depth s'

variable {depth : Nat} {s s₁ s₂ : Session}

/- Nothing was written about the function. -/
theorem proceeds_of_continues
    {news : List Entry}
    (hJournal : s₁.journal = news ++ s.journal)
    (hApart : framesAt depth news = [])
    (h : s.frame.Continues s₁.frame) :
    s.Proceeds depth s₁ := by
  refine ⟨news, hJournal, ?_⟩
  simpa [hApart] using h

/- Nothing was written at all. -/
theorem proceeds_of_quiet
    (hJournal : s₁.journal = s.journal)
    (h : s.frame.Continues s₁.frame) :
    s.Proceeds depth s₁ :=
  proceeds_of_continues (by rw [hJournal, List.nil_append])
    rfl h

theorem Proceeds.trans
    (h₁ : s.Proceeds depth s₁)
    (h₂ : s₁.Proceeds depth s₂) :
    s.Proceeds depth s₂ := by
  rcases h₁ with ⟨news, hNews, hFirst⟩
  rcases h₂ with ⟨more, hMore, hSecond⟩
  refine ⟨more ++ news, by simp [hNews, hMore], ?_⟩
  have hBoth :=
    pairwise_join (R := Frame.Continues) .trans hFirst hSecond
  rw [framesAt_append]
  simpa using hBoth

theorem proceeds_record
    (s : Session)
    (place : Path)
    (event : Event) :
    s.Proceeds depth (s.record place event) := by
  refine ⟨[⟨place, s.builder, event⟩], rfl, ?_⟩
  have hSelf := Frame.Continues.refl s.frame
  by_cases hDepth : place.depth = depth
  · simpa [framesAt, hDepth, Session.record, Entry.frame]
      using hSelf
  · simpa [framesAt, hDepth, Session.record] using hSelf

theorem Unwinds.refl
    (s : Session) :
    s.Unwinds depth s :=
  ⟨rfl, proceeds_of_quiet rfl (.refl _)⟩

theorem Unwinds.trans
    (h₁ : s.Unwinds depth s₁)
    (h₂ : s₁.Unwinds depth s₂) :
    s.Unwinds depth s₂ :=
  ⟨h₂.loops.trans h₁.loops, h₁.proceeds.trans h₂.proceeds⟩

/- From its start to its end the function proceeds. -/
theorem Proceeds.continues
    (h : s.Proceeds depth s₁) :
    s.frame.Continues s₁.frame := by
  rcases h with ⟨news, -, hMoments⟩
  exact (List.pairwise_cons.mp hMoments).1 _ (by simp)

end Session

end FlowGraph.Script

------------------------------------------------------------
-- Scopes
------------------------------------------------------------

namespace FlowGraph.Script

variable {α : Type}

/- A branch gives the cursor back, whatever its body does. -/
theorem inBranch_tail
    (node index : Nat)
    (body : Run Unit) :
    (inBranch node index body).Leaves
      fun s s' => s'.frame.tail = s.frame.tail := by
  rw [Process.leaves_iff]
  intro s
  rw [meets_inBranch]
  exact Process.meets_state.mpr rfl

/- A function gives the frame back. -/
theorem inFunction_frame
    (event : String)
    (body : Run Unit) :
    (inFunction event body).Leaves
      fun s s' => s'.frame = s.frame := by
  rw [Process.leaves_iff]
  intro s
  rw [meets_inFunction]
  exact Process.meets_state.mpr rfl

/- A loop is left as it was entered. -/
theorem unwinds_inLoop
    {depth : Nat}
    {body : Run α}
    (node : Nat)
    (hBody : body.Leaves (Session.Unwinds depth)) :
    (inLoop node body).Leaves (Session.Unwinds depth) := by
  rw [Process.leaves_iff]
  intro s
  rw [meets_inLoop]
  apply Process.meets_state.mpr
  have hRun := hBody (s.onFrame fun f => f.pushLoop node)
  have hEnter :
      s.Proceeds depth
        (s.onFrame fun f => f.pushLoop node) :=
    Session.proceeds_of_quiet rfl
      ⟨Nat.le_refl _, fun _ hGate => hGate⟩
  refine ⟨congrArg List.tail hRun.loops,
    (hEnter.trans hRun.proceeds).trans ?_⟩
  exact Session.proceeds_of_quiet rfl
    ⟨Nat.le_refl _, fun _ hGate => hGate⟩

/- Places inside a function are deeper than the function. -/
theorem depth_lt_of_inside
    {path p : Path}
    (h : path ++ [.function] <+: p) :
    path.depth < p.depth := by
  rcases h with ⟨below, rfl⟩
  simp only [Path.depth, List.count_append,
    List.count_singleton_self]
  omega

/- A nested function is none of the outer one's business. -/
theorem unwinds_inFunction
    {path : Path}
    {body : Run Unit}
    (event : String)
    (hWrites : Writes (path ++ [.function] <+: ·) body) :
    (inFunction event body).Leaves
      (Session.Unwinds path.depth) := by
  intro s
  have hFrame := inFunction_frame event body s
  have hWrote :=
    Process.meets_state.mp (hWrites.inFunction event s)
  rcases hWrote with ⟨news, hJournal, -, hNews⟩
  refine ⟨by rw [hFrame],
    Session.proceeds_of_continues hJournal ?_ ?_⟩
  · unfold framesAt
    rw [List.map_eq_nil_iff, List.filter_eq_nil_iff]
    intro e he
    have hDeep :=
      depth_lt_of_inside (hNews e (List.mem_reverse.mp he))
    simp
    omega
  · rw [hFrame]
    exact .refl _

/- What every statement keeps. -/
theorem sustained_unwinds :
    Sustained Builder.Unwinds
      (fun path => Session.Unwinds path.depth) where
  refl _ s := .refl s
  trans h₁ h₂ := h₁.trans h₂
  inner := by
    intro path segment s t hSegment h
    have hDepth : (path ++ [segment]).depth = path.depth := by
      simp [Path.depth, hSegment]
    rwa [hDepth] at h
  record _ s place event :=
    ⟨rfl, Session.proceeds_record s place event⟩
  bindNode _ s _ _ :=
    ⟨rfl, Session.proceeds_of_quiet rfl (.refl _)⟩
  bindValue _ s _ _ :=
    ⟨rfl, Session.proceeds_of_quiet rfl (.refl _)⟩
  still := .refl
  build h :=
    ⟨h.loops, Session.proceeds_of_quiet rfl h.continues⟩
  setTail := .setTail
  connect := Builder.unwinds_connect
  placeBranch _ := Builder.unwinds_place _
  placeSwitch _ := Builder.unwinds_place _
  placeRange _ _ := Builder.unwinds_place _
  placeItems _ := Builder.unwinds_place _
  returnGuard := Builder.unwinds_returnGuard
  inLoop node hBody := unwinds_inLoop node hBody
  inFunction event hWrites _ :=
    unwinds_inFunction event hWrites

end FlowGraph.Script

------------------------------------------------------------
-- Actions
------------------------------------------------------------

namespace FlowGraph.Script

open Builder

/- A result is put around a step. -/
theorem unwinds_result
    {α : Type}
    {m : Build α}
    {result : α → Result}
    (hm : m.Leaves Builder.Unwinds) :
    (m >>= fun a => pure (result a)).Leaves
      Builder.Unwinds :=
  unwinds_bind hm fun _ => .refl

/- All actions but the beginning of a function. -/
theorem unwinds_step
    {names : Names}
    {a : Action}
    {step : Build Result}
    (h : a.Means names step)
    (hBegin : ∀ event, a ≠ .beginFunction event) :
    step.Leaves Builder.Unwinds := by
  cases h with
  | beginFunction event => exact absurd rfl (hBegin event)
  | placeOfType nodeType _ =>
      exact unwinds_result (unwinds_placeOfType nodeType _)
  | addData _ _ _ => exact unwinds_result (unwinds_add _)
  | place _ => exact unwinds_result (unwinds_place _)
  | placeBuiltin _ _ _ =>
      exact unwinds_result (unwinds_place _)
  | addBuiltin _ _ _ => exact unwinds_result (unwinds_add _)
  | pin _ _ _ => exact unwinds_result fun _ => .of_frame rfl
  | keep _ => exact unwinds_result .refl
  | binary op _ _ =>
      exact unwinds_result (unwinds_binary op _ _)
  | unary op _ => exact unwinds_result (unwinds_unary op _)
  | declare _ =>
      exact unwinds_result (unwinds_declareVariable _)
  | set _ _ => exact unwinds_result (unwinds_setVariable _ _)
  | print _ => exact unwinds_result (unwinds_printString _)
  | list _ _ => exact unwinds_result (unwinds_assembleList _ _)
  | dict _ _ _ =>
      exact unwinds_result (unwinds_assembleDictionary _ _ _)
  | breakLoop _ => exact unwinds_result (unwinds_breakLoop _)
  | returnNow => exact unwinds_result unwinds_returnNow
  | continueLoop => exact unwinds_result unwinds_continueLoop
  | sealPath returning =>
      exact unwinds_result fun b => .sealPath b returning
  | returnGate => exact unwinds_result unwinds_returnGate
  | gateVariable => exact unwinds_result unwinds_returnGate
  | setTail _ => exact unwinds_result fun b => .setTail b _
  | linkFrom index _ =>
      exact unwinds_result fun b => .setTail b [⟨_, index⟩]

theorem unwinds_action
    (path : Path)
    (bind : Binding)
    (a : Action)
    (hBegin : (!(Stmt.action bind a).begins) = true) :
    (journaled path bind a.run).Leaves
      (Session.Unwinds path.depth) := by
  refine sustained_unwinds.action path ?_
  intro s step hMeans
  have hStep : step.Leaves Builder.Unwinds := by
    refine unwinds_step hMeans ?_
    rintro event rfl
    cases hBegin
  have hRun :
      ∀ b, s.builder.Unwinds b →
        s.Unwinds path.depth (s.withBuilder b) :=
    fun _ hb => sustained_unwinds.build hb
  refine (Process.leaves_iff.mp hStep s.builder).mono ?_
    fun _ b hb => hRun b hb
  intro r b hb
  exact ⟨(hRun b hb).loops, (hRun b hb).proceeds⟩

end FlowGraph.Script

------------------------------------------------------------
-- Statements
------------------------------------------------------------

namespace FlowGraph.Script

/- Functions are begun at the top only. -/
def beginsAtTop
    (script : List Stmt) :
    Bool :=
  script.all fun st =>
    st.begins || st.every fun inner => !inner.begins

/- At the top all other statements are free of it. -/
theorem every_of_mem
    {script : List Stmt}
    {st : Stmt}
    (hTop : beginsAtTop script = true)
    (hMem : st ∈ script)
    (hNot : st.begins = false) :
    st.every (fun inner => !inner.begins) = true := by
  have hEither := List.all_eq_true.mp hTop st hMem
  rwa [hNot, Bool.false_or] at hEither

/- Elsewhere nothing begins a function. -/
theorem every_of_beginsAtTop
    {script : List Stmt}
    {path : Path}
    {st : Stmt}
    (hTop : beginsAtTop script = true)
    (hFind : find? script path = some st)
    (hNot : st.begins = false) :
    st.every (fun inner => !inner.begins) = true := by
  unfold find? at hFind
  split at hFind
  · exact every_of_mem hTop (List.mem_of_getElem? hFind) hNot
  · split at hFind
    · rename_i body hBody
      rcases Option.bind_eq_some_iff.mp hBody with
        ⟨outer, hOuter, hBody⟩
      -- A statement with a body is not a beginning.
      have hOuterNot : outer.begins = false := by
        unfold Stmt.begins
        split
        · cases hBody
        · rfl
      have hEvery :=
        every_of_mem hTop (List.mem_of_getElem? hOuter)
          hOuterNot
      exact every_of_find?
        (((Stmt.every_iff outer).mp hEvery).2 body
          (Stmt.mem_bodies hBody)) hFind
    · cases hFind
  · cases hFind

theorem unwinds_runStmt
    (st : Stmt)
    (path : Path)
    (hEvery : st.every (fun inner => !inner.begins) = true) :
    (runStmt path st).Leaves (Session.Unwinds path.depth) :=
  (sustained_unwinds.runStmt unwinds_action).1 st path hEvery

theorem function_frame
    (path : Path)
    (bind : Binding)
    (event : String)
    (body : List Stmt) :
    (runStmt path (.function bind event body)).Leaves
      fun s s' => s'.frame = s.frame := by
  rw [Process.leaves_iff]
  intro s
  unfold runStmt
  rw [meets_journaled, Process.meets_bind]
  exact (Process.leaves_iff.mp
    (inFunction_frame event _) s).mono
      (fun _ _ hFrame => hFrame) fun _ _ hFrame => hFrame

theorem branch_tail
    (path : Path)
    (node : NodeRef)
    (index : Nat)
    (body : List Stmt) :
    (runStmt path (.branch node index body)).Leaves
      fun s s' => s'.frame.tail = s.frame.tail := by
  rw [Process.leaves_iff]
  intro s
  unfold runStmt
  rw [meets_journaled, Process.meets_bind, meets_resolved]
  refine ⟨?_, fun _ _ => rfl⟩
  intro id _
  rw [Process.meets_bind]
  exact (Process.leaves_iff.mp
    (inBranch_tail id index _) s).mono
      (fun _ _ hTail => hTail) fun _ _ hTail => hTail

/- At the top there are no loops around. -/
theorem loops_runFrom
    {script : List Stmt}
    {s : Session}
    (hTop : beginsAtTop script = true)
    (hLoops : s.frame.loops = [])
    (i : Nat) :
    (runFrom i script s).frame.loops = [] := by
  induction script generalizing s i with
  | nil => exact hLoops
  | cons st rest ih =>
      simp only [beginsAtTop, List.all_cons,
        Bool.and_eq_true] at hTop
      refine ih hTop.2 ?_ (i + 1)
      rcases Bool.or_eq_true_iff.mp hTop.1 with
        hBegins | hEvery
      · unfold Stmt.begins at hBegins
        split at hBegins
        · exact (Process.leaves_iff
            (R := fun _ s' => s'.frame.loops = [])).mpr
              (fun _ => meets_begin.mpr rfl) s
        · cases hBegins
      · exact (unwinds_runStmt st _ hEvery s).loops.trans
          hLoops

/-
  Scoped state is restored on every way out.  At the top no
  loop is left open, and from one statement of a function to
  any later one its frames continue each other.  The same is
  true from the start to the end of a statement at any
  place, run from any session and finished or refused, and
  the loops around are then as they were.  A function gives
  the whole frame back and a branch the cursor, whatever
  their bodies do.
-/
theorem scopes_restored
    {script : List Stmt}
    (hTop : beginsAtTop script = true)
    (name : String)
    (config : Config) :
    (∀ n, (run name config (script.take n)).frame.loops =
      []) ∧
    (∀ before block after,
      script = before ++ block ++ after →
        (∀ st ∈ block, st.begins = false) →
          (run name config before).Unwinds 0
            (run name config (before ++ block))) ∧
    (∀ path st, find? script path = some st →
      st.begins = false →
        ∀ s : Session,
          s.Unwinds path.depth (runStmt path st s).2) ∧
    (∀ path bind event body s,
      (runStmt path (.function bind event body) s).2.frame =
        s.frame) ∧
    (∀ path node index body s,
      (runStmt path (.branch node index body)
        s).2.frame.tail = s.frame.tail) ∧
    (∀ event (body : Run Unit) s,
      (inFunction event body s).2.frame = s.frame) ∧
    ∀ node index (body : Run Unit) s,
      (inBranch node index body s).2.frame.tail =
        s.frame.tail := by
  refine ⟨?_, ?_, ?_, function_frame, branch_tail,
    inFunction_frame, inBranch_tail⟩
  · intro n
    refine loops_runFrom ?_ rfl 0
    rw [beginsAtTop, List.all_eq_true] at hTop ⊢
    exact fun st hMem => hTop st (List.mem_of_mem_take hMem)
  · intro before block after hSplit hNot
    rw [run, run, runFrom_append]
    refine sustained_unwinds.runFrom
      (p := fun st => !st.begins) unwinds_action ?_ _ _
    rw [everyIn_iff]
    intro st hMem
    exact every_of_mem hTop (by simp [hSplit, hMem])
      (hNot st hMem)
  · intro path st hFind hNot s
    exact unwinds_runStmt st path
      (every_of_beginsAtTop hTop hFind hNot) s

/-
  A function in a loop, refused after its own return and
  after one of the function around it.
-/
def refusedInside : List Stmt :=
  [.action .none (.beginFunction "outer"),
    .forRange .none (.literal (.int 0)) (.literal (.int 3))
      [.ifThen .none (.value (.bool true))
        [.action .none .returnNow],
        .function .none "inner"
          [.action .none .returnNow,
            .action .none (.print (.literal (.int 1)))]]]

/-
  The refusal goes outwards through both functions, and the
  outer one is as deep in loops as before, with one return
  more.
-/
theorem refusal_restores_scopes :
    beginsAtTop refusedInside = true ∧
      ∃ start loop,
        start = run "demo" .default (refusedInside.take 1) ∧
        find? refusedInside [.statement 1] = some loop ∧
        (runStmt [.statement 1] loop start).2.journal.head?.map
            (fun e => e.event.isFailure) = some true ∧
        (runStmt [.statement 1] loop start).2.frame.returns =
          1 ∧
        start.Unwinds 0
          (runStmt [.statement 1] loop start).2 := by
  have hTop : beginsAtTop refusedInside = true := by
    decide
  refine ⟨hTop, _, _, rfl, rfl, by decide +kernel,
    by decide +kernel, ?_⟩
  exact (scopes_restored hTop "demo" .default).2.2.1
    [.statement 1] _ rfl rfl _

end FlowGraph.Script
