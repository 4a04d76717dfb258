import FlowGraph.Proofs.Renumbering

/-
  Builders that differ in the numbers of nodes.

  Every step that comes through on the one builder comes
  through on the other, yields the same thing with the
  numbers put up, and leaves builders that differ in the same
  way.

  Key definitions include:
    * `FlowGraph.Process.Simulation`
    * `FlowGraph.Process.Tracks`
    * `FlowGraph.Builder.Moved`

  Key theorems include:
    * `FlowGraph.Process.Tracks.bind`
    * `FlowGraph.Builder.tracks_place`
    * `FlowGraph.Builder.tracks_returnNow`
-/

------------------------------------------------------------
-- Steps In Parallel
------------------------------------------------------------

namespace FlowGraph.Process

/-
  A relation between the states of two runs.  `extent` says
  up to where numbers were given out, and `onward` what a run
  does by itself.
-/
structure Simulation
    (σ : Type) where
  related : σ → σ → Prop
  extent : σ → Nat
  onward : σ → σ → Prop
  onward_refl : ∀ s, onward s s
  onward_trans :
    ∀ {s t u}, onward s t → onward t u → onward s u
  extent_le : ∀ {s t}, onward s t → extent s ≤ extent t

variable {σ α β : Type} {S : Simulation σ} {n n' : Nat}

/- A step that is not refused comes to a result. -/
theorem Meets.comes_through
    {m : Process σ α}
    {s : σ}
    {Q : α → σ → Prop}
    (h : m.Meets s Q fun _ _ => False) :
    ∃ a t, m s = (.ok a, t) ∧ Q a t := by
  unfold Meets at h
  rcases hRun : m s with ⟨e | a, t⟩
  · rw [hRun] at h
    exact h.elim
  · rw [hRun] at h
    exact ⟨a, t, rfl, h⟩

theorem meets_of_ok
    {m : Process σ α}
    {s t : σ}
    {a : α}
    {Q : α → σ → Prop}
    {E : Error → σ → Prop}
    (hRun : m s = (.ok a, t))
    (h : Q a t) :
    m.Meets s Q E := by
  unfold Meets
  rw [hRun]
  exact h

/-
  From related states, and with numbers given out up to `n`,
  the second step comes through if the first does.  Results
  are related in view of the numbers given out since, and so
  are the states.
-/
def Tracks
    (S : Simulation σ)
    (n : Nat)
    (Q : Nat → α → α → Prop)
    (m m' : Process σ α) :
    Prop :=
  ∀ s s', n ≤ S.extent s → S.related s s' →
    m.Meets s
      (fun a t =>
        m'.Meets s'
          (fun a' t' => S.onward s t ∧ Q (S.extent t) a a' ∧
            S.related t t')
          (fun _ _ => False))
      (fun _ _ => True)

/- Any two results. -/
def Whatever
    (_ : Nat)
    (_ _ : α) :
    Prop :=
  True

variable {Q : Nat → α → α → Prop} {P : Nat → β → β → Prop}

theorem Tracks.later
    {m m' : Process σ α}
    (h : Tracks S n Q m m')
    (hLe : n ≤ n') :
    Tracks S n' Q m m' :=
  fun s s' hExtent hRelated =>
    h s s' (Nat.le_trans hLe hExtent) hRelated

/- One step after another. -/
theorem Tracks.bind
    {m m' : Process σ α}
    {f f' : α → Process σ β}
    (hm : Tracks S n Q m m')
    (hf :
      ∀ n' a a', n ≤ n' → Q n' a a' →
        Tracks S n' P (f a) (f' a')) :
    Tracks S n P (m >>= f) (m' >>= f') := by
  intro s s' hExtent hRelated
  rw [meets_bind]
  refine (hm s s' hExtent hRelated).mono ?_ fun _ _ h => h
  intro a t hFirst
  -- From here on the second run is at `t'` with `a'`, so the
  -- second halves are followed from related states again.
  rcases hFirst.comes_through with
    ⟨a', t', hRun, hOnward, hResult, hStates⟩
  have hLe := Nat.le_trans hExtent (S.extent_le hOnward)
  refine (hf _ a a' hLe hResult t t' (Nat.le_refl _)
    hStates).mono ?_ fun _ _ h => h
  intro b u hSecond
  rcases hSecond.comes_through with
    ⟨b', u', hRun', hOnward', hRest⟩
  apply meets_of_ok ((bind_of_ok hRun f').trans hRun')
  exact ⟨S.onward_trans hOnward hOnward', hRest⟩

/- The first results are no concern of what follows. -/
theorem Tracks.andThen
    {m m' : Process σ α}
    {f f' : α → Process σ β}
    (hm : Tracks S n Q m m')
    (hf : ∀ a a', Tracks S n P (f a) (f' a')) :
    Tracks S n P (m >>= f) (m' >>= f') :=
  hm.bind fun _ a a' hLe _ => (hf a a').later hLe

theorem tracks_pure
    {a a' : α}
    (h : ∀ n', n ≤ n' → Q n' a a') :
    Tracks S n Q (pure a) (pure a') :=
  fun s _ hExtent hRelated =>
    ⟨S.onward_refl s, h _ hExtent, hRelated⟩

theorem tracks_check
    {r r' : Except Error α}
    (h : ∀ n', n ≤ n' → Carries (Q n') r r') :
    Tracks S n Q (liftM r) (liftM r') := by
  intro s s' hExtent hRelated
  rw [meets_ofExcept]
  refine ⟨?_, fun _ _ => trivial⟩
  intro a ha
  rcases h _ hExtent a ha with ⟨a', ha', hQ⟩
  rw [ha', meets_ofExcept_ok]
  exact ⟨S.onward_refl s, hQ, hRelated⟩

/- A step for each of two lists of related items. -/
theorem tracks_each
    {f f' : α → Process σ Unit}
    {P : α → α → Prop}
    {items items' : List α}
    (hItems : List.Forall₂ P items items')
    (hf :
      ∀ a a', P a a' → Tracks S n Whatever (f a) (f' a')) :
    Tracks S n Whatever (each f items) (each f' items') := by
  induction hItems with
  | nil => exact tracks_pure fun _ _ => trivial
  | cons hHead _ ih =>
      exact (hf _ _ hHead).andThen fun _ _ => ih

end FlowGraph.Process

------------------------------------------------------------
-- Builders
------------------------------------------------------------

namespace FlowGraph

/- The second frame is the first with its numbers put up. -/
structure Frame.Moved
    (k d n : Nat)
    (f f' : Frame) :
    Prop where
  tail : f'.tail = f.tail.map (Endpoint.renumber (shift k d))
  loops : f'.loops = f.loops.map (shift k d)
  loops_lt : ∀ id ∈ f.loops, id < n
  returns : f'.returns = f.returns
  gate : Option.Rel (Variable.Moved k d n) f.gate f'.gate

/- The same for a builder, the settings being the same. -/
structure Builder.Moved
    (k d : Nat)
    (b b' : Builder) :
    Prop where
  graph : b.graph.Moved k d b'.graph
  frame : b.frame.Moved k d b.graph.nextId b'.frame
  config : b'.config = b.config

variable {k d n n' : Nat}

theorem rel_mono
    {α β : Type}
    {Q P : α → β → Prop}
    {a : Option α}
    {b : Option β}
    (h : Option.Rel Q a b)
    (hImp : ∀ a b, Q a b → P a b) :
    Option.Rel P a b := by
  cases h with
  | none => exact .none
  | some h => exact .some (hImp _ _ h)

namespace Frame.Moved

variable {f f' : Frame}

theorem mono
    (h : f.Moved k d n f')
    (hLe : n ≤ n') :
    f.Moved k d n' f' := by
  refine ⟨h.tail, h.loops, ?_, h.returns, ?_⟩
  · intro id hId
    exact Nat.lt_of_lt_of_le (h.loops_lt id hId) hLe
  · exact rel_mono h.gate fun _ _ hMoved => hMoved.mono hLe

theorem setTail
    {tail tail' : List Endpoint}
    (h : f.Moved k d n f')
    (hTail : tail' = tail.map (Endpoint.renumber (shift k d))) :
    (f.setTail tail).Moved k d n (f'.setTail tail') :=
  ⟨hTail, h.loops, h.loops_lt, h.returns, h.gate⟩

theorem sealPath
    (h : f.Moved k d n f')
    (returning : Bool) :
    (f.sealPath returning).Moved k d n
      (f'.sealPath returning) := by
  refine ⟨rfl, h.loops, h.loops_lt, ?_, h.gate⟩
  unfold Frame.sealPath
  rw [h.returns]

theorem setGate
    {v v' : Variable}
    (h : f.Moved k d n f')
    (hGate : v.Moved k d n v') :
    (f.setGate v).Moved k d n (f'.setGate v') :=
  ⟨h.tail, h.loops, h.loops_lt, h.returns, .some hGate⟩

theorem pushLoop
    {id : Nat}
    (h : f.Moved k d n f')
    (hId : id < n) :
    (f.pushLoop id).Moved k d n
      (f'.pushLoop (shift k d id)) := by
  refine ⟨h.tail, ?_, ?_, h.returns, h.gate⟩
  · show shift k d id :: f'.loops = _
    rw [h.loops]
    rfl
  · intro i hi
    rcases List.mem_cons.mp hi with rfl | hi
    · exact hId
    · exact h.loops_lt i hi

theorem popLoop
    (h : f.Moved k d n f') :
    f.popLoop.2.Moved k d n f'.popLoop.2 := by
  refine ⟨h.tail, ?_, ?_, h.returns, h.gate⟩
  · show f'.loops.tail = f.loops.tail.map _
    rw [h.loops, List.map_tail]
  · intro i hi
    exact h.loops_lt i (List.mem_of_mem_tail hi)

theorem inLoop
    (h : f.Moved k d n f') :
    f'.inLoop = f.inLoop := by
  unfold Frame.inLoop
  rw [h.loops, List.isEmpty_map]

theorem isInside
    (h : f.Moved k d n f')
    (id : Nat) :
    f'.isInside (shift k d id) = f.isInside id := by
  rw [Bool.eq_iff_iff]
  unfold Frame.isInside
  rw [h.loops]
  simp

end Frame.Moved

namespace Builder

open Process

/- Numbers are given out, and the settings are kept. -/
structure Widens
    (b b' : Builder) :
    Prop where
  nextId_le : b.graph.nextId ≤ b'.graph.nextId
  config : b'.config = b.config

theorem Widens.refl
    (b : Builder) :
    b.Widens b :=
  ⟨Nat.le_refl _, rfl⟩

theorem Widens.trans
    {b b₁ b₂ : Builder}
    (h₁ : b.Widens b₁)
    (h₂ : b₁.Widens b₂) :
    b.Widens b₂ :=
  ⟨Nat.le_trans h₁.nextId_le h₂.nextId_le,
    h₂.config.trans h₁.config⟩

/- Two builders of which one has given out more numbers. -/
def moving
    (k d : Nat) :
    Simulation Builder where
  related := Moved k d
  extent b := b.graph.nextId
  onward := Widens
  onward_refl := .refl
  onward_trans := .trans
  extent_le h := h.nextId_le

/- The number of a node that was given out before `n`. -/
structure IdMoved
    (k d n : Nat)
    (id id' : Nat) :
    Prop where
  lt : id < n
  eq : id' = shift k d id

theorem IdMoved.mono
    {id id' : Nat}
    (h : IdMoved k d n id id')
    (hLe : n ≤ n') :
    IdMoved k d n' id id' :=
  ⟨Nat.lt_of_lt_of_le h.lt hLe, h.eq⟩

theorem tracks_onFrame
    {f f' : Frame → Frame}
    (h :
      ∀ n' φ φ', n ≤ n' → φ.Moved k d n' φ' →
        (f φ).Moved k d n' (f' φ')) :
    Tracks (moving k d) n Whatever (onFrame f) (onFrame f') :=
  fun _ _ hExtent hMoved =>
    ⟨⟨Nat.le_refl _, rfl⟩, trivial, hMoved.graph,
      h _ _ _ hExtent hMoved.frame, hMoved.config⟩

theorem tracks_frameNow :
    Tracks (moving k d) n (Frame.Moved k d) frameNow
      frameNow :=
  fun _ _ _ hMoved =>
    ⟨.refl _, hMoved.frame, hMoved⟩

theorem tracks_add
    {m m' : Node}
    (h : m.Moved k d n m') :
    Tracks (moving k d) n (IdMoved k d) (add m) (add m') := by
  intro b b' hExtent hMoved
  refine ⟨⟨Nat.le_succ _, rfl⟩, ⟨Nat.lt_succ_self _,
    hMoved.graph.shift_nextId⟩, ?_⟩
  exact ⟨hMoved.graph.add (h.mono hExtent),
    hMoved.frame.mono (Nat.le_succ _), hMoved.config⟩

theorem tracks_pinValue
    (id : Nat)
    (slot : String)
    (index : Nat) :
    Tracks (moving k d) n (Value.Moved k d)
      (pinValue id slot index)
      (pinValue (shift k d id) slot index) := by
  intro b b' _ hMoved
  unfold pinValue
  rw [meets_bind, meets_read, meets_ofExcept]
  refine ⟨?_, fun _ _ => trivial⟩
  intro v hv
  rcases hMoved.graph.pinValue id slot index v hv with
    ⟨v', hv', hValue⟩
  rw [meets_bind, meets_read, hv', meets_ofExcept_ok]
  exact ⟨.refl _, hValue, hMoved⟩

theorem tracks_connect
    (e : Endpoint)
    (t : Nat) :
    Tracks (moving k d) n Whatever (connect e t)
      (connect (e.renumber (shift k d)) (shift k d t)) := by
  intro b b' _ hMoved
  unfold Meets connect
  cases hConnect : b.graph.connect e t with
  | error err => trivial
  | ok g =>
      rcases Graph.of_connect hConnect with
        ⟨hOpen, hExec, rfl⟩
      rw [Graph.connect_eq_ok (hMoved.graph.isOpen hOpen)
        (hMoved.graph.isExec hExec)]
      exact ⟨⟨Nat.le_refl _, rfl⟩, trivial,
        hMoved.graph.link e t, hMoved.frame, hMoved.config⟩

/- The open exec outputs are taken away. -/
theorem tracks_takeTail :
    Tracks (moving k d) n
      (fun _ => List.Forall₂ fun e e' =>
        e' = e.renumber (shift k d))
      (fromFrame Frame.takeTail)
      (fromFrame Frame.takeTail) := by
  intro b b' _ hMoved
  refine ⟨⟨Nat.le_refl _, rfl⟩, ?_, hMoved.graph,
    hMoved.frame.setTail rfl, hMoved.config⟩
  show List.Forall₂ _ b.frame.tail b'.frame.tail
  rw [hMoved.frame.tail, List.forall₂_map_right_iff]
  exact List.forall₂_same.mpr fun _ _ => rfl

theorem tracks_place
    {m m' : Node}
    (h : m.Moved k d n m') :
    Tracks (moving k d) n (IdMoved k d) (place m)
      (place m') := by
  refine tracks_takeTail.bind fun n₁ tail tail' hLe hTail => ?_
  refine (tracks_add (h.mono hLe)).bind
    fun n₂ id id' hLe' hId => ?_
  refine (tracks_each hTail ?_).andThen fun _ _ => ?_
  · rintro e _ rfl
    rw [hId.eq]
    exact tracks_connect e id
  · rw [h.execOutputs]
    split
    · refine (tracks_onFrame ?_).andThen fun _ _ => ?_
      · intro n₃ φ φ' _ hFrame
        apply hFrame.setTail
        rw [hId.eq]
        rfl
      · exact tracks_pure fun _ hLe => hId.mono hLe
    · exact tracks_pure fun _ hLe => hId.mono hLe

end Builder

end FlowGraph

------------------------------------------------------------
-- Operations
------------------------------------------------------------

namespace FlowGraph.Builder

open Process

variable {k d n n' : Nat} {v v' w w' : Value}
variable {args args' : List Value}

theorem tracks_placeBuiltin
    {kind : Builtin}
    (hKind : kind ≠ .breakLoop)
    (hArgs : List.Forall₂ (Value.Moved k d n) args args')
    (dynamic : Option ValueType) :
    Tracks (moving k d) n (IdMoved k d)
      (placeBuiltin kind args dynamic)
      (placeBuiltin kind args' dynamic) :=
  tracks_place (Builtin.moved_node hKind hArgs dynamic)

theorem tracks_addBuiltin
    {kind : Builtin}
    (hKind : kind ≠ .breakLoop)
    (hArgs : List.Forall₂ (Value.Moved k d n) args args')
    (dynamic : Option ValueType) :
    Tracks (moving k d) n (IdMoved k d)
      (addBuiltin kind args dynamic)
      (addBuiltin kind args' dynamic) :=
  tracks_add (Builtin.moved_node hKind hArgs dynamic)

/- A data node is added for the sake of an output. -/
theorem tracks_addForPin
    {kind : Builtin}
    (hKind : kind ≠ .breakLoop)
    (hArgs : List.Forall₂ (Value.Moved k d n) args args')
    (dynamic : Option ValueType)
    (slot : String)
    (index : Nat) :
    Tracks (moving k d) n (Value.Moved k d)
      (addBuiltin kind args dynamic >>= fun id =>
        pinValue id slot index)
      (addBuiltin kind args' dynamic >>= fun id =>
        pinValue id slot index) := by
  refine (tracks_addBuiltin hKind hArgs dynamic).bind
    fun n' id id' _ hId => ?_
  rw [hId.eq]
  exact tracks_pinValue id slot index

theorem tracks_declareVariable
    (h : v.Moved k d n v') :
    Tracks (moving k d) n (Variable.Moved k d)
      (declareVariable v) (declareVariable v') := by
  unfold declareVariable
  rw [h.type]
  refine (tracks_addBuiltin (by decide) (.cons h .nil)
    _).bind fun n₁ id id' _ hId => ?_
  rw [hId.eq]
  refine (tracks_pinValue id _ _).bind
    fun n₂ a a' _ ha => ?_
  refine (tracks_pinValue id _ _).bind
    fun n₃ b b' hLe hb => ?_
  exact tracks_pure fun n₄ hLe' =>
    ⟨ha.mono (Nat.le_trans hLe hLe'), hb.mono hLe'⟩

theorem tracks_setVariable
    {v v' : Variable}
    {input input' : Input}
    (hv : v.Moved k d n v')
    (hInput : input.Moved k d n input') :
    Tracks (moving k d) n (IdMoved k d)
      (setVariable v input) (setVariable v' input') := by
  unfold setVariable
  rw [hv.value.type]
  refine (tracks_check fun n' hLe =>
    (hInput.mono hLe).read _).bind fun n₁ a a' hLe ha => ?_
  exact tracks_placeBuiltin (by decide)
    (.cons (hv.handle.mono hLe) (.cons ha .nil)) _

theorem tracks_printString
    {input input' : Input}
    (hInput : input.Moved k d n input') :
    Tracks (moving k d) n (IdMoved k d)
      (printString input) (printString input') := by
  refine (tracks_check fun n' hLe =>
    (hInput.mono hLe).read _).bind fun n₁ a a' _ ha => ?_
  exact tracks_placeBuiltin (by decide) (.cons ha .nil) _

/- The settings are the same. -/
theorem tracks_config :
    Tracks (moving k d) n (fun _ c c' => c' = c)
      (Process.read Builder.config)
      (Process.read Builder.config) :=
  fun _ _ _ hMoved =>
    ⟨.refl _, hMoved.config, hMoved⟩

theorem tracks_binary
    (op : BinaryOp)
    (hv : v.Moved k d n v')
    (hw : w.Moved k d n w') :
    Tracks (moving k d) n (Value.Moved k d)
      (binary op v w) (binary op v' w') := by
  refine (tracks_check fun n' hLe =>
    carries_operands op (hv.mono hLe) (hw.mono hLe)).bind ?_
  rintro n₁ ⟨a, b⟩ ⟨a', b'⟩ _ hBoth
  obtain ⟨ha, hb⟩ :
      a.Moved k d n₁ a' ∧ b.Moved k d n₁ b' := hBoth
  refine tracks_config.bind ?_
  rintro n₂ _ c hLe rfl
  rw [ha.foldBinary _ _ hb, ha.type]
  split
  · rename_i r hr
    exact tracks_pure fun _ _ =>
      Value.moved_of_usable (g := .empty "")
        (usable_binary hr)
  · exact tracks_addForPin (by simp)
      (.cons (ha.mono hLe) (.cons (hb.mono hLe) .nil)) _ _ _

theorem tracks_unary
    (op : UnaryOp)
    (hv : v.Moved k d n v') :
    Tracks (moving k d) n (Value.Moved k d)
      (unary op v) (unary op v') := by
  refine (tracks_check fun n' hLe =>
    (hv.mono hLe).checkUnary op).bind fun n₁ _ _ hLe _ => ?_
  refine tracks_config.bind ?_
  rintro n₂ _ c hLe' rfl
  have hMoved := hv.mono (Nat.le_trans hLe hLe')
  rw [hMoved.foldUnary, hMoved.type]
  split
  · rename_i r hr
    exact tracks_pure fun _ _ =>
      Value.moved_of_usable (g := .empty "")
        (usable_unary hr)
  · exact tracks_addForPin (by simp) (.cons hMoved .nil) _ _ _

theorem tracks_assembleList
    {items items' : List Input}
    (h : List.Forall₂ (Input.Moved k d n) items items')
    (element : Scalar) :
    Tracks (moving k d) n (Value.Moved k d)
      (assembleList element items)
      (assembleList element items') := by
  unfold assembleList
  rw [h.length_eq]
  refine (tracks_check fun _ _ => .same _).bind
    fun n₁ _ _ hLe _ => ?_
  refine (tracks_check fun n' hLe' => carries_readItems
    (h.imp fun _ _ hItem =>
      hItem.mono (Nat.le_trans hLe hLe')) _).bind
        fun n₂ args args' _ hArgs => ?_
  exact tracks_addForPin (by simp) hArgs _ _ _

theorem tracks_assembleDictionary
    {pairs pairs' : List (Input × Input)}
    (h :
      List.Forall₂
        (fun p p' => p.1.Moved k d n p'.1 ∧
          p.2.Moved k d n p'.2) pairs pairs')
    (key value : ValueType) :
    Tracks (moving k d) n (Value.Moved k d)
      (assembleDictionary key value pairs)
      (assembleDictionary key value pairs') := by
  unfold assembleDictionary
  rw [h.length_eq]
  refine (tracks_check fun _ _ => .same _).bind
    fun n₁ _ _ hLe _ => ?_
  refine (tracks_check fun n' hLe' => carries_readPairs
    (h.imp fun _ _ hPair =>
      ⟨hPair.1.mono (Nat.le_trans hLe hLe'),
        hPair.2.mono (Nat.le_trans hLe hLe')⟩) _ _).bind
        fun n₂ args args' _ hArgs => ?_
  exact tracks_addForPin (by simp) hArgs _ _ _

end FlowGraph.Builder

------------------------------------------------------------
-- Leaving Loops And Functions
------------------------------------------------------------

namespace FlowGraph.Builder

open Process

variable {k d n : Nat}

theorem IdMoved.list_iff
    {ids ids' : List Nat} :
    List.Forall₂ (IdMoved k d n) ids ids' ↔
      (∀ id ∈ ids, id < n) ∧ ids' = ids.map (shift k d) := by
  constructor
  · intro h
    induction h with
    | nil => exact ⟨by simp, rfl⟩
    | cons hId _ ih =>
        rw [List.forall_mem_cons, List.map_cons, ← hId.eq,
          ← ih.2]
        exact ⟨⟨hId.lt, ih.1⟩, rfl⟩
  · rintro ⟨hLt, rfl⟩
    rw [List.forall₂_map_right_iff]
    exact List.forall₂_same.mpr fun id hId =>
      ⟨hLt id hId, rfl⟩

/- The loops that a break stops. -/
theorem carries_breakTargets
    {f f' : Frame}
    {loops loops' : List Nat}
    (hFrame : f.Moved k d n f')
    (hLoops : List.Forall₂ (IdMoved k d n) loops loops') :
    Carries
      (fun ids ids' => (∀ id ∈ ids, id < n) ∧
        ids' = ids.map (shift k d))
      (breakTargets f loops) (breakTargets f' loops') := by
  rcases IdMoved.list_iff.mp hLoops with ⟨hLt, rfl⟩
  unfold breakTargets
  rw [List.isEmpty_map]
  split
  · have hLoops' := hFrame.loops
    cases hAround : f.loops with
    | nil => exact .error
    | cons innermost rest =>
        rw [hAround] at hLoops'
        rw [hLoops']
        refine .ok ⟨?_, rfl⟩
        intro id hId
        rw [List.mem_singleton.mp hId]
        apply hFrame.loops_lt
        rw [hAround]
        exact List.mem_cons_self
  · have hFind :
        (loops.map (shift k d)).find?
            (fun id => !f'.isInside id) =
          (loops.find? fun id => !f.isInside id).map
            (shift k d) := by
      rw [List.find?_map]
      congr 2
      funext id
      exact congrArg _ (hFrame.isInside id)
    rw [hFind]
    cases loops.find? fun id => !f.isInside id with
    | none => exact .ok ⟨hLt, rfl⟩
    | some id => exact .error

theorem tracks_breakLoop
    {loops loops' : List Nat}
    (hLoops : List.Forall₂ (IdMoved k d n) loops loops') :
    Tracks (moving k d) n (IdMoved k d) (breakLoop loops)
      (breakLoop loops') := by
  refine tracks_frameNow.bind fun n₁ f f' hLe hFrame => ?_
  refine (tracks_check fun n' hLe' => carries_breakTargets
    (hFrame.mono hLe') (hLoops.imp fun _ _ h =>
      h.mono (Nat.le_trans hLe hLe'))).bind ?_
  rintro n₂ ids _ _ ⟨hIds, rfl⟩
  refine (tracks_place (.stop hIds)).bind
    fun n₃ id id' _ hId => ?_
  refine (tracks_onFrame fun _ _ _ _ h =>
    h.sealPath false).andThen fun _ _ => ?_
  exact tracks_pure fun _ hLe => hId.mono hLe

theorem tracks_returnGate :
    Tracks (moving k d) n (Variable.Moved k d) returnGate
      returnGate := by
  refine tracks_frameNow.bind fun n₁ f f' _ hFrame => ?_
  -- Both frames have a gate, or neither has one yet.
  have hGate := hFrame.gate
  revert hGate
  generalize f.gate = gate
  generalize f'.gate = gate'
  intro hGate
  cases hGate with
  | some hMoved =>
      exact tracks_pure fun _ hLe => hMoved.mono hLe
  | none =>
      have hFalse :
          (Value.bool false).Moved k d n₁ (.bool false) :=
        Value.moved_of_usable (g := .empty "") (usable_bool _)
      refine (tracks_declareVariable hFalse).bind
        fun n₂ v v' _ hv => ?_
      refine (tracks_onFrame fun _ _ _ hLe h =>
        h.setGate (hv.mono hLe)).andThen fun _ _ => ?_
      exact tracks_pure fun _ hLe => hv.mono hLe

theorem tracks_returnNow :
    Tracks (moving k d) n Whatever returnNow returnNow := by
  refine tracks_returnGate.bind fun n₁ gate gate' _ hGate => ?_
  refine (tracks_setVariable hGate (.literal _)).andThen
    fun _ _ => ?_
  refine tracks_frameNow.bind fun n₂ f f' _ hFrame => ?_
  have hSeal :
      ∀ {n}, Tracks (moving k d) n Whatever
        (onFrame fun f => f.sealPath true)
        (onFrame fun f => f.sealPath true) :=
    tracks_onFrame fun _ _ _ _ h => h.sealPath true
  rw [hFrame.inLoop]
  split
  · have hLoops :=
      IdMoved.list_iff.mpr ⟨hFrame.loops_lt, hFrame.loops⟩
    exact (tracks_breakLoop hLoops).andThen fun _ _ => hSeal
  · exact hSeal

theorem tracks_continueLoop :
    Tracks (moving k d) n Whatever continueLoop
      continueLoop := by
  refine tracks_frameNow.bind fun n₁ f f' _ hFrame => ?_
  rw [hFrame.inLoop]
  split
  · exact tracks_onFrame fun _ _ _ _ h => h.sealPath false
  · intro b b' _ _
    trivial

end FlowGraph.Builder
