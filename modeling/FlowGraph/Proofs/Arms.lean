import FlowGraph.Proofs.Bodies
import FlowGraph.Proofs.Dispatch

/-
  The bodies of a switch.

  The branches of a switch are run one after the other, each
  from its own exec output.  What a body has made is not
  touched by the branches after it, nor by the wiring of the
  aliases.

  Key definitions include:
    * `FlowGraph.Script.Taken`
    * `FlowGraph.Script.ArmsTaken`

  Key theorems include:
    * `FlowGraph.Script.meets_runArms_taken`
    * `FlowGraph.Script.Assembled.within`
-/

------------------------------------------------------------
-- Runs Of Branches
------------------------------------------------------------

namespace FlowGraph.Process

variable {σ α : Type}

/- What a step comes to is what it comes to. -/
theorem meets_self
    (m : Process σ α)
    (s : σ) :
    m.Meets s (fun a s' => m s = (.ok a, s'))
      (fun e s' => m s = (.error e, s')) := by
  unfold Meets
  rcases m s with ⟨e | a, s'⟩
  · rfl
  · rfl

end FlowGraph.Process

namespace FlowGraph.Script

/-
  While branches were run from `s₁` to `s₂`, the body of the
  `j`-th ran from `a` to `b`.  Afterwards only the outputs of
  later branches got links, and no other branch left open
  what is its own.
-/
structure Taken
    (P : Entry → Prop)
    (start : Endpoint)
    (body : Run Unit)
    (s₁ s₂ : Session)
    (branches : List (Option Branch))
    (j : Nat)
    (a b : Session) :
    Prop where
  ready : a.Ready
  ran : body a = (.ok (), b)
  leads : Session.Leads P a.graph.nextId a b
  before : s₁.Later a
  after : b.Later s₂
  tail : a.frame.tail = [start]
  loops : a.frame.loops = s₁.frame.loops
  before_lt : start.node < a.graph.nextId
  links :
    ∀ e, (e.node = start.node → e.index ≤ start.index) →
      e.node < b.graph.nextId →
        s₂.graph.execTarget e = b.graph.execTarget e
  told :
    ∀ d ∈ s₂.journal, d ∈ b.journal ∨
      ∀ e, (e.node = start.node → e.index ≤ start.index) →
        e.node < b.graph.nextId →
          d.graph.execTarget e = b.graph.execTarget e
  listed :
    ∀ e ∈ ownJoin branches,
      a.graph.nextId ≤ e.node ∨ e = start →
        e.node < b.graph.nextId → e ∈ b.frame.tail
  own :
    ∃ br : Branch,
      branches[j]? = some (some br) ∧ br.tail = b.frame.tail

/-
  What the branches of a switch have come to.  The body of
  the `j`-th ran from `a j` to `b j`.
-/
structure ArmsTaken
    (P : Entry → Prop)
    (node first : Nat)
    (arms : List (Arm (Run Unit)))
    (s₁ : Session)
    (branches : List (Option Branch))
    (s₂ : Session)
    (a b : Nat → Session) :
    Prop where
  grown :
    s₁.graph.Extends (outputsFrom node first arms.length)
      s₂.graph
  told :
    ∀ d ∈ s₂.journal, d ∈ s₁.journal ∨
      s₁.graph.Extends (outputsFrom node first arms.length)
        d.graph
  isNew :
    ∀ e ∈ ownJoin branches,
      e ∈ outputsFrom node first arms.length ∨
        s₁.graph.nextId ≤ e.node
  bodies :
    ∀ (j : Nat) body, arms[j]? = some (.body body) →
      Taken P ⟨node, first + j⟩ body s₁ s₂ branches j (a j)
        (b j)
  ordered :
    ∀ (j k : Nat) body body', j < k →
      arms[j]? = some (.body body) →
        arms[k]? = some (.body body') →
          (b j).graph.nextId ≤ (a k).graph.nextId
  empties :
    ∀ j : Nat, arms[j]? = some .empty →
      ∃ br : Branch, branches[j]? = some (some br) ∧
        br.tail = [⟨node, first + j⟩]
  /- What all bodies preserve holds from first to last. -/
  induct :
    ∀ Q : Session → Prop,
      (∀ s tail, Q s → Q (s.withTail tail)) →
        (∀ (j : Nat) body, arms[j]? = some (.body body) →
          Q (a j) → Q (b j)) →
          Q s₁ →
            (∀ (j : Nat) body, arms[j]? = some (.body body) →
              Q (a j)) ∧ Q s₂

variable {P : Entry → Prop}
variable {s s₁ s₂ s₃ : Session} {lo node : Nat}

/- The branches lead to a later session. -/
theorem ArmsTaken.later
    {first : Nat}
    {arms : List (Arm (Run Unit))}
    {branches : List (Option Branch)}
    {a b : Nat → Session}
    (h : ArmsTaken P node first arms s₁ branches s₂ a b) :
    s₁.Later s₂ := by
  refine (h.induct (fun s => s₁.Later s) ?_ ?_ .refl).2
  · intro s tail hLater
    exact hLater.trans (Session.later_withTail s tail)
  · intro j body hArm hLater
    exact hLater.trans (h.bodies j body hArm).leads.later

/- The body of a branch that follows the first one. -/
theorem Taken.cons
    {start : Endpoint}
    {body : Run Unit}
    {branches : List (Option Branch)}
    {j : Nat}
    {a b : Session}
    (h : Taken P start body s₂ s₃ branches j a b)
    (hLater : s₁.Later s₂)
    (hLoops : s₂.frame.loops = s₁.frame.loops)
    {b? : Option Branch}
    (hOther :
      ∀ br, b? = some br → ∀ e ∈ br.tail,
        e.node < s₂.graph.nextId ∧ e ≠ start) :
    Taken P start body s₁ s₃ (b? :: branches) (j + 1) a b := by
  refine ⟨h.ready, h.ran, h.leads, hLater.trans h.before,
    h.after, h.tail, h.loops.trans hLoops, h.before_lt,
    h.links, h.told, ?_, h.own⟩
  intro e he hRange hLt
  rcases mem_ownJoin_cons.mp he with hHead | hRest
  · rcases hHead with ⟨br, hbr, he⟩
    have hOld := hOther br hbr e he
    have hLe : s₂.graph.nextId ≤ a.graph.nextId :=
      h.before.nextId_le
    rcases hRange with hNew | hEq
    · omega
    · exact absurd hEq hOld.2
  · exact h.listed e hRest hRange hLt

/- The first of the branches has a body, which was run. -/
theorem taken_first
    {i : Nat}
    {body : Run Unit}
    {arms : List (Arm (Run Unit))}
    {branches : List (Option Branch)}
    {a b : Nat → Session}
    (hReady : (s₁.withTail [⟨node, i⟩]).Ready)
    (hRan : body (s₁.withTail [⟨node, i⟩]) = (.ok (), s₂))
    (hLeads :
      Session.Leads P s₁.graph.nextId
        (s₁.withTail [⟨node, i⟩]) s₂)
    (hLt : node < s₁.graph.nextId)
    {tail : List Endpoint}
    (hRest :
      ArmsTaken P node (i + 1) arms (s₂.withTail tail)
        branches s₃ a b)
    {br : Branch}
    (hTail : br.tail = s₂.frame.tail) :
    Taken P ⟨node, i⟩ body s₁ s₃ (some br :: branches) 0
      (s₁.withTail [⟨node, i⟩]) s₂ := by
  have hIndexed :
      ∀ e : Endpoint, (e.node = node → e.index ≤ i) →
        e ∉ outputsFrom node (i + 1) arms.length := by
    intro e hIndex hMem
    have hOut := mem_outputsFrom.mp hMem
    have hLe := hIndex hOut.1
    exact Nat.not_succ_le_self i (Nat.le_trans hOut.2.1 hLe)
  have hApart :
      ∀ e : Endpoint,
        s₁.graph.nextId ≤ e.node ∨ e = ⟨node, i⟩ →
          e ∉ outputsFrom node (i + 1) arms.length := by
    intro e hRange
    apply hIndexed e
    intro hNode
    rcases hRange with hNew | hEq
    · omega
    · exact Nat.le_of_eq (congrArg Endpoint.index hEq)
  refine ⟨hReady, hRan, hLeads, Session.later_withTail _ _,
    (Session.later_withTail _ _).trans hRest.later, rfl, rfl,
    hLt, ?_, ?_, ?_, br, rfl, hTail⟩
  · intro e hIndex hOld
    exact hRest.grown.apart hOld (hIndexed e hIndex)
  · intro d hd
    rcases hRest.told d hd with hEarlier | hGrown
    · exact Or.inl hEarlier
    · exact Or.inr fun e hIndex hOld =>
        hGrown.apart hOld (hIndexed e hIndex)
  · intro e he hRange hOld
    rcases mem_ownJoin_cons.mp he with hHead | he
    · rcases hHead with ⟨br', hEq, he⟩
      cases hEq
      rw [← hTail]
      exact he
    · rcases hRest.isNew e he with hOut | hNew
      · exact absurd hOut (hApart e hRange)
      · exact absurd hOld (Nat.not_lt.mpr hNew)

/- One thing at first, the others afterwards. -/
def startingWith
    {α : Type}
    (first : α)
    (rest : Nat → α) :
    Nat → α
  | 0 => first
  | j + 1 => rest j

/- There is nothing to run without branches. -/
theorem armsTaken_nil
    (i : Nat) :
    ArmsTaken P node i [] s₁ [] s₁ (fun _ => s₁)
      (fun _ => s₁) := by
  refine ⟨.refl, fun _ hd => Or.inl hd, ?_, ?_, ?_, ?_, ?_⟩
  · intro e he
    cases he
  · intro j body hArm
    cases hArm
  · intro j k body body' _ hArm
    cases hArm
  · intro j hArm
    cases hArm
  · intro Q _ _ hStart
    refine ⟨?_, hStart⟩
    intro j body hArm
    cases hArm

/- One more branch in front of those that were run. -/
theorem ArmsTaken.cons
    {i : Nat}
    {arm : Arm (Run Unit)}
    {arms : List (Arm (Run Unit))}
    {branches : List (Option Branch)}
    {b? : Option Branch}
    {a b : Nat → Session}
    (hRest :
      ArmsTaken P node (i + 1) arms s₂ branches s₃ a b)
    (a₀ b₀ : Session)
    (hLater : s₁.Later s₂)
    (hLoops : s₂.frame.loops = s₁.frame.loops)
    (hLt : node < s₁.graph.nextId)
    (hGrown : s₁.graph.Extends [⟨node, i⟩] s₂.graph)
    (hTold :
      ∀ d ∈ s₂.journal, d ∈ s₁.journal ∨
        s₁.graph.Extends [⟨node, i⟩] d.graph)
    (hTail :
      ∀ br, b? = some br → ∀ e ∈ br.tail,
        e.node < s₂.graph.nextId ∧
          (e = ⟨node, i⟩ ∨ s₁.graph.nextId ≤ e.node))
    (hBody :
      ∀ body, arm = .body body →
        Taken P ⟨node, i⟩ body s₁ s₃ (b? :: branches) 0 a₀
          b₀ ∧
          b₀.graph.nextId ≤ s₂.graph.nextId)
    (hEmpty :
      arm = .empty →
        ∃ br, b? = some br ∧ br.tail = [⟨node, i⟩])
    (hInduct :
      ∀ Q : Session → Prop,
        (∀ s tail, Q s → Q (s.withTail tail)) →
          ((∃ body, arm = .body body) → Q a₀ → Q b₀) →
            Q s₁ →
              ((∃ body, arm = .body body) → Q a₀) ∧ Q s₂) :
    ArmsTaken P node i (arm :: arms) s₁ (b? :: branches) s₃
      (startingWith a₀ a) (startingWith b₀ b) := by
  have hLe : s₁.graph.nextId ≤ s₂.graph.nextId :=
    hLater.nextId_le
  have hShift : ∀ j, i + (j + 1) = i + 1 + j := by
    intro j
    omega
  refine ⟨hGrown.trans hRest.grown, ?_, ?_, ?_, ?_, ?_, ?_⟩
  · intro d hd
    rcases hRest.told d hd with hEarlier | hLaterOn
    · rcases hTold d hEarlier with hOld | hFirst
      · exact Or.inl hOld
      · refine Or.inr (hFirst.mono ?_)
        intro e he
        rw [List.mem_singleton.mp he]
        exact List.mem_cons_self
    · exact Or.inr (hGrown.trans hLaterOn)
  · intro e he
    rcases mem_ownJoin_cons.mp he with hHead | he
    · rcases hHead with ⟨br, hbr, he⟩
      rcases (hTail br hbr e he).2 with hEq | hNew
      · rw [hEq]
        exact Or.inl List.mem_cons_self
      · exact Or.inr hNew
    · rcases hRest.isNew e he with hOut | hNew
      · exact Or.inl (List.mem_cons_of_mem _ hOut)
      · exact Or.inr (by omega)
  · intro j body hArm
    cases j with
    | zero => exact (hBody body (Option.some.inj hArm)).1
    | succ j =>
        rw [hShift]
        apply (hRest.bodies j body hArm).cons hLater hLoops
        intro br hbr e he
        have hOwn := hTail br hbr e he
        refine ⟨hOwn.1, ?_⟩
        intro hEq
        rw [hEq] at hOwn
        rcases hOwn.2 with hSame | hNew
        · injection hSame with _ hIndex
          omega
        · exact Nat.not_lt.mpr hNew hLt
  · intro j k body body' hLess hj hk
    cases k with
    | zero => exact absurd hLess (Nat.not_lt_zero j)
    | succ k =>
        cases j with
        | zero =>
            have hFirst :=
              (hBody body (Option.some.inj hj)).2
            exact Nat.le_trans hFirst
              (hRest.bodies k body' hk).before.nextId_le
        | succ j =>
            exact hRest.ordered j k body body'
              (Nat.lt_of_succ_lt_succ hLess) hj hk
  · intro j hArm
    cases j with
    | zero =>
        rcases hEmpty (Option.some.inj hArm) with
          ⟨br, hbr, hTail⟩
        exact ⟨br, congrArg some hbr, hTail⟩
    | succ j =>
        rw [hShift]
        exact hRest.empties j hArm
  · intro Q hCursor hBodies hStart
    have hFirst :=
      hInduct Q hCursor
        (fun hArm hQ => by
          rcases hArm with ⟨body, hArm⟩
          rw [hArm] at hBodies
          exact hBodies 0 body rfl hQ) hStart
    have hOthers :=
      hRest.induct Q hCursor
        (fun j body hArm => hBodies (j + 1) body hArm)
        hFirst.2
    refine ⟨?_, hOthers.2⟩
    intro j body hArm
    cases j with
    | zero => exact hFirst.1 ⟨body, Option.some.inj hArm⟩
    | succ j => exact hOthers.1 j body hArm

/- A branch without a body, in front of the others. -/
theorem ArmsTaken.skip
    {i : Nat}
    {arm : Arm (Run Unit)}
    {arms : List (Arm (Run Unit))}
    {branches : List (Option Branch)}
    {b? : Option Branch}
    {a b : Nat → Session}
    (hRest :
      ArmsTaken P node (i + 1) arms s₂ branches s₃ a b)
    (hLt : node < s₂.graph.nextId)
    (hNone : arm.body? = none)
    (hTail :
      ∀ br, b? = some br → br.tail = [⟨node, i⟩])
    (hEmpty : arm = .empty → b?.isSome = true) :
    ArmsTaken P node i (arm :: arms) s₂ (b? :: branches) s₃
      (startingWith s₂ a) (startingWith s₂ b) := by
  have hNot : ∀ body, arm ≠ .body body := by
    intro body hEq
    rw [hEq] at hNone
    cases hNone
  refine hRest.cons s₂ s₂ .refl rfl hLt .refl
    (fun _ hd => Or.inl hd) ?_ ?_ ?_ ?_
  · intro br hbr e he
    rw [hTail br hbr] at he
    rw [List.mem_singleton.mp he]
    exact ⟨hLt, Or.inl rfl⟩
  · intro body hEq
    exact absurd hEq (hNot body)
  · intro hEq
    rcases Option.isSome_iff_exists.mp (hEmpty hEq) with
      ⟨br, hbr⟩
    exact ⟨br, hbr, hTail br hbr⟩
  · intro Q _ _ hStart
    exact ⟨fun ⟨body, hEq⟩ => absurd hEq (hNot body), hStart⟩

/- A branch with a body, in front of the others. -/
theorem ArmsTaken.enter
    {i : Nat}
    {body : Run Unit}
    {arms : List (Arm (Run Unit))}
    {branches : List (Option Branch)}
    {a b : Nat → Session}
    {tail : List Endpoint}
    {br : Branch}
    (hRest :
      ArmsTaken P node (i + 1) arms (s₂.withTail tail)
        branches s₃ a b)
    (hReady : (s₁.withTail [⟨node, i⟩]).Ready)
    (hRan : body (s₁.withTail [⟨node, i⟩]) = (.ok (), s₂))
    (hLeads :
      Session.Leads P s₁.graph.nextId
        (s₁.withTail [⟨node, i⟩]) s₂)
    (hLt : node < s₁.graph.nextId)
    (hTail : br.tail = s₂.frame.tail) :
    ArmsTaken P node i (.body body :: arms) s₁
      (some br :: branches) s₃
      (startingWith (s₁.withTail [⟨node, i⟩]) a)
      (startingWith s₂ b) := by
  have hLater :=
    (Session.later_withTail s₁ [⟨node, i⟩]).trans
      (hLeads.later.trans (Session.later_withTail s₂ tail))
  refine hRest.cons _ s₂ hLater hLeads.builder.loops hLt
    hLeads.builder.advance.grows.extends ?_ ?_ ?_ ?_ ?_
  · intro d hd
    rcases hLeads.journal with ⟨news, hNews, hHistory⟩
    rw [Session.withTail_journal, hNews] at hd
    rcases List.mem_append.mp hd with hNew | hOld
    · exact Or.inr (hHistory.grows d hNew).extends
    · exact Or.inl hOld
  · intro br' hbr e he
    cases hbr
    rw [hTail] at he
    have hMem := hLeads.mem_tail he
    refine ⟨hMem.2, ?_⟩
    rcases hMem.1 with hNew | hOld
    · exact Or.inr hNew
    · exact Or.inl (List.mem_singleton.mp hOld)
  · intro body' hEq
    cases hEq
    exact ⟨taken_first hReady hRan hLeads hLt hRest hTail,
      Nat.le_refl _⟩
  · intro hEq
    cases hEq
  · intro Q hCursor hBody hQ
    have hEntered := hCursor s₁ [⟨node, i⟩] hQ
    exact ⟨fun _ => hEntered,
      hCursor s₂ _ (hBody ⟨body, rfl⟩ hEntered)⟩

/- The branches of a switch are run, one after the other. -/
theorem meets_runArms_taken
    {arms : List (Arm (Run Unit))}
    {i : Nat}
    {pre : List Endpoint}
    (hBodies :
      ∀ arm ∈ arms, ∀ body, arm.body? = some body →
        Sound P body)
    (hBelow : node < lo)
    (h :
      Session.Spread P lo s s₁
        (pre ++ outputsFrom node i arms.length)) :
    (runArms node i arms).Meets s₁
      (fun branches s₂ =>
        ∃ a b, ArmsTaken P node i arms s₁ branches s₂ a b)
      (fun _ _ => True) := by
  induction arms generalizing i s₁ pre with
  | nil =>
      exact ⟨_, _, armsTaken_nil i⟩
  | cons arm rest ih =>
      have hRest :
          ∀ arm ∈ rest, ∀ body, arm.body? = some body →
            Sound P body :=
        fun arm hArm => hBodies arm (List.mem_cons_of_mem _ hArm)
      have hStart :
          (⟨node, i⟩ : Endpoint) ∈
            pre ++ outputsFrom node i (rest.length + 1) := by
        simp [outputsFrom]
      have hLt : node < s₁.graph.nextId :=
        Nat.lt_of_lt_of_le hBelow h.lo_le
      -- A branch without a body leaves its output open.
      have hSame :
          Session.Spread P lo s s₁
            ((pre ++ [⟨node, i⟩]) ++
              outputsFrom node (i + 1) rest.length) := by
        simpa [outputsFrom] using h
      unfold runArms
      rw [Process.meets_bind]
      cases arm with
      | body body =>
          simp only [runArm, Process.meets_bind,
            Process.meets_pure]
          rw [meets_inBranch]
          have hReady := h.ready hStart
          refine ((hBodies _ List.mem_cons_self body rfl _
            hReady).and (Process.meets_self body _)).mono ?_
              fun _ _ _ => trivial
          intro _ s₂ hRun
          rcases hRun with ⟨hLeads, hRan⟩
          have hSpread :
              Session.Spread P lo s
                (s₂.withTail s₁.frame.tail) _ :=
            h.focus hStart hBelow hLeads
          refine (ih hRest (hSpread.next h.cursor.nodup)).mono
            ?_ fun _ _ _ => trivial
          intro bs s₃ hTaken
          rcases hTaken with ⟨a, b, hTaken⟩
          exact ⟨_, _,
            hTaken.enter hReady hRan hLeads hLt rfl⟩
      | empty =>
          simp only [runArm, Process.meets_bind,
            Process.meets_pure]
          refine (ih hRest hSame).mono ?_ fun _ _ _ => trivial
          intro bs s₃ hTaken
          rcases hTaken with ⟨a, b, hTaken⟩
          refine ⟨_, _, hTaken.skip hLt rfl ?_ fun _ => rfl⟩
          intro br hbr
          cases hbr
          rfl
      | «alias» k =>
          simp only [runArm, Process.meets_bind,
            Process.meets_pure]
          refine (ih hRest hSame).mono ?_ fun _ _ _ => trivial
          intro bs s₃ hTaken
          rcases hTaken with ⟨a, b, hTaken⟩
          refine ⟨_, _, hTaken.skip hLt rfl ?_ ?_⟩
          · intro br hbr
            cases hbr
          · intro hEq
            cases hEq

end FlowGraph.Script

------------------------------------------------------------
-- Complete Switches
------------------------------------------------------------

namespace FlowGraph.Script

variable {P : Entry → Prop}
variable {s s₁ s₂ : Session} {node first : Nat}
variable {control : Value} {sw : Switch (Run Unit)}
variable {branches : List (Option Branch)}
variable {join : List Endpoint}
variable {a b : Nat → Session}

/- What is new to a body or its own start comes in time. -/
theorem Taken.index_le
    {start : Endpoint}
    {body : Run Unit}
    {j : Nat}
    {a b : Session}
    (h : Taken P start body s₁ s₂ branches j a b)
    {e : Endpoint}
    (hRange : a.graph.nextId ≤ e.node ∨ e = start) :
    e.node = start.node → e.index ≤ start.index := by
  intro hNode
  rcases hRange with hNew | hEq
  · have hLt := h.before_lt
    omega
  · exact Nat.le_of_eq (congrArg Endpoint.index hEq)

/- An output without a body stays without a link. -/
theorem ArmsTaken.unlinked
    {arms : List (Arm (Run Unit))}
    (h : ArmsTaken P node first arms s₁ branches s₂ a b)
    {k : Nat}
    (hArm : ∀ body, arms[k]? ≠ some (.body body))
    (hNone : s₁.graph.execTarget ⟨node, first + k⟩ = none) :
    s₂.graph.execTarget ⟨node, first + k⟩ = none := by
  refine (h.induct
    (fun s => s.graph.execTarget ⟨node, first + k⟩ = none)
    (fun _ _ hNone => hNone) ?_ hNone).2
  intro j body hBody hNone
  have hTaken := h.bodies j body hBody
  have hApart :
      (⟨node, first + k⟩ : Endpoint) ∉
        (a j).frame.tail := by
    rw [hTaken.tail]
    intro hMem
    have hEq := List.mem_singleton.mp hMem
    have hIndex : k = j := by
      injection hEq with _ hIndex
      omega
    rw [hIndex] at hArm
    exact hArm body hBody
  have hKept :
      (b j).graph.execTarget ⟨node, first + k⟩ =
        (a j).graph.execTarget ⟨node, first + k⟩ :=
    hTaken.leads.builder.advance.grows.apart
      hTaken.before_lt hApart
  exact hKept.trans hNone

/- Links alone lead to a later session. -/
theorem Session.later_sameNodes
    {b : Builder}
    (h : s.builder.SameNodes b) :
    s.Later (s.withBuilder b) := by
  refine ⟨?_, Nat.le_of_eq h.nextId.symm,
    Nat.le_of_eq (congrArg Frame.returns h.frame.symm),
    fun v hv => (congrArg Frame.gate h.frame).trans hv,
    fun v hv =>
      Or.inl ((congrArg Frame.gate h.frame.symm).trans hv),
    List.suffix_refl _⟩
  intro id n hNode
  show b.graph.nodes.get? id = some n
  rw [h.nodes]
  exact hNode

/- Wiring the aliases leads to a later session. -/
theorem Assembled.later
    (h : Assembled P control sw s branches s₁ join s₂) :
    s₁.Later (s₂.withTail join) := by
  rcases h.same with ⟨b, hSame, hEq⟩
  rw [hEq]
  exact (Session.later_sameNodes hSame).trans
    (Session.later_withTail _ join)

theorem Assembled.journal
    (h : Assembled P control sw s branches s₁ join s₂) :
    s₂.journal = s₁.journal := by
  rcases h.same with ⟨b, _, hEq⟩
  rw [hEq]
  rfl

/- A switch grows from its own exec outputs. -/
theorem Assembled.extends
    (h : Assembled P control sw s branches s₁ join s₂) :
    (s.placed (switchNode control sw)).graph.Extends
      (outputsFrom s.graph.nextId 0 sw.arms.length)
      s₂.graph := by
  rcases h.wired with ⟨targets, tail', _, hWired⟩
  have hLe : s₁.graph.nextId ≤ s₂.graph.nextId :=
    h.later.nextId_le
  have hWiring :
      s₁.graph.Extends
        (outputsFrom s.graph.nextId 0 sw.arms.length)
        s₂.graph := by
    refine ⟨fun hNode => h.later.nodes hNode, hLe, ?_⟩
    intro e _ hNot
    apply hWired.apart
    intro index head hLinked hEq
    rcases hLinked with ⟨_, _, hAlias, _⟩
    have hLt :=
      (List.getElem?_eq_some_iff.mp (aliasOf_zip hAlias).1).1
    rw [h.ran.length] at hLt
    apply hNot
    rw [hEq, mem_outputsFrom, Nat.zero_add]
    exact ⟨rfl, Nat.zero_le _, hLt⟩
  apply (h.extended.trans hWiring).mono
  intro e he
  rcases List.mem_append.mp he with he | he
  · exact he
  · exact he

/- The body of a branch, once the switch is complete. -/
theorem Assembled.within
    (h : Assembled P control sw s branches s₁ join s₂)
    (hReady : s.Ready)
    {body : Run Unit}
    {j : Nat}
    {a b : Session}
    (hTaken :
      Taken P ⟨s.graph.nextId, j⟩ body
        (s.placed (switchNode control sw)) s₁ branches j a
        b) :
    Session.Within s (s₂.withTail join) a b ∧
      ∀ e ∈ b.frame.tail, e ∈ join := by
  rcases h.wired with ⟨targets, tail', _, hWired⟩
  rcases hTaken.own with ⟨br, hbr, hOwn⟩
  have hLt : s.graph.nextId < a.graph.nextId :=
    hTaken.before_lt
  have hRange :
      ∀ e, a.graph.nextId ≤ e.node ∨ e ∈ a.frame.tail →
        a.graph.nextId ≤ e.node ∨
          e = ⟨s.graph.nextId, j⟩ := by
    intro e he
    rw [hTaken.tail] at he
    exact he.imp_right List.mem_singleton.mp
  -- The exec output of an alias is not of this body.
  have hOther :
      ∀ (e : Endpoint) (i : Nat),
        a.graph.nextId ≤ e.node ∨
            e = ⟨s.graph.nextId, j⟩ →
          branches[i]? = some none →
            e ≠ ⟨s.graph.nextId, i⟩ := by
    intro e i hRange hNone hEq
    rw [hEq] at hRange
    rcases hRange with hNew | hSame
    · exact Nat.not_lt.mpr hNew hLt
    · injection hSame with _ hIndex
      rw [hIndex, hbr] at hNone
      cases hNone
  have hJoined : ∀ e ∈ b.frame.tail, e ∈ join := by
    intro e he
    rw [← hOwn] at he
    exact (hWired.joined e).mpr
      (Or.inl (mem_ownJoin.mpr ⟨j, br, hbr, he⟩))
  refine ⟨⟨(Session.later_placed hReady rfl).trans
      hTaken.before, hTaken.after.trans h.later, ?_, ?_, ?_,
    ?_, Or.inl hJoined⟩, hJoined⟩
  · intro e he
    rw [hTaken.tail] at he
    exact Graph.node_le_of_mem_singleton he
  · intro e he hOld
    have hKept :
        s₂.graph.execTarget e = s₁.graph.execTarget e := by
      apply hWired.apart
      intro index head hLinked
      rcases hLinked with ⟨_, _, hAlias, _⟩
      exact hOther e index (hRange e he) (aliasOf_zip hAlias).1
    exact hKept.trans
      (hTaken.links e (hTaken.index_le (hRange e he)) hOld)
  · intro d hd
    rw [Session.withTail_journal, h.journal] at hd
    rcases hTaken.told d hd with hOwn | hLater
    · exact Or.inl hOwn
    · exact Or.inr fun e he =>
        hLater e (hTaken.index_le (hRange e he))
  · intro e he hOld hMem
    rcases hWired.mem_join hMem with hOwn | hAlias
    · exact hTaken.listed e hOwn (hRange e he) hOld
    · rcases hAlias with ⟨i, hNone, hEq⟩
      exact absurd hEq (hOther e i (hRange e he) hNone)

/- The graph stays in form while the branches are run. -/
theorem ArmsTaken.wf
    {arms : List (Arm (Run Unit))}
    (h : ArmsTaken P node first arms s₁ branches s₂ a b)
    (hWf : s₁.graph.Wf) :
    s₂.graph.Wf := by
  refine (h.induct (fun s => s.graph.Wf)
    (fun _ _ hWf => hWf) ?_ hWf).2
  intro j body hArm _
  exact (h.bodies j body hArm).leads.ready.builder.wf

/- Links to what a body has made were there at its end. -/
theorem ArmsTaken.old_link
    {arms : List (Arm (Run Unit))}
    (h : ArmsTaken P node 0 arms s₁ branches s₂ a b)
    (hWf : s₁.graph.Wf)
    (hOpen : ∀ k, s₁.graph.execTarget ⟨node, k⟩ = none)
    (hFresh :
      ∀ (j : Nat) body, arms[j]? = some (.body body) →
        (a j).Fresh (b j))
    {j : Nat}
    {body : Run Unit}
    (hArm : arms[j]? = some (.body body))
    {e : Endpoint}
    {t : Nat}
    (hLink : s₂.graph.execTarget e = some t)
    (hLt : t < (b j).graph.nextId) :
    (b j).graph.execTarget e = some t := by
  have hAscends : e.node < t := (h.wf hWf).ascends hLink
  have hTaken := h.bodies j body hArm
  rw [Nat.zero_add] at hTaken
  by_cases hIndex : e.node = node → e.index ≤ j
  · rw [← hLink]
    exact (hTaken.links e hIndex
      (Nat.lt_trans hAscends hLt)).symm
  · -- A later branch has made the link, to a newer node.
    rcases Classical.not_imp.mp hIndex with ⟨hNode, hLess⟩
    rw [show e = ⟨node, e.index⟩ by rw [← hNode]] at hLink
    by_cases hLater :
        ∃ other, arms[e.index]? = some (.body other)
    · rcases hLater with ⟨other, hOther⟩
      have hRan := h.bodies e.index other hOther
      rw [Nat.zero_add] at hRan
      have hStart :
          (⟨node, e.index⟩ : Endpoint) ∈
            (a e.index).frame.tail := by
        rw [hRan.tail]
        exact List.mem_singleton_self _
      rw [hRan.links _ (fun _ => Nat.le_refl _)
        (Nat.lt_of_lt_of_le hRan.before_lt
          hRan.leads.nextId_le)] at hLink
      have hNew :=
        hFresh e.index other hOther _ hStart t hLink
      have hOrder :=
        h.ordered j e.index body other
          (Nat.lt_of_not_le hLess) hArm hOther
      omega
    · have hNone :=
        h.unlinked (fun other hOther => hLater ⟨other, hOther⟩)
          (hOpen (0 + e.index))
      rw [Nat.zero_add, hLink] at hNone
      cases hNone

/- A complete switch shares the nodes of its bodies. -/
theorem Assembled.shares
    (h : Assembled P control sw s branches s₁ join s₂)
    (hReady : s.Ready)
    (hArms :
      ArmsTaken P s.graph.nextId 0 sw.arms
        (s.placed (switchNode control sw)) branches s₁ a b)
    (hFresh :
      ∀ (j : Nat) body, sw.arms[j]? = some (.body body) →
        (a j).Fresh (b j))
    {j : Nat}
    {body : Run Unit}
    (hArm : sw.arms[j]? = some (.body body)) :
    (a j).Shares (b j) s₂.graph := by
  rcases h.wired with ⟨targets, tail', _, hWired⟩
  have hTaken := hArms.bodies j body hArm
  have hBefore : s.graph.nextId < (a j).graph.nextId :=
    hTaken.before_lt
  have hPlaced :=
    Builder.advances_placed (n := switchNode control sw)
      hReady.builder rfl
  have hOpen :
      ∀ k, (s.placed (switchNode control sw)).graph.execTarget
        ⟨s.graph.nextId, k⟩ = none := by
    intro k
    refine (Graph.execTarget_attach_of_not_mem ?_).trans
      (hReady.builder.wf.execTarget_fresh (Nat.le_refl _))
    intro hMem
    exact Nat.lt_irrefl _ (hReady.builder.tail_lt hMem)
  have hOld :
      ∀ e t, s₁.graph.execTarget e = some t →
        t < (b j).graph.nextId →
          (b j).graph.execTarget e = some t := by
    intro e t hLink hLt
    exact hArms.old_link hPlaced.ready.wf hOpen hFresh hArm
      hLink hLt
  intro e t hLink hLt
  by_cases hAlias :
      ∃ index head,
        Linked branches 0
            (branches.zip (targets.map sw.index)) index
            head ∧
          e = ⟨s.graph.nextId, index⟩
  · rcases hAlias with ⟨index, head, hLinked, hEq⟩
    rw [hEq, hWired.linked index head hLinked] at hLink
    cases hLink
    rcases hLinked with ⟨target, shared, hAlias, hHead⟩
    rw [(h.ran.own hAlias.shared).1] at hHead
    rw [hEq]
    exact Or.inr ⟨hBefore, ⟨s.graph.nextId, target⟩, hBefore,
      hOld _ t hHead hLt⟩
  · left
    apply hOld e t ?_ hLt
    rw [← hLink]
    refine (hWired.apart e ?_).symm
    intro index head hLinked hEq
    exact hAlias ⟨index, head, hLinked, hEq⟩

end FlowGraph.Script
