import FlowGraph.Proofs.Branches
import FlowGraph.Proofs.Structured

/-
  Branches of a switch.

  The bodies of a switch are run one after the other, each
  from its own exec output.  Then the aliases are wired, and
  the flow goes on from the join.

  Key definitions include:
    * `FlowGraph.Script.ArmRan`
    * `FlowGraph.Script.spreadTail`
    * `FlowGraph.Script.AliasOf`

  Key theorems include:
    * `FlowGraph.Script.meets_runArms`
    * `FlowGraph.Script.meets_wireAliases`
-/

------------------------------------------------------------
-- Growth At Several Endpoints
------------------------------------------------------------

namespace FlowGraph.Graph

/- A graph has grown, perhaps at the listed endpoints. -/
structure Extends
    (g : Graph)
    (tail : List Endpoint)
    (g' : Graph) :
    Prop where
  nodes :
    ∀ {id n}, g.nodes.get? id = some n →
      g'.nodes.get? id = some n
  nextId_le : g.nextId ≤ g'.nextId
  apart :
    ∀ {e}, e.node < g.nextId → e ∉ tail →
      g'.execTarget e = g.execTarget e

variable {g g₁ g₂ : Graph}
variable {tail tail' : List Endpoint}

theorem Extends.refl :
    g.Extends tail g :=
  ⟨id, Nat.le_refl _, fun _ _ => rfl⟩

theorem Grows.extends
    (h : g.Grows tail g₁) :
    g.Extends tail g₁ :=
  ⟨h.nodes, h.nextId_le, h.apart⟩

theorem Extends.trans
    (h₁ : g.Extends tail g₁)
    (h₂ : g₁.Extends tail' g₂) :
    g.Extends (tail ++ tail') g₂ := by
  have hLe := h₁.nextId_le
  refine ⟨fun h => h₂.nodes (h₁.nodes h),
    Nat.le_trans hLe h₂.nextId_le, ?_⟩
  intro e hLt hNot
  rw [List.mem_append, not_or] at hNot
  rw [h₂.apart (by omega) hNot.2, h₁.apart hLt hNot.1]

theorem Extends.mono
    (h : g.Extends tail g₁)
    (hSub : ∀ e ∈ tail, e ∈ tail') :
    g.Extends tail' g₁ :=
  ⟨h.nodes, h.nextId_le,
    fun hLt hNot => h.apart hLt fun he => hNot (hSub _ he)⟩

end FlowGraph.Graph

------------------------------------------------------------
-- Bodies
------------------------------------------------------------

namespace FlowGraph.Script

/-
  What running a branch of a switch has come to.  An alias
  was left out; any other branch has a first node and open
  outputs, which are its own output or new.
-/
def ArmRan
    (lo : Nat)
    (g : Graph)
    (start : Endpoint)
    (arm : Arm (Run Unit))
    (b? : Option Branch) :
    Prop :=
  match arm, b? with
  | .alias _, none => True
  | .body _, some b | .empty, some b =>
      b.head = g.execTarget start ∧
        ∀ e ∈ b.tail, e = start ∨ lo ≤ e.node
  | _, _ => False

/- What running all branches has come to. -/
structure ArmsRan
    (lo : Nat)
    (g : Graph)
    (node first : Nat)
    (arms : List (Arm (Run Unit)))
    (branches : List (Option Branch)) :
    Prop where
  length : branches.length = arms.length
  each :
    ∀ (j : Nat) arm b?, arms[j]? = some arm →
      branches[j]? = some b? →
        ArmRan lo g ⟨node, first + j⟩ arm b?

/-
  What the branches leave open: their own open outputs, and
  for each alias its exec output.
-/
def spreadTail
    (node : Nat) :
    Nat → List (Option Branch) → List Endpoint
  | _, [] => []
  | i, some b :: rest => b.tail ++ spreadTail node (i + 1) rest
  | i, none :: rest =>
      ⟨node, i⟩ :: spreadTail node (i + 1) rest

variable {P : Entry → Prop}
variable {lo node : Nat} {s s₁ : Session}

theorem mem_spreadTail
    {first : Nat}
    {branches : List (Option Branch)}
    {e : Endpoint} :
    e ∈ spreadTail node first branches ↔
      (∃ (j : Nat) (b : Branch),
        branches[j]? = some (some b) ∧ e ∈ b.tail) ∨
      ∃ j : Nat, branches[j]? = some none ∧
        e = ⟨node, first + j⟩ := by
  induction branches generalizing first with
  | nil =>
      simp [spreadTail]
  | cons b? rest ih =>
      have hSplit :
          ∀ P : Nat → Prop,
            (∃ j, P j) ↔ P 0 ∨ ∃ j, P (j + 1) := by
        intro P
        constructor
        · rintro ⟨j, hj⟩
          cases j with
          | zero => exact Or.inl hj
          | succ j => exact Or.inr ⟨j, hj⟩
        · rintro (h | ⟨j, hj⟩)
          · exact ⟨0, h⟩
          · exact ⟨j + 1, hj⟩
      rw [hSplit, hSplit fun j => _ ∧ _]
      simp only [List.getElem?_cons_zero,
        List.getElem?_cons_succ, Option.some.injEq,
        Nat.add_zero, ← Nat.add_assoc,
        Nat.add_right_comm first _ 1]
      cases b? with
      | none =>
          simp only [spreadTail, List.mem_cons, ih]
          constructor
          · rintro (hEq | hOwn | hAlias)
            · exact Or.inr (Or.inl ⟨trivial, hEq⟩)
            · exact Or.inl (Or.inr hOwn)
            · exact Or.inr (Or.inr hAlias)
          · rintro ((⟨b, hb, _⟩ | hOwn) | ⟨_, hEq⟩ | hAlias)
            · cases hb
            · exact Or.inr (Or.inl hOwn)
            · exact Or.inl hEq
            · exact Or.inr (Or.inr hAlias)
      | some b =>
          simp only [spreadTail, List.mem_append, ih]
          constructor
          · rintro (hMem | hOwn | hAlias)
            · exact Or.inl (Or.inl ⟨b, rfl, hMem⟩)
            · exact Or.inl (Or.inr hOwn)
            · exact Or.inr (Or.inr hAlias)
          · rintro ((⟨b, hb, hMem⟩ | hOwn) | ⟨hb, _⟩ | hAlias)
            · cases hb
              exact Or.inl hMem
            · exact Or.inr (Or.inl hOwn)
            · cases hb
            · exact Or.inr (Or.inr hAlias)

/- One more branch in front of those that have been run. -/
theorem ArmsRan.cons
    {g : Graph}
    {i : Nat}
    {arm : Arm (Run Unit)}
    {arms : List (Arm (Run Unit))}
    {b? : Option Branch}
    {branches : List (Option Branch)}
    (hHead : ArmRan lo g ⟨node, i⟩ arm b?)
    (hRest : ArmsRan lo g node (i + 1) arms branches) :
    ArmsRan lo g node i (arm :: arms) (b? :: branches) := by
  refine ⟨by simp [hRest.length], ?_⟩
  intro j
  cases j with
  | zero =>
      intro a c ha hc
      cases ha
      cases hc
      exact hHead
  | succ j =>
      intro a c ha hc
      have hEq : i + (j + 1) = i + 1 + j := by omega
      rw [hEq]
      exact hRest.each j a c ha hc

/- The rest of the branches leaves a first one alone. -/
theorem execTarget_of_extends
    {g g' : Graph}
    {i k : Nat}
    (h : g.Extends (outputsFrom node (i + 1) k) g')
    (hLt : node < g.nextId) :
    g'.execTarget ⟨node, i⟩ = g.execTarget ⟨node, i⟩ := by
  refine h.apart hLt ?_
  rw [mem_outputsFrom]
  rintro ⟨_, hLe, _⟩
  exact Nat.not_succ_le_self i hLe

/-
  The flow is spread over `pre` and the outputs of branches
  still to be run.  The first of these has been run, and the
  flow goes on with the others.
-/
theorem Session.Spread.next
    {i k : Nat}
    {pre tail : List Endpoint}
    (h :
      Session.Spread P lo s s₁
        ((pre ++ outputsFrom node i (k + 1)).erase ⟨node, i⟩
          ++ tail))
    (hNodup : (pre ++ outputsFrom node i (k + 1)).Nodup) :
    Session.Spread P lo s s₁
      ((pre ++ tail) ++ outputsFrom node (i + 1) k) := by
  rw [outputsFrom, List.nodup_append] at hNodup
  have hNot : (⟨node, i⟩ : Endpoint) ∉ pre :=
    fun hMem => hNodup.2.2 _ hMem _ List.mem_cons_self rfl
  rw [outputsFrom, List.erase_append_right _ hNot,
    List.erase_cons_head] at h
  apply h.perm
  rw [List.append_assoc, List.append_assoc]
  exact List.perm_append_comm.append_left pre

/-
  Running the branches of a switch.  The flow is spread over
  `pre` and the outputs of the branches still to be run.
-/
theorem meets_runArms
    {arms : List (Arm (Run Unit))}
    {i : Nat}
    {pre : List Endpoint}
    (hBodies :
      ∀ arm ∈ arms, ∀ body, arm.body? = some body →
        Sound P body)
    (hBelow : node < lo)
    (h :
      Session.Spread P lo s s₁
        (pre ++ outputsFrom node i arms.length)) :
    (runArms node i arms).Meets s₁
      (fun branches s₂ =>
        Session.Spread P lo s s₂
            (pre ++ spreadTail node i branches) ∧
          ArmsRan lo s₂.graph node i arms branches ∧
          s₁.graph.Extends (outputsFrom node i arms.length)
            s₂.graph)
      s.Refuses := by
  induction arms generalizing i s₁ pre with
  | nil =>
      refine ⟨h, ⟨rfl, ?_⟩, .refl⟩
      intro j arm b? hArm
      cases hArm
  | cons arm rest ih =>
      have hRest :
          ∀ arm ∈ rest, ∀ body, arm.body? = some body →
            Sound P body :=
        fun arm hArm => hBodies arm (List.mem_cons_of_mem _ hArm)
      have hStart :
          (⟨node, i⟩ : Endpoint) ∈
            pre ++ outputsFrom node i (rest.length + 1) := by
        simp [outputsFrom]
      have hOpen := h.cursor.isOpen _ hStart
      have hLt : node < s₁.graph.nextId :=
        Nat.lt_of_lt_of_le hBelow h.lo_le
      have hSub :
          ∀ e ∈ outputsFrom node (i + 1) rest.length,
            e ∈ outputsFrom node i (rest.length + 1) :=
        fun e he => List.mem_cons_of_mem _ he
      -- A branch without a body leaves its output open.
      have hSame :
          Session.Spread P lo s s₁
            ((pre ++ [⟨node, i⟩]) ++
              outputsFrom node (i + 1) rest.length) := by
        simpa [outputsFrom] using h
      unfold runArms
      rw [Process.meets_bind]
      cases arm with
      | body body =>
          simp only [runArm, Process.meets_bind,
            Process.meets_pure]
          refine (Sound.inBranch
            (hBodies _ List.mem_cons_self body rfl) h hStart
            hBelow).mono ?_ fun _ _ he => he
          rintro b s₂ ⟨hSpread, hRan⟩
          refine (ih hRest (hSpread.next h.cursor.nodup)).mono
            ?_ fun _ _ he => he
          rintro bs s₃ ⟨hSpread', hArms, hExtends⟩
          have hLt₂ : node < s₂.graph.nextId :=
            Nat.lt_of_lt_of_le hLt hRan.grows.nextId_le
          refine ⟨?_, hArms.cons ⟨?_, ?_⟩, ?_⟩
          · simpa [spreadTail] using hSpread'
          · rw [execTarget_of_extends hExtends hLt₂]
            exact hRan.head
          · intro e he
            rcases hRan.tail e he with hEq | hGe
            · exact Or.inl hEq
            · exact Or.inr (Nat.le_trans h.lo_le hGe)
          · exact hRan.grows.extends.trans hExtends
      | empty =>
          simp only [runArm, Process.meets_bind,
            Process.meets_pure]
          refine (ih hRest hSame).mono ?_ fun _ _ he => he
          rintro bs s₂ ⟨hSpread, hArms, hExtends⟩
          refine ⟨?_, hArms.cons ⟨?_, ?_⟩,
            hExtends.mono hSub⟩
          · simpa [spreadTail] using hSpread
          · rw [execTarget_of_extends hExtends hLt]
            exact hOpen.2.symm
          · intro e he
            exact Or.inl (List.mem_singleton.mp he)
      | «alias» k =>
          simp only [runArm, Process.meets_bind,
            Process.meets_pure]
          refine (ih hRest hSame).mono ?_ fun _ _ he => he
          rintro bs s₂ ⟨hSpread, hArms, hExtends⟩
          refine ⟨?_, hArms.cons trivial,
            hExtends.mono hSub⟩
          simpa [spreadTail] using hSpread

end FlowGraph.Script

------------------------------------------------------------
-- Aliases
------------------------------------------------------------

namespace FlowGraph.Script

/- The outputs that an alias shares, its own among them. -/
def redirect
    (node index target : Nat)
    (tail : List Endpoint) :
    List Endpoint :=
  tail.map fun e =>
    if e = ⟨node, target⟩ then ⟨node, index⟩ else e

/-
  The branch at `index` is an alias of the branch at
  `target`, of which `shared` is what became.
-/
structure AliasOf
    (branches : List (Option Branch))
    (first : Nat)
    (resolved : List (Option Branch × Nat))
    (index target : Nat)
    (shared : Branch) :
    Prop where
  le : first ≤ index
  entry : resolved[index - first]? = some (none, target)
  shared : branches[target]? = some (some shared)

/- An alias gets a link of its own. -/
def Linked
    (branches : List (Option Branch))
    (first : Nat)
    (resolved : List (Option Branch × Nat))
    (index head : Nat) :
    Prop :=
  ∃ target shared,
    AliasOf branches first resolved index target shared ∧
      shared.head = some head

/- An alias goes on from open outputs. -/
def Redirected
    (node : Nat)
    (branches : List (Option Branch))
    (first : Nat)
    (resolved : List (Option Branch × Nat))
    (e : Endpoint) :
    Prop :=
  ∃ index target shared,
    AliasOf branches first resolved index target shared ∧
      shared.head = none ∧
      e ∈ redirect node index target shared.tail

variable {branches : List (Option Branch)}
variable {first : Nat}
variable {resolved : List (Option Branch × Nat)}

/- The aliases of a list are its first entry and the rest. -/
theorem aliasOf_cons
    {p : Option Branch × Nat}
    {index target : Nat}
    {shared : Branch} :
    AliasOf branches first (p :: resolved) index target
        shared ↔
      (index = first ∧ p = (none, target) ∧
        branches[target]? = some (some shared)) ∨
      AliasOf branches (first + 1) resolved index target
        shared := by
  constructor
  · rintro ⟨hLe, hEntry, hShared⟩
    by_cases hEq : index = first
    · rw [hEq, Nat.sub_self, List.getElem?_cons_zero] at hEntry
      exact Or.inl ⟨hEq, Option.some.inj hEntry, hShared⟩
    · have hSub : index - first = index - (first + 1) + 1 := by
        omega
      rw [hSub, List.getElem?_cons_succ] at hEntry
      exact Or.inr ⟨by omega, hEntry, hShared⟩
  · rintro (⟨rfl, rfl, hShared⟩ | ⟨hLe, hEntry, hShared⟩)
    · exact ⟨Nat.le_refl _, by simp, hShared⟩
    · have hSub : index - first = index - (first + 1) + 1 := by
        omega
      refine ⟨by omega, ?_, hShared⟩
      rw [hSub, List.getElem?_cons_succ]
      exact hEntry

theorem not_aliasOf_nil
    {index target : Nat}
    {shared : Branch} :
    ¬AliasOf branches first [] index target shared := by
  rintro ⟨_, hEntry, _⟩
  simp at hEntry

/- An entry that wires nothing leaves the aliases as is. -/
theorem aliasOf_skip
    {p : Option Branch × Nat}
    (h :
      p.1 = none →
        ∀ shared, branches[p.2]? ≠ some (some shared)) :
    AliasOf branches first (p :: resolved) =
      AliasOf branches (first + 1) resolved := by
  funext index target shared
  apply propext
  rw [aliasOf_cons]
  constructor
  · rintro (⟨_, rfl, hShared⟩ | hRest)
    · exact absurd hShared (h rfl shared)
    · exact hRest
  · exact Or.inr

/- The first entry wires an alias. -/
theorem aliasOf_wire
    {target : Nat}
    {shared : Branch}
    (h : branches[target]? = some (some shared))
    {index target' : Nat}
    {shared' : Branch} :
    AliasOf branches first ((none, target) :: resolved)
        index target' shared' ↔
      (index = first ∧ target' = target ∧
        shared' = shared) ∨
      AliasOf branches (first + 1) resolved index target'
        shared' := by
  rw [aliasOf_cons]
  constructor
  · rintro (⟨hEq, hEntry, hShared⟩ | hRest)
    · cases hEntry
      rw [h] at hShared
      cases hShared
      exact Or.inl ⟨hEq, rfl, rfl⟩
    · exact Or.inr hRest
  · rintro (⟨hEq, rfl, rfl⟩ | hRest)
    · exact Or.inl ⟨hEq, rfl, h⟩
    · exact Or.inr hRest

end FlowGraph.Script

------------------------------------------------------------
-- Wiring
------------------------------------------------------------

namespace FlowGraph.Builder

/- The flow ends where an endpoint is linked. -/
theorem advances_link
    {b : Builder}
    {e : Endpoint}
    {t : Nat}
    (h : (b.withTail [e]).Ready)
    (hExec : b.graph.IsExec t)
    (hLt : e.node < t) :
    (b.withTail [e]).Advances
      (Builder.withTail
        { b with graph := b.graph.link e t } []) := by
  have hOpen : b.graph.IsOpen e :=
    h.cursor.isOpen e (List.mem_singleton_self e)
  refine ⟨⟨h.wf.link hOpen.1 hExec hLt, Graph.cursor_nil _,
      fun v hv => (h.gate v hv).mono (Nat.le_refl _),
      h.gateType⟩,
    Graph.grows_link.advance_of_new (by simp [withTail,
      Frame.setTail]), rfl, Nat.le_refl _,
    fun _ hv => hv, ?_⟩
  intro v hNone hSome
  exact absurd (hNone.symm.trans hSome) (by simp)

end FlowGraph.Builder

namespace FlowGraph.Script

/- A session with an endpoint linked. -/
def Session.linked
    (s : Session)
    (e : Endpoint)
    (t : Nat) :
    Session :=
  s.withBuilder
    { s.builder with graph := s.graph.link e t }

/- A join, and what an alias adds to it. -/
def aliasJoin
    (node : Nat)
    (branches : List (Option Branch))
    (index : Nat)
    (entry : Option Branch × Nat)
    (join : List Endpoint) :
    List Endpoint :=
  match entry.1, branches[entry.2]? with
  | none, some (some shared) =>
      if shared.head = none then
        joinWith join (redirect node index entry.2 shared.tail)
      else
        join
  | _, _ => join

/- A join, and what the aliases of a list add to it. -/
def wiredJoin
    (node : Nat)
    (branches : List (Option Branch)) :
    Nat → List (Option Branch × Nat) → List Endpoint →
      List Endpoint
  | _, [], join => join
  | index, entry :: rest, join =>
      wiredJoin node branches (index + 1) rest
        (aliasJoin node branches index entry join)

/-
  What wiring the aliases has come to: the links that were
  made, and the outputs that were joined.
-/
structure Wired
    (node : Nat)
    (branches : List (Option Branch))
    (first : Nat)
    (resolved : List (Option Branch × Nat))
    (join tail : List Endpoint)
    (g : Graph)
    (join' tail' : List Endpoint)
    (g' : Graph) :
    Prop where
  isOpen :
    ∀ e, e ∈ tail' ↔ e ∈ tail ∧
      ∀ index head,
        Linked branches first resolved index head →
          e ≠ ⟨node, index⟩
  nodup : join.Nodup → join'.Nodup
  joined :
    ∀ e, e ∈ join' ↔
      e ∈ join ∨ Redirected node branches first resolved e
  linked :
    ∀ index head,
      Linked branches first resolved index head →
        g'.execTarget ⟨node, index⟩ = some head
  apart :
    ∀ e,
      (∀ index head,
        Linked branches first resolved index head →
          e ≠ ⟨node, index⟩) →
        g'.execTarget e = g.execTarget e
  nodes : g'.nodes = g.nodes
  order : join' = wiredJoin node branches first resolved join

variable {P : Entry → Prop}
variable {lo node first : Nat} {s s₁ : Session}
variable {branches : List (Option Branch)}
variable {resolved : List (Option Branch × Nat)}
variable {join tail tail' : List Endpoint}

/- Nothing is left to wire. -/
theorem wired_nil
    {g : Graph} :
    Wired node branches first [] join tail g join tail
      g := by
  have hNot :
      ∀ index head, ¬Linked branches first [] index head := by
    rintro index head ⟨_, _, hAlias, _⟩
    exact not_aliasOf_nil hAlias
  refine ⟨?_, id, ?_, ?_, fun _ _ => rfl, rfl, rfl⟩
  · intro e
    exact ⟨fun he => ⟨he, fun i h hLinked =>
      absurd hLinked (hNot i h)⟩, fun he => he.1⟩
  · intro e
    refine ⟨Or.inl, ?_⟩
    rintro (he | ⟨_, _, _, hAlias, _⟩)
    · exact he
    · exact absurd hAlias not_aliasOf_nil
  · intro index head hLinked
    exact absurd hLinked (hNot index head)

/- The first entry wires nothing. -/
theorem Wired.skip
    {p : Option Branch × Nat}
    {g g' : Graph}
    {join' : List Endpoint}
    (hSkip :
      p.1 = none →
        ∀ shared, branches[p.2]? ≠ some (some shared))
    (h :
      Wired node branches (first + 1) resolved join tail g
        join' tail' g') :
    Wired node branches first (p :: resolved) join tail g
      join' tail' g' := by
  have hAlias :
      AliasOf branches first (p :: resolved) =
        AliasOf branches (first + 1) resolved :=
    aliasOf_skip hSkip
  have hLinked :
      Linked branches first (p :: resolved) =
        Linked branches (first + 1) resolved := by
    unfold Linked
    rw [hAlias]
  have hRedirected :
      Redirected node branches first (p :: resolved) =
        Redirected node branches (first + 1) resolved := by
    unfold Redirected
    rw [hAlias]
  have hJoin :
      aliasJoin node branches first p join = join := by
    unfold aliasJoin
    split
    · rename_i shared hNone hShared
      exact absurd hShared (hSkip hNone shared)
    · rfl
  obtain ⟨h₁, h₂, h₃, h₄, h₅, h₆, h₇⟩ := h
  rw [← hLinked] at h₁ h₄ h₅
  rw [← hRedirected] at h₃
  refine ⟨h₁, h₂, h₃, h₄, h₅, h₆, ?_⟩
  rw [wiredJoin, hJoin]
  exact h₇

/- The first entry is an alias of a body without a node. -/
theorem Wired.redirect
    {target : Nat}
    {shared : Branch}
    {g g' : Graph}
    {join' : List Endpoint}
    (hShared : branches[target]? = some (some shared))
    (hHead : shared.head = none)
    (h :
      Wired node branches (first + 1) resolved
        (joinWith join
          (redirect node first target shared.tail))
        tail g join' tail' g') :
    Wired node branches first ((none, target) :: resolved)
      join tail g join' tail' g' := by
  have hLinked :
      Linked branches first ((none, target) :: resolved) =
        Linked branches (first + 1) resolved := by
    funext index head
    apply propext
    unfold Linked
    constructor
    · rintro ⟨t, b, hAlias, hSome⟩
      rcases (aliasOf_wire hShared).mp hAlias with
        ⟨_, _, rfl⟩ | hRest
      · rw [hHead] at hSome
        cases hSome
      · exact ⟨t, b, hRest, hSome⟩
    · rintro ⟨t, b, hRest, hSome⟩
      exact ⟨t, b, (aliasOf_wire hShared).mpr (Or.inr hRest),
        hSome⟩
  have hJoin :
      aliasJoin node branches first (none, target) join =
        joinWith join
          (Script.redirect node first target shared.tail) := by
    simp only [aliasJoin, hShared, if_pos hHead]
  obtain ⟨h₁, h₂, h₃, h₄, h₅, h₆, h₇⟩ := h
  rw [← hLinked] at h₁ h₄ h₅
  refine ⟨h₁, fun hNodup => h₂ (nodup_joinWith hNodup), ?_,
    h₄, h₅, h₆, by rw [wiredJoin, hJoin]; exact h₇⟩
  intro e
  rw [h₃, mem_joinWith]
  constructor
  · rintro ((he | he) | ⟨i, t, b, hRest, hNone, he⟩)
    · exact Or.inl he
    · exact Or.inr ⟨first, target, shared,
        (aliasOf_wire hShared).mpr (Or.inl ⟨rfl, rfl, rfl⟩),
        hHead, he⟩
    · exact Or.inr ⟨i, t, b,
        (aliasOf_wire hShared).mpr (Or.inr hRest), hNone, he⟩
  · rintro (he | ⟨i, t, b, hAlias, hNone, he⟩)
    · exact Or.inl (Or.inl he)
    · rcases (aliasOf_wire hShared).mp hAlias with
        ⟨rfl, rfl, rfl⟩ | hRest
      · exact Or.inl (Or.inr he)
      · exact Or.inr ⟨i, t, b, hRest, hNone, he⟩

/- The first entry is an alias of a body with a node. -/
theorem Wired.link
    {target head : Nat}
    {shared : Branch}
    {g g' : Graph}
    {join' : List Endpoint}
    (hShared : branches[target]? = some (some shared))
    (hHead : shared.head = some head)
    (hNodup : tail.Nodup)
    (h :
      Wired node branches (first + 1) resolved join
        (tail.erase ⟨node, first⟩)
        (g.link ⟨node, first⟩ head) join' tail' g') :
    Wired node branches first ((none, target) :: resolved)
      join tail g join' tail' g' := by
  have hLinked :
      ∀ index head',
        Linked branches first ((none, target) :: resolved)
            index head' ↔
          (index = first ∧ head' = head) ∨
            Linked branches (first + 1) resolved index
              head' := by
    intro index head'
    unfold Linked
    constructor
    · rintro ⟨t, b, hAlias, hSome⟩
      rcases (aliasOf_wire hShared).mp hAlias with
        ⟨hEq, _, rfl⟩ | hRest
      · rw [hHead] at hSome
        exact Or.inl ⟨hEq, (Option.some.inj hSome).symm⟩
      · exact Or.inr ⟨t, b, hRest, hSome⟩
    · rintro (⟨rfl, rfl⟩ | ⟨t, b, hRest, hSome⟩)
      · exact ⟨target, shared,
          (aliasOf_wire hShared).mpr
            (Or.inl ⟨rfl, rfl, rfl⟩), hHead⟩
      · exact ⟨t, b,
          (aliasOf_wire hShared).mpr (Or.inr hRest), hSome⟩
  have hLater :
      ∀ index head',
        Linked branches (first + 1) resolved index head' →
          (⟨node, first⟩ : Endpoint) ≠ ⟨node, index⟩ := by
    rintro index head' ⟨_, _, hAlias, _⟩ hEq
    have hLe := hAlias.le
    cases hEq
    exact Nat.not_succ_le_self first hLe
  have hJoin :
      aliasJoin node branches first (none, target) join =
        join := by
    simp [aliasJoin, hShared, hHead]
  refine ⟨?_, h.nodup, ?_, ?_, ?_, h.nodes,
    by rw [wiredJoin, hJoin]; exact h.order⟩
  · intro e
    rw [h.isOpen, hNodup.mem_erase_iff]
    constructor
    · rintro ⟨⟨hNe, he⟩, hRest⟩
      refine ⟨he, ?_⟩
      intro i t hi
      rcases (hLinked i t).mp hi with ⟨rfl, _⟩ | hi
      · exact hNe
      · exact hRest i t hi
    · rintro ⟨he, hAll⟩
      exact ⟨⟨hAll first head
          ((hLinked _ _).mpr (Or.inl ⟨rfl, rfl⟩)), he⟩,
        fun i t hi =>
          hAll i t ((hLinked i t).mpr (Or.inr hi))⟩
  · intro e
    rw [h.joined]
    apply or_congr_right
    constructor
    · rintro ⟨i, t, b, hRest, hNone, he⟩
      exact ⟨i, t, b,
        (aliasOf_wire hShared).mpr (Or.inr hRest), hNone, he⟩
    · rintro ⟨i, t, b, hAlias, hNone, he⟩
      rcases (aliasOf_wire hShared).mp hAlias with
        ⟨_, _, rfl⟩ | hRest
      · rw [hHead] at hNone
        cases hNone
      · exact ⟨i, t, b, hRest, hNone, he⟩
  · intro i t hi
    rcases (hLinked i t).mp hi with ⟨rfl, rfl⟩ | hi
    · rw [h.apart _ hLater, Graph.execTarget_link_self]
    · exact h.linked i t hi
  · intro e hAll
    have hNe : e ≠ ⟨node, first⟩ :=
      hAll first head ((hLinked _ _).mpr (Or.inl ⟨rfl, rfl⟩))
    rw [h.apart e fun i t hi =>
        hAll i t ((hLinked i t).mpr (Or.inr hi)),
      Graph.execTarget_link_of_ne hNe]

/- Wiring the aliases is never refused. -/
theorem meets_wireAliases
    (hBelow : node < lo)
    (h : Session.Spread P lo s s₁ tail)
    (hOpen :
      ∀ index target shared,
        AliasOf branches first resolved index target
            shared →
          ⟨node, index⟩ ∈ tail)
    (hHead :
      ∀ index head,
        Linked branches first resolved index head →
          s₁.graph.IsExec head ∧ node < head) :
    (wireAliases node branches first resolved join).Meets s₁
      (fun join' s₂ =>
        ∃ tail', Session.Spread P lo s s₂ tail' ∧
          Wired node branches first resolved join tail
            s₁.graph join' tail' s₂.graph)
      (fun _ _ => False) := by
  induction resolved generalizing first s₁ join tail with
  | nil =>
      exact ⟨tail, h, wired_nil⟩
  | cons p rest ih =>
      have hOpenRest :
          ∀ index target shared,
            AliasOf branches (first + 1) rest index target
                shared →
              ⟨node, index⟩ ∈ tail :=
        fun i t b hb =>
          hOpen i t b (aliasOf_cons.mpr (Or.inr hb))
      have hHeadRest :
          ∀ index head,
            Linked branches (first + 1) rest index head →
              s₁.graph.IsExec head ∧ node < head := by
        rintro i t ⟨k, b, hb, hSome⟩
        exact hHead i t
          ⟨k, b, aliasOf_cons.mpr (Or.inr hb), hSome⟩
      -- An entry that wires nothing.
      have hSkip :
          (p.1 = none →
            ∀ shared, branches[p.2]? ≠ some (some shared)) →
          (wireAliases node branches (first + 1) rest
              join).Meets s₁
            (fun join' s₂ =>
              ∃ tail', Session.Spread P lo s s₂ tail' ∧
                Wired node branches first (p :: rest) join
                  tail s₁.graph join' tail' s₂.graph)
            (fun _ _ => False) := by
        intro hp
        refine (ih h hOpenRest hHeadRest).mono ?_
          fun _ _ he => he
        rintro join' s₂ ⟨tail', hSpread, hWired⟩
        exact ⟨tail', hSpread, hWired.skip hp⟩
      obtain ⟨own, target⟩ := p
      cases own with
      | some b =>
          exact hSkip (by simp)
      | none =>
          unfold wireAliases
          split
          · rename_i shared hShared
            have hAlias :
                AliasOf branches first
                  ((none, target) :: rest) first target
                  shared :=
              (aliasOf_wire hShared).mpr
                (Or.inl ⟨rfl, rfl, rfl⟩)
            have hStart := hOpen first target shared hAlias
            rw [Process.meets_bind]
            unfold wireAlias
            split
            · rename_i head hSome
              obtain ⟨hExec, hLt⟩ :=
                hHead first head ⟨target, shared, hAlias,
                  hSome⟩
              have hLeads :
                  Session.Leads P s₁.graph.nextId
                    (s₁.withTail [⟨node, first⟩])
                    ((s₁.linked ⟨node, first⟩ head).withTail
                      []) :=
                Session.leads_withBuilder (h.ready hStart)
                  (Builder.advances_link
                    (h.ready hStart).builder hExec hLt)
              have hSpread :=
                h.focus hStart hBelow hLeads
              rw [List.append_nil] at hSpread
              have hConnect :
                  Builder.connect ⟨node, first⟩ head
                      s₁.builder =
                    (.ok (), (s₁.linked ⟨node, first⟩
                      head).builder) := by
                simp only [Builder.connect,
                  Graph.connect_eq_ok
                    (h.cursor.isOpen _ hStart) hExec]
                rfl
              rw [Process.meets_bind, meets_build]
              unfold Process.Meets
              rw [hConnect]
              refine (ih hSpread ?_ hHeadRest).mono ?_
                fun _ _ he => he
              · intro i t b hb
                rw [h.cursor.nodup.mem_erase_iff]
                refine ⟨?_, hOpenRest i t b hb⟩
                intro hEq
                have hLe := hb.le
                cases hEq
                exact Nat.not_succ_le_self first hLe
              · rintro join' s₂ ⟨tail', hSpread', hWired⟩
                exact ⟨tail', hSpread',
                  hWired.link hShared hSome h.cursor.nodup⟩
            · rename_i hNone
              refine (ih h hOpenRest hHeadRest).mono ?_
                fun _ _ he => he
              rintro join' s₂ ⟨tail', hSpread, hWired⟩
              exact ⟨tail', hSpread,
                hWired.redirect hShared hNone⟩
          · rename_i hMissing
            exact hSkip fun _ shared hShared =>
              hMissing shared hShared

end FlowGraph.Script
