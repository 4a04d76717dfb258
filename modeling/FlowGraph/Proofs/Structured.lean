import FlowGraph.Script.Session
import FlowGraph.Script.Stmt

/-
  Structured scripts.

  A structured script moves the cursor only through the
  constructs that have bodies, and through breaks, returns
  and the like.  It neither sets the cursor by hand nor
  catches refusals, and functions are begun at the top only.

  Key definitions include:
    * `FlowGraph.Script.Stmt.bodies`
    * `FlowGraph.Script.Stmt.every`
    * `FlowGraph.Script.Action.structured`
    * `FlowGraph.Script.structured`
    * `FlowGraph.Script.find?`

  Key theorems include:
    * `FlowGraph.Script.Stmt.induction`
    * `FlowGraph.Script.Stmt.every_iff`
-/

------------------------------------------------------------
-- Bodies
------------------------------------------------------------

namespace FlowGraph

/- The body of a branch, unless it is an alias or empty. -/
def Arm.body?
    {β : Type} :
    Arm β → Option β
  | .body b => some b
  | _ => none

namespace Script

/- The bodies of a statement. -/
def Stmt.bodies : Stmt → List (List Stmt)
  | .action _ _ => []
  | .function _ _ body => [body]
  | .ifThen _ _ thenBody => [thenBody]
  | .ifElse _ _ thenBody elseBody => [thenBody, elseBody]
  | .switch _ _ cases default =>
      default.body?.toList
        ++ cases.filterMap fun c => c.2.body?
  | .forRange _ _ _ body => [body]
  | .forEach _ _ body => [body]
  | .branch _ _ body => [body]
  | .loop _ body => [body]
  | .attempt body => [body]

section Induction

variable {P : Stmt → Prop} {Q : List Stmt → Prop}

mutual

/- The part of the induction that is about statements. -/
theorem Stmt.induction_stmt
    (hStmt : ∀ s : Stmt, (∀ b ∈ s.bodies, Q b) → P s)
    (hNil : Q [])
    (hCons : ∀ s rest, P s → Q rest → Q (s :: rest)) :
    ∀ s : Stmt, P s
  | .action bind a => hStmt _ (List.forall_mem_nil _)
  | .function bind event body =>
      hStmt _ (List.forall_mem_singleton.mpr
        (Stmt.induction_block hStmt hNil hCons body))
  | .ifThen bind c thenBody =>
      hStmt _ (List.forall_mem_singleton.mpr
        (Stmt.induction_block hStmt hNil hCons thenBody))
  | .ifElse bind c thenBody elseBody =>
      hStmt _ (List.forall_mem_cons.mpr
        ⟨Stmt.induction_block hStmt hNil hCons thenBody,
          List.forall_mem_singleton.mpr
            (Stmt.induction_block hStmt hNil hCons
              elseBody)⟩)
  | .switch bind c cases default =>
      hStmt _ (by
        have hCases :=
          Stmt.induction_cases hStmt hNil hCons cases
        have hDefault :=
          Stmt.induction_arm hStmt hNil hCons default
        intro b hb
        simp only [Stmt.bodies, List.mem_append,
          Option.mem_toList, List.mem_filterMap] at hb
        rcases hb with hb | ⟨c, hc, hb⟩
        · exact hDefault b hb
        · exact hCases c hc b hb)
  | .forRange bind start stop body =>
      hStmt _ (List.forall_mem_singleton.mpr
        (Stmt.induction_block hStmt hNil hCons body))
  | .forEach bind list body =>
      hStmt _ (List.forall_mem_singleton.mpr
        (Stmt.induction_block hStmt hNil hCons body))
  | .branch node index body =>
      hStmt _ (List.forall_mem_singleton.mpr
        (Stmt.induction_block hStmt hNil hCons body))
  | .loop node body =>
      hStmt _ (List.forall_mem_singleton.mpr
        (Stmt.induction_block hStmt hNil hCons body))
  | .attempt body =>
      hStmt _ (List.forall_mem_singleton.mpr
        (Stmt.induction_block hStmt hNil hCons body))

/- The part of the induction that is about blocks. -/
theorem Stmt.induction_block
    (hStmt : ∀ s : Stmt, (∀ b ∈ s.bodies, Q b) → P s)
    (hNil : Q [])
    (hCons : ∀ s rest, P s → Q rest → Q (s :: rest)) :
    ∀ b : List Stmt, Q b
  | [] => hNil
  | s :: rest =>
      hCons s rest
        (Stmt.induction_stmt hStmt hNil hCons s)
        (Stmt.induction_block hStmt hNil hCons rest)

/- The part of the induction that is about branches. -/
theorem Stmt.induction_arm
    (hStmt : ∀ s : Stmt, (∀ b ∈ s.bodies, Q b) → P s)
    (hNil : Q [])
    (hCons : ∀ s rest, P s → Q rest → Q (s :: rest)) :
    ∀ (a : Arm (List Stmt)) (b : List Stmt),
      a.body? = some b → Q b
  | .body block, b, hb => by
      cases hb
      exact Stmt.induction_block hStmt hNil hCons block
  | .alias _, _, hb => by cases hb
  | .empty, _, hb => by cases hb

/- The part of the induction that is about one case. -/
theorem Stmt.induction_case
    (hStmt : ∀ s : Stmt, (∀ b ∈ s.bodies, Q b) → P s)
    (hNil : Q [])
    (hCons : ∀ s rest, P s → Q rest → Q (s :: rest)) :
    ∀ (c : Label × Arm (List Stmt)) (b : List Stmt),
      c.2.body? = some b → Q b
  | (_, arm), b, hb =>
      Stmt.induction_arm hStmt hNil hCons arm b hb

/- The part of the induction that is about all cases. -/
theorem Stmt.induction_cases
    (hStmt : ∀ s : Stmt, (∀ b ∈ s.bodies, Q b) → P s)
    (hNil : Q [])
    (hCons : ∀ s rest, P s → Q rest → Q (s :: rest)) :
    ∀ (cs : List (Label × Arm (List Stmt))),
      ∀ c ∈ cs, ∀ b : List Stmt, c.2.body? = some b → Q b
  | [], _, hc, _, _ => by cases hc
  | d :: rest, c, hc, b, hb => by
      rcases List.mem_cons.mp hc with hEq | hc
      · rw [hEq] at hb
        exact Stmt.induction_case hStmt hNil hCons d b hb
      · exact Stmt.induction_cases hStmt hNil hCons rest c
          hc b hb

end

/-
  Induction on statements and blocks: a statement is reached
  through its bodies, a block through its statements.
-/
theorem Stmt.induction
    (hStmt : ∀ s : Stmt, (∀ b ∈ s.bodies, Q b) → P s)
    (hNil : Q [])
    (hCons : ∀ s rest, P s → Q rest → Q (s :: rest)) :
    (∀ s, P s) ∧ ∀ b, Q b :=
  ⟨Stmt.induction_stmt hStmt hNil hCons,
    Stmt.induction_block hStmt hNil hCons⟩

end Induction

end Script

end FlowGraph

------------------------------------------------------------
-- Tests On All Statements
------------------------------------------------------------

namespace FlowGraph.Script

mutual

/- Whether a statement and all inside it pass a test. -/
def Stmt.every (p : Stmt → Bool) : Stmt → Bool
  | .action bind a => p (.action bind a)
  | .function bind event body =>
      p (.function bind event body) && everyIn p body
  | .ifThen bind c thenBody =>
      p (.ifThen bind c thenBody) && everyIn p thenBody
  | .ifElse bind c thenBody elseBody =>
      p (.ifElse bind c thenBody elseBody)
        && everyIn p thenBody && everyIn p elseBody
  | .switch bind c cases default =>
      p (.switch bind c cases default)
        && everyInArm p default && everyInCases p cases
  | .forRange bind start stop body =>
      p (.forRange bind start stop body) && everyIn p body
  | .forEach bind list body =>
      p (.forEach bind list body) && everyIn p body
  | .branch node index body =>
      p (.branch node index body) && everyIn p body
  | .loop node body => p (.loop node body) && everyIn p body
  | .attempt body => p (.attempt body) && everyIn p body

/- Whether all statements of a block pass a test. -/
def everyIn (p : Stmt → Bool) : List Stmt → Bool
  | [] => true
  | s :: rest => s.every p && everyIn p rest

/- Whether all statements of a branch pass a test. -/
def everyInArm (p : Stmt → Bool) : Arm (List Stmt) → Bool
  | .body block => everyIn p block
  | .alias _ => true
  | .empty => true

/- Whether all statements of a case pass a test. -/
def everyInCase
    (p : Stmt → Bool) :
    Label × Arm (List Stmt) → Bool
  | (_, arm) => everyInArm p arm

/- Whether all statements of some cases pass a test. -/
def everyInCases
    (p : Stmt → Bool) :
    List (Label × Arm (List Stmt)) → Bool
  | [] => true
  | c :: rest => everyInCase p c && everyInCases p rest

end

variable {p : Stmt → Bool}

theorem everyInArm_iff
    {arm : Arm (List Stmt)} :
    everyInArm p arm = true ↔
      ∀ b, arm.body? = some b → everyIn p b = true := by
  cases arm <;> simp [everyInArm, Arm.body?]

theorem everyInCases_iff
    {cases : List (Label × Arm (List Stmt))} :
    everyInCases p cases = true ↔
      ∀ c ∈ cases, ∀ b, c.2.body? = some b →
        everyIn p b = true := by
  induction cases with
  | nil =>
      simp [everyInCases]
  | cons c rest ih =>
      obtain ⟨l, arm⟩ := c
      simp only [everyInCases, everyInCase, Bool.and_eq_true,
        everyInArm_iff, ih, List.forall_mem_cons]

/- A test on a statement and on its bodies. -/
theorem Stmt.every_iff
    (s : Stmt) :
    s.every p = true ↔
      p s = true ∧ ∀ b ∈ s.bodies, everyIn p b = true := by
  cases s with
  | switch bind c cases default =>
      simp only [Stmt.every, Stmt.bodies, Bool.and_eq_true,
        everyInArm_iff, everyInCases_iff, List.mem_append,
        Option.mem_toList, List.mem_filterMap]
      constructor
      · rintro ⟨⟨hSelf, hDefault⟩, hCases⟩
        refine ⟨hSelf, ?_⟩
        rintro b (hb | ⟨c, hc, hb⟩)
        · exact hDefault b hb
        · exact hCases c hc b hb
      · rintro ⟨hSelf, hBodies⟩
        refine ⟨⟨hSelf, ?_⟩, ?_⟩
        · intro b hb
          exact hBodies b (Or.inl hb)
        · intro c hc b hb
          exact hBodies b (Or.inr ⟨c, hc, hb⟩)
  | _ => simp [Stmt.every, Stmt.bodies, and_assoc]

theorem everyIn_cons
    {s : Stmt}
    {rest : List Stmt} :
    everyIn p (s :: rest) = true ↔
      s.every p = true ∧ everyIn p rest = true := by
  simp [everyIn]

/- A test on all statements of a block. -/
theorem everyIn_iff
    {block : List Stmt} :
    everyIn p block = true ↔
      ∀ s ∈ block, s.every p = true := by
  induction block with
  | nil => simp [everyIn]
  | cons s rest ih =>
      rw [everyIn_cons, ih, List.forall_mem_cons]

end FlowGraph.Script

------------------------------------------------------------
-- Structured Scripts
------------------------------------------------------------

namespace FlowGraph.Script

/-
  The actions of a structured script.  Exec nodes are placed
  in the flow, outputs are those of nodes that a name stands
  for, the cursor is not set by hand, and the gate gets no
  name.
-/
def Action.structured : Action → Bool
  | .beginFunction _ => false
  | .place draft => draft.nodeClass = .exec
  | .placeBuiltin _ kind _ => kind.nodeClass = .exec
  | .pin (.id _) _ _ => false
  | .sealPath _ => false
  | .gateVariable => false
  | .setTail _ => false
  | .linkFrom _ _ => false
  | _ => true

/- A statement of a structured script, its bodies aside. -/
def Stmt.structured : Stmt → Bool
  | .action _ a => a.structured
  | .branch _ _ _ => false
  | .loop _ _ => false
  | .attempt _ => false
  | _ => true

/- Whether a statement begins a function at the top. -/
def Stmt.begins : Stmt → Bool
  | .action _ (.beginFunction _) => true
  | _ => false

/- A structured script: functions begin at the top only. -/
def structured
    (script : List Stmt) :
    Bool :=
  script.all fun s => s.begins || s.every Stmt.structured

end FlowGraph.Script

------------------------------------------------------------
-- A Structured Script
------------------------------------------------------------

namespace FlowGraph.Script

/-
  A loop around a switch whose only body returns and is
  shared by two aliases.
-/
def sharedReturn : List Stmt :=
  [.action .none (.beginFunction "start"),
    .forRange .none (.literal (.int 0)) (.literal (.int 3))
      [.switch .none (.value (.int 1))
        [(.int 1, .body
            [.action .none (.print (.literal (.str "a"))),
              .action .none .returnNow]),
          (.int 2, .alias (.label (.int 1)))]
        (.alias (.label (.int 2))),
        .action .none (.print (.literal (.str "b")))],
    .action .none (.print (.literal (.str "c")))]

end FlowGraph.Script

------------------------------------------------------------
-- Places In A Script
------------------------------------------------------------

namespace FlowGraph.Script

/- The body of a statement to which a segment leads. -/
def Stmt.body? : Stmt → Segment → Option (List Stmt)
  | .function _ _ body, .function => some body
  | .ifThen _ _ thenBody, .thenBody => some thenBody
  | .ifElse _ _ thenBody _, .thenBody => some thenBody
  | .ifElse _ _ _ elseBody, .elseBody => some elseBody
  | .switch _ _ _ default, .default => default.body?
  | .switch _ _ cases _, .case i =>
      cases[i]?.bind fun c => c.2.body?
  | .forRange _ _ _ body, .loopBody => some body
  | .forEach _ _ body, .loopBody => some body
  | .branch _ _ body, .branch => some body
  | .loop _ body, .loop => some body
  | .attempt body, .attempt => some body
  | _, _ => none

theorem Stmt.mem_bodies
    {s : Stmt}
    {segment : Segment}
    {body : List Stmt}
    (h : s.body? segment = some body) :
    body ∈ s.bodies := by
  unfold Stmt.body? at h
  split at h
  case h_5 =>
    simp [Stmt.bodies, h]
  case h_6 =>
    obtain ⟨c, hc, hBody⟩ := Option.bind_eq_some_iff.mp h
    simp only [Stmt.bodies, List.mem_append,
      List.mem_filterMap]
    exact Or.inr ⟨c, List.mem_of_getElem? hc, hBody⟩
  all_goals simp_all [Stmt.bodies]

/- The statement at a place of a script. -/
def find?
    (block : List Stmt) :
    Path → Option Stmt
  | [.statement i] => block[i]?
  | .statement i :: segment :: rest =>
      match block[i]?.bind fun s => s.body? segment with
      | some body => find? body rest
      | none => none
  | _ => none

/-
  The places below `path` from statement `i` on hold the
  statements of `block`.
-/
def Holds
    (script : List Stmt)
    (path : Path)
    (i : Nat)
    (block : List Stmt) :
    Prop :=
  ∀ j rest,
    find? script (path ++ .statement (i + j) :: rest) =
      find? block (.statement j :: rest)

/- The place `path` and those below it hold `s`. -/
structure HoldsStmt
    (script : List Stmt)
    (path : Path)
    (s : Stmt) :
    Prop where
  self : find? script path = some s
  below :
    ∀ segment body, s.body? segment = some body →
      Holds script (path ++ [segment]) 0 body

variable {script block rest : List Stmt}
variable {path : Path} {i : Nat} {s : Stmt}

/- Places in a block start with one of its statements. -/
theorem statement_of_find?
    {below : Path}
    (h : find? block below = some s) :
    ∃ j tail, below = .statement j :: tail := by
  unfold find? at h
  split at h
  · exact ⟨_, _, rfl⟩
  · exact ⟨_, _, rfl⟩
  · cases h

/- Places in the first statement of a block. -/
theorem find?_cons_zero
    (tail : Path) :
    find? (s :: rest) (.statement 0 :: tail) =
      find? [s] (.statement 0 :: tail) := by
  cases tail <;> simp [find?]

/- Places in the other statements. -/
theorem find?_cons_succ
    (j : Nat)
    (tail : Path) :
    find? (s :: rest) (.statement (j + 1) :: tail) =
      find? rest (.statement j :: tail) := by
  cases tail <;> simp [find?]

/- A script holds itself. -/
theorem holds_script
    (script : List Stmt) :
    Holds script [] 0 script := by
  intro j rest
  simp

/- The first of some statements is at its place. -/
theorem Holds.head
    (h : Holds script path i (s :: rest)) :
    HoldsStmt script (path ++ [.statement i]) s := by
  constructor
  · have hSelf := h 0 []
    simpa [find?] using hSelf
  · intro segment body hBody j below
    have hBelow := h 0 (segment :: .statement j :: below)
    simp only [find?, List.getElem?_cons_zero,
      Option.bind_some, hBody] at hBelow
    simpa using hBelow

/- The other statements are at the places after it. -/
theorem Holds.tail
    (h : Holds script path i (s :: rest)) :
    Holds script path (i + 1) rest := by
  intro j below
  have hBelow := h (j + 1) below
  have hIndex : i + (j + 1) = i + 1 + j := by omega
  rw [hIndex] at hBelow
  rw [hBelow]
  cases below with
  | nil => simp [find?]
  | cons segment below => simp [find?]

/- Every one of the statements is at its place. -/
theorem Holds.getElem?
    (h : Holds script path i block)
    {j : Nat}
    (hj : block[j]? = some s) :
    HoldsStmt script (path ++ [.statement (i + j)]) s := by
  induction block generalizing i j with
  | nil => cases hj
  | cons first rest ih =>
      cases j with
      | zero =>
          cases hj
          exact h.head
      | succ j =>
          rw [show i + (j + 1) = i + 1 + j by omega]
          exact ih h.tail hj

/- All statements of a block pass the test of the block. -/
theorem every_of_find?
    {p : Stmt → Bool}
    {below : Path}
    (h : everyIn p block = true)
    (hFind : find? block below = some s) :
    s.every p = true := by
  fun_induction find? block below with
  | case1 block i =>
      exact everyIn_iff.mp h s (List.mem_of_getElem? hFind)
  | case2 block i segment rest body hBody ih =>
      rcases Option.bind_eq_some_iff.mp hBody with
        ⟨st, hSt, hBody⟩
      have hEvery :=
        everyIn_iff.mp h st (List.mem_of_getElem? hSt)
      exact ih (((Stmt.every_iff st).mp hEvery).2 body
        (Stmt.mem_bodies hBody)) hFind
  | case3 block i segment rest hNone => cases hFind
  | case4 block below hOne hMore => cases hFind

/- In a structured script functions begin at the top. -/
theorem begins_at_top
    (hScript : structured script = true)
    (hFind : find? script path = some s)
    (hBegins : s.begins = true) :
    ∃ i, path = [.statement i] ∧ script[i]? = some s := by
  unfold find? at hFind
  split at hFind
  · exact ⟨_, rfl, hFind⟩
  · split at hFind
    · rename_i body hBody
      rcases Option.bind_eq_some_iff.mp hBody with
        ⟨st, hSt, hBody⟩
      have hStmt :=
        List.all_eq_true.mp hScript st
          (List.mem_of_getElem? hSt)
      have hInner : everyIn Stmt.structured body = true := by
        cases hTop : st.begins with
        | true =>
            unfold Stmt.begins at hTop
            split at hTop
            · cases hBody
            · cases hTop
        | false =>
            rw [hTop, Bool.false_or] at hStmt
            exact ((Stmt.every_iff st).mp hStmt).2 body
              (Stmt.mem_bodies hBody)
      have hSelf :=
        ((Stmt.every_iff s).mp (every_of_find? hInner hFind)).1
      unfold Stmt.begins at hBegins
      split at hBegins
      · cases hSelf
      · cases hBegins
    · cases hFind
  · cases hFind

end FlowGraph.Script
