import FlowGraph.Error

/-
  Steps on a state that may be refused.

  A refused step still leaves a state behind: what it did
  before the refusal stays done.

  Key definitions include:
    * `FlowGraph.Process`
    * `FlowGraph.Process.observe`
    * `FlowGraph.Process.zoom`

  Key theorems include:
    * `FlowGraph.Process.bind_apply`
    * `FlowGraph.Process.bind_eq_ok_iff`
-/

------------------------------------------------------------
-- Processes
------------------------------------------------------------

namespace FlowGraph

/-
  A step on a state: its result or the refusal, together
  with the state that it leaves.
-/
def Process (σ α : Type) : Type :=
  σ → Except Error α × σ

namespace Process

variable {σ τ α β : Type}

/- Yield a result and change nothing. -/
def yield
    (a : α) :
    Process σ α :=
  fun s => (.ok a, s)

/- One step after another, unless the first is refused. -/
def andThen
    (m : Process σ α)
    (f : α → Process σ β) :
    Process σ β :=
  fun s =>
    match m s with
    | (.ok a, s') => f a s'
    | (.error e, s') => (.error e, s')

instance : Monad (Process σ) where
  pure := yield
  bind := andThen

/- Yield a result, or be refused, without any change. -/
def ofExcept
    (r : Except Error α) :
    Process σ α :=
  fun s => (r, s)

instance : MonadLift (Except Error) (Process σ) where
  monadLift := ofExcept

/- Look at the state. -/
def read
    (f : σ → α) :
    Process σ α :=
  fun s => (.ok (f s), s)

/- Change the state. -/
def update
    (f : σ → σ) :
    Process σ Unit :=
  fun s => (.ok (), f s)

/- Change the state and yield something about the change. -/
def transform
    (f : σ → α × σ) :
    Process σ α :=
  fun s => (.ok (f s).1, (f s).2)

/- Be refused. -/
def refuse
    (e : Error) :
    Process σ α :=
  fun s => (.error e, s)

/- The outcome of a step, whichever it is. -/
def observe
    (m : Process σ α) :
    Process σ (Except Error α) :=
  fun s => (.ok (m s).1, (m s).2)

/- A step on a part of the state. -/
def zoom
    (get : τ → σ)
    (set : σ → τ → τ)
    (m : Process σ α) :
    Process τ α :=
  fun t =>
    let r := m (get t)
    (r.1, set r.2 t)

end Process

end FlowGraph

------------------------------------------------------------
-- Lists Of Steps
------------------------------------------------------------

namespace FlowGraph.Process

variable {σ α β : Type}

/- Take a step for every item, in order. -/
def each
    (f : α → Process σ Unit) :
    List α → Process σ Unit
  | [] => yield ()
  | a :: rest => do
      f a
      each f rest

end FlowGraph.Process

------------------------------------------------------------
-- Laws
------------------------------------------------------------

namespace FlowGraph.Process

variable {σ τ α β : Type}

/- Yielding a result changes nothing. -/
@[simp] theorem pure_apply
    (a : α)
    (s : σ) :
    (pure a : Process σ α) s = (.ok a, s) :=
  rfl

/- A sequence goes on only after a result. -/
theorem bind_apply
    (m : Process σ α)
    (f : α → Process σ β)
    (s : σ) :
    (m >>= f) s =
      match m s with
      | (.ok a, s') => f a s'
      | (.error e, s') => (.error e, s') :=
  rfl

/- After a result the second step runs on the new state. -/
theorem bind_of_ok
    {m : Process σ α}
    {s s' : σ}
    {a : α}
    (h : m s = (.ok a, s'))
    (f : α → Process σ β) :
    (m >>= f) s = f a s' := by
  rw [bind_apply, h]

/- After a refusal the second step does not run. -/
theorem bind_of_error
    {m : Process σ α}
    {s s' : σ}
    {e : Error}
    (h : m s = (.error e, s'))
    (f : α → Process σ β) :
    (m >>= f) s = (.error e, s') := by
  rw [bind_apply, h]

/- A sequence succeeds exactly when both steps do. -/
theorem bind_eq_ok_iff
    {m : Process σ α}
    {f : α → Process σ β}
    {s t : σ}
    {b : β} :
    (m >>= f) s = (.ok b, t) ↔
      ∃ a s', m s = (.ok a, s') ∧ f a s' = (.ok b, t) := by
  constructor
  · intro h
    rcases hm : m s with ⟨e | a, s'⟩
    · rw [bind_of_error hm] at h
      cases h
    · rw [bind_of_ok hm] at h
      exact ⟨a, s', rfl, h⟩
  · rintro ⟨a, s', hm, hf⟩
    rw [bind_of_ok hm]
    exact hf

instance : LawfulMonad (Process σ) :=
  LawfulMonad.mk'
    (Process σ)
    (by
      intro α m
      funext s
      change (m >>= pure) s = m s
      rcases hm : m s with ⟨e | a, s'⟩
      · exact bind_of_error hm _
      · exact bind_of_ok hm _)
    (by
      intro α β a f
      rfl)
    (by
      intro α β γ m f g
      funext s
      rcases hm : m s with ⟨e | a, s'⟩
      · rw [bind_of_error (bind_of_error hm f),
          bind_of_error hm]
      · rw [bind_apply, bind_of_ok hm, bind_of_ok hm,
          bind_apply])

end FlowGraph.Process
