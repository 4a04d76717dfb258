import FlowGraph.Script.Session

/-
  What a step comes to.

  A step on a state either yields a result or is refused.
  `Meets` says of a step at one state that a result has one
  property and a refusal another, each together with the
  state that the step leaves.

  Key definitions include:
    * `FlowGraph.Process.Meets`

  Key theorems include:
    * `FlowGraph.Process.meets_bind`
    * `FlowGraph.Process.meets_observe`
    * `FlowGraph.Process.meets_zoom`
    * `FlowGraph.Process.Meets.mono`
-/

------------------------------------------------------------
-- Outcomes
------------------------------------------------------------

namespace FlowGraph.Process

variable {σ τ α β : Type}

/-
  From state `s` the step yields a result with `Q`, or it is
  refused with `E`.
-/
def Meets
    (m : Process σ α)
    (s : σ)
    (Q : α → σ → Prop)
    (E : Error → σ → Prop) :
    Prop :=
  match m s with
  | (.ok a, s') => Q a s'
  | (.error e, s') => E e s'

/- The two properties may be weakened. -/
theorem Meets.mono
    {m : Process σ α}
    {s : σ}
    {Q Q' : α → σ → Prop}
    {E E' : Error → σ → Prop}
    (h : m.Meets s Q E)
    (hQ : ∀ a s', Q a s' → Q' a s')
    (hE : ∀ e s', E e s' → E' e s') :
    m.Meets s Q' E' := by
  unfold Meets at *
  rcases hm : m s with ⟨e | a, s'⟩
  · rw [hm] at h
    exact hE e s' h
  · rw [hm] at h
    exact hQ a s' h

theorem meets_true
    (m : Process σ α)
    (s : σ) :
    m.Meets s (fun _ _ => True) (fun _ _ => True) := by
  unfold Meets
  split <;> trivial

/- Two properties of one step. -/
theorem Meets.and
    {m : Process σ α}
    {s : σ}
    {Q Q' : α → σ → Prop}
    {E E' : Error → σ → Prop}
    (h : m.Meets s Q E)
    (h' : m.Meets s Q' E') :
    m.Meets s (fun a s' => Q a s' ∧ Q' a s')
      (fun e s' => E e s' ∧ E' e s') := by
  unfold Meets at *
  rcases hm : m s with ⟨e | a, s'⟩
  · rw [hm] at h h'
    exact ⟨h, h'⟩
  · rw [hm] at h h'
    exact ⟨h, h'⟩

/- A result has the property that results have. -/
theorem Meets.of_ok
    {m : Process σ α}
    {s s' : σ}
    {a : α}
    {Q : α → σ → Prop}
    {E : Error → σ → Prop}
    (h : m.Meets s Q E)
    (hm : m s = (.ok a, s')) :
    Q a s' := by
  unfold Meets at h
  rw [hm] at h
  exact h

/- A refusal has the property that refusals have. -/
theorem Meets.of_error
    {m : Process σ α}
    {s s' : σ}
    {e : Error}
    {Q : α → σ → Prop}
    {E : Error → σ → Prop}
    (h : m.Meets s Q E)
    (hm : m s = (.error e, s')) :
    E e s' := by
  unfold Meets at h
  rw [hm] at h
  exact h

end FlowGraph.Process

------------------------------------------------------------
-- Outcomes Of Composed Steps
------------------------------------------------------------

namespace FlowGraph.Process

variable {σ τ α β : Type}
variable {Q : α → σ → Prop} {E : Error → σ → Prop}

@[simp] theorem meets_pure
    {a : α}
    {s : σ} :
    (pure a : Process σ α).Meets s Q E ↔ Q a s :=
  Iff.rfl

@[simp] theorem meets_yield
    {a : α}
    {s : σ} :
    (yield a : Process σ α).Meets s Q E ↔ Q a s :=
  Iff.rfl

@[simp] theorem meets_bind
    {m : Process σ β}
    {f : β → Process σ α}
    {s : σ} :
    (m >>= f).Meets s Q E ↔
      m.Meets s (fun b s' => (f b).Meets s' Q E) E := by
  unfold Meets
  rcases hm : m s with ⟨e | b, s'⟩
  · rw [bind_of_error hm]
  · rw [bind_of_ok hm]

@[simp] theorem meets_read
    {f : σ → α}
    {s : σ} :
    (read f).Meets s Q E ↔ Q (f s) s :=
  Iff.rfl

@[simp] theorem meets_update
    {f : σ → σ}
    {s : σ}
    {Q : Unit → σ → Prop} :
    (update f).Meets s Q E ↔ Q () (f s) :=
  Iff.rfl

@[simp] theorem meets_transform
    {f : σ → α × σ}
    {s : σ} :
    (transform f).Meets s Q E ↔ Q (f s).1 (f s).2 :=
  Iff.rfl

@[simp] theorem meets_refuse
    {e : Error}
    {s : σ} :
    (refuse e : Process σ α).Meets s Q E ↔ E e s :=
  Iff.rfl

/- A plain computation leaves the state as it is. -/
@[simp] theorem meets_ofExcept_ok
    {a : α}
    {s : σ} :
    (liftM (Except.ok a : Except Error α)
      : Process σ α).Meets s Q E ↔ Q a s :=
  Iff.rfl

@[simp] theorem meets_ofExcept_error
    {e : Error}
    {s : σ} :
    (liftM (Except.error e : Except Error α)
      : Process σ α).Meets s Q E ↔ E e s :=
  Iff.rfl

theorem meets_ofExcept
    {r : Except Error α}
    {s : σ} :
    (liftM r : Process σ α).Meets s Q E ↔
      (∀ a, r = .ok a → Q a s) ∧
        (∀ e, r = .error e → E e s) := by
  cases r <;> simp

/- Observing a step turns its refusal into a result. -/
@[simp] theorem meets_observe
    {m : Process σ α}
    {s : σ}
    {Q : Except Error α → σ → Prop} :
    m.observe.Meets s Q E ↔
      m.Meets s (fun a s' => Q (.ok a) s')
        (fun e s' => Q (.error e) s') := by
  unfold Meets observe
  rcases hm : m s with ⟨e | a, s'⟩ <;> simp

/- A step on a part of the state. -/
theorem meets_zoom
    {get : τ → σ}
    {set : σ → τ → τ}
    {m : Process σ α}
    {t : τ}
    {Q : α → τ → Prop}
    {E : Error → τ → Prop} :
    (zoom get set m).Meets t Q E ↔
      m.Meets (get t) (fun a s => Q a (set s t))
        (fun e s => E e (set s t)) := by
  unfold Meets zoom
  rcases hm : m (get t) with ⟨e | a, s'⟩ <;> simp

end FlowGraph.Process

------------------------------------------------------------
-- Builder Steps In A Session
------------------------------------------------------------

namespace FlowGraph.Script

variable {α : Type}

/- A session with another builder. -/
def Session.withBuilder
    (s : Session)
    (b : Builder) :
    Session :=
  { s with builder := b }

/- A step on the builder of a session. -/
@[simp] theorem meets_build
    {m : Build α}
    {s : Session}
    {Q : α → Session → Prop}
    {E : Error → Session → Prop} :
    (liftM m : Run α).Meets s Q E ↔
      m.Meets s.builder
        (fun a b => Q a (s.withBuilder b))
        (fun e b => E e (s.withBuilder b)) :=
  Process.meets_zoom

/- Evaluation under the current names changes nothing. -/
theorem meets_resolved
    {f : Names → Except Error α}
    {s : Session}
    {Q : α → Session → Prop}
    {E : Error → Session → Prop} :
    (resolved f).Meets s Q E ↔
      (∀ a, f s.names = .ok a → Q a s) ∧
        (∀ e, f s.names = .error e → E e s) := by
  unfold resolved
  rw [Process.meets_bind, Process.meets_read,
    Process.meets_ofExcept]

@[simp] theorem meets_note
    {path : Path}
    {event : Event}
    {s : Session}
    {Q : Unit → Session → Prop}
    {E : Error → Session → Prop} :
    (note path event).Meets s Q E ↔
      Q () (s.record path event) :=
  Iff.rfl

end FlowGraph.Script
