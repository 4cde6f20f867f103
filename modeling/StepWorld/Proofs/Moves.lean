import StepWorld.Rest

/-! Where a computation with a state may lead. A relation between states that is reflexive and
transitive holds along a computation once it holds along its parts, whether or not the
computation fails. -/

namespace StepWorld

variable {σ ε α β : Type} {R : σ → σ → Prop}

def Moves (R : σ → σ → Prop) (task : ExceptT ε (StateM σ) α) : Prop :=
  ∀ s, R s (task.run.run s).2

theorem run_bind (task : ExceptT ε (StateM σ) α) (next : α → ExceptT ε (StateM σ) β) (s : σ) :
    (task >>= next).run.run s =
      match task.run.run s with
      | (.ok a, t) => (next a).run.run t
      | (.error error, t) => (.error error, t) := by
  simp only [ExceptT.run, bind, ExceptT.bind, ExceptT.mk, StateT.bind, StateT.run,
    ExceptT.bindCont]
  generalize task s = result
  obtain ⟨result, t⟩ := result
  cases result <;> rfl

namespace Moves

variable [Std.Refl R]

theorem of_pure (a : α) : Moves R (pure a : ExceptT ε (StateM σ) α) := fun s => Std.Refl.refl s

theorem of_throw (error : ε) : Moves R (throw error : ExceptT ε (StateM σ) α) :=
  fun s => Std.Refl.refl s

theorem of_get : Moves R (get : ExceptT ε (StateM σ) σ) := fun s => Std.Refl.refl s

omit [Std.Refl R] in
theorem of_modify {f : σ → σ} (h : ∀ s, R s (f s)) :
    Moves R (modify f : ExceptT ε (StateM σ) PUnit) := h

omit [Std.Refl R] in
theorem of_modifyGet {f : σ → α × σ} (h : ∀ s, R s (f s).2) :
    Moves R (modifyGet f : ExceptT ε (StateM σ) α) := h

omit [Std.Refl R] in
theorem bind_at [Trans R R R] {task : ExceptT ε (StateM σ) α} {s : σ}
    {next : α → ExceptT ε (StateM σ) β} (h : R s (task.run.run s).2)
    (hnext : ∀ a, Moves R (next a)) : R s ((task >>= next).run.run s).2 := by
  rw [run_bind]
  generalize task.run.run s = result at h
  obtain ⟨result, t⟩ := result
  cases result with
  | ok a => exact Trans.trans h (hnext a t)
  | error error => exact h

omit [Std.Refl R] in
theorem bind_from {P Q : σ → Prop} {task : ExceptT ε (StateM σ) α} {s : σ}
    {next : α → ExceptT ε (StateM σ) β} (h : Q (task.run.run s).2) (hstop : ∀ t, Q t → P t)
    (hnext : ∀ a t, Q t → P ((next a).run.run t).2) : P ((task >>= next).run.run s).2 := by
  rw [run_bind]
  generalize task.run.run s = result at h
  obtain ⟨result, t⟩ := result
  cases result with
  | ok a => exact hnext a t h
  | error error => exact hstop t h

omit [Std.Refl R] in
theorem of_bind [Trans R R R] {task : ExceptT ε (StateM σ) α} {next : α → ExceptT ε (StateM σ) β}
    (h : Moves R task) (hnext : ∀ a, Moves R (next a)) : Moves R (task >>= next) :=
  fun s => bind_at (h s) hnext

omit [Std.Refl R] in
theorem of_get_bind {next : σ → ExceptT ε (StateM σ) β}
    (h : ∀ s, R s ((next s).run.run s).2) : Moves R (get >>= next) := h

omit [Std.Refl R] in
theorem of_ite {c : Prop} [Decidable c] {first second : ExceptT ε (StateM σ) α}
    (h : Moves R first) (h' : Moves R second) : Moves R (if c then first else second) := by
  split
  · exact h
  · exact h'

end Moves

theorem run_get_bind (next : σ → ExceptT ε (StateM σ) β) (s : σ) :
    (get >>= next).run.run s = (next s).run.run s := rfl

theorem run_bind_eq_ok {task : ExceptT ε (StateM σ) α} {next : α → ExceptT ε (StateM σ) β}
    {s t : σ} {b : β} : (task >>= next).run.run s = (.ok b, t) ↔
      ∃ a r, task.run.run s = (.ok a, r) ∧ (next a).run.run r = (.ok b, t) := by
  simp only [ExceptT.run, bind, ExceptT.bind, ExceptT.mk, StateT.bind, StateT.run,
    ExceptT.bindCont]
  generalize task s = result
  obtain ⟨result, r⟩ := result
  cases result with
  | ok a =>
    constructor
    · exact fun h => ⟨a, r, rfl, h⟩
    · rintro ⟨a, r, hfirst, h⟩
      cases hfirst
      exact h
  | error error =>
    constructor
    · intro h
      cases h
    · rintro ⟨a, r, hfirst, -⟩
      cases hfirst

theorem run_bind_eq_error {task : ExceptT ε (StateM σ) α} {next : α → ExceptT ε (StateM σ) β}
    {s t : σ} {error : ε} : (task >>= next).run.run s = (.error error, t) ↔
      task.run.run s = (.error error, t) ∨
      ∃ a r, task.run.run s = (.ok a, r) ∧ (next a).run.run r = (.error error, t) := by
  rw [run_bind]
  generalize task.run.run s = result
  obtain ⟨result, r⟩ := result
  cases result with
  | ok a =>
    constructor
    · exact fun h => .inr ⟨a, r, rfl, h⟩
    · rintro (h | ⟨_, _, hfirst, h⟩)
      · cases h
      · cases hfirst
        exact h
  | error failure =>
    constructor
    · intro h
      cases h
      exact .inl rfl
    · rintro (h | ⟨_, _, hfirst, -⟩)
      · cases h
        rfl
      · cases hfirst

end StepWorld
