import StepWorld.Proofs.Moves

/-! Two runs of computations, side by side. From states that are alike they come to the same result
and leave states that are alike, whether or not they fail. -/

namespace StepWorld

variable {σ ε α β : Type} {R : σ → σ → Prop}

def AgreesAt (R : σ → σ → Prop) (task task' : ExceptT ε (StateM σ) α) (s t : σ) : Prop :=
  (task.run.run s).1 = (task'.run.run t).1 ∧ R (task.run.run s).2 (task'.run.run t).2

def Agrees (R : σ → σ → Prop) (task task' : ExceptT ε (StateM σ) α) : Prop :=
  ∀ s t, R s t → AgreesAt R task task' s t

theorem AgreesAt.bind {task task' : ExceptT ε (StateM σ) α}
    {next next' : α → ExceptT ε (StateM σ) β} {s t : σ} (h : AgreesAt R task task' s t)
    (hnext : ∀ a, Agrees R (next a) (next' a)) :
    AgreesAt R (task >>= next) (task' >>= next') s t := by
  obtain ⟨hresult, hstate⟩ := h
  unfold AgreesAt
  rw [run_bind, run_bind]
  generalize task.run.run s = first at hresult hstate
  generalize task'.run.run t = second at hresult hstate
  obtain ⟨result, s⟩ := first
  obtain ⟨_, t⟩ := second
  subst hresult
  cases result with
  | ok a => exact hnext a s t hstate
  | error error => exact ⟨rfl, hstate⟩

theorem AgreesAt.of_run {task task' : ExceptT ε (StateM σ) α} {s t u : σ} {result : Except ε α}
    (h : AgreesAt R task task' s t) (hrun : task.run.run s = (result, u)) :
    ∃ v, task'.run.run t = (result, v) ∧ R u v := by
  obtain ⟨hresult, hstate⟩ := h
  rw [hrun] at hresult hstate
  exact ⟨(task'.run.run t).2, Prod.ext hresult.symm rfl, hstate⟩

namespace Agrees

theorem of_pure (a : α) : Agrees R (pure a : ExceptT ε (StateM σ) α) (pure a) :=
  fun _ _ h => ⟨rfl, h⟩

theorem of_throw (error : ε) : Agrees R (throw error : ExceptT ε (StateM σ) α) (throw error) :=
  fun _ _ h => ⟨rfl, h⟩

theorem of_modify {f f' : σ → σ} (h : ∀ s t, R s t → R (f s) (f' t)) :
    Agrees R (modify f : ExceptT ε (StateM σ) PUnit) (modify f') :=
  fun s t hst => ⟨rfl, h s t hst⟩

theorem of_bind {task task' : ExceptT ε (StateM σ) α}
    {next next' : α → ExceptT ε (StateM σ) β} (h : Agrees R task task')
    (hnext : ∀ a, Agrees R (next a) (next' a)) : Agrees R (task >>= next) (task' >>= next') :=
  fun s t hst => (h s t hst).bind hnext

theorem of_get_bind {next next' : σ → ExceptT ε (StateM σ) β}
    (h : ∀ s t, R s t → AgreesAt R (next s) (next' t) s t) :
    Agrees R (get >>= next) (get >>= next') := h

theorem of_look {next : σ → ExceptT ε (StateM σ) β} (hsame : ∀ s t, R s t → next t = next s)
    (h : ∀ s, Agrees R (next s) (next s)) : Agrees R (get >>= next) (get >>= next) :=
  of_get_bind fun s t hst => by
    rw [hsame s t hst]
    exact h s s t hst

theorem of_ite {c : Prop} [Decidable c] {first first' second second' : ExceptT ε (StateM σ) α}
    (h : Agrees R first first') (h' : Agrees R second second') :
    Agrees R (if c then first else second) (if c then first' else second') := by
  split
  · exact h
  · exact h'

end Agrees

end StepWorld
