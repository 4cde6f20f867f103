import StepWorld.Proofs.Engine.Touches

/-! What is done beside the simulations, their statuses and their loops. Every change of a
status is one entry, followed by nothing that matters to the life of a simulation. -/

namespace StepWorld

/-- Simulations, loops and what was noted of them are the same. Only the archive may have refused
something more. -/
structure Engine.Steady (e f : Engine) : Prop where
  simulations : f.simulations = e.simulations
  detached : f.detached = e.detached
  statuses : f.statuses = e.statuses
  schedule : f.schedule = e.schedule
  begun : f.begun = e.begun
  summaries : f.summaries = e.summaries
  listener : f.listener = e.listener
  issued : e.arena.ambient.issued ≤ f.arena.ambient.issued
  results : ∀ k, e.results.get? k = none →
    f.results.get? k = none ∨ ∃ status, (k, status) ∈ f.statuses
  refusals : e.refusals <+: f.refusals
  failures : f.refusals = [] → ∀ k, e.failures.get? k = none → f.failures.get? k = none

namespace Engine

namespace Steady

theorem refl (e : Engine) : Steady e e where
  simulations := rfl
  detached := rfl
  statuses := rfl
  schedule := rfl
  begun := rfl
  summaries := rfl
  listener := rfl
  issued := Nat.le_refl _
  results _ h := .inl h
  refusals := List.prefix_refl _
  failures _ _ h := h

theorem trans {e f g : Engine} (h : Steady e f) (h' : Steady f g) : Steady e g where
  simulations := h'.simulations.trans h.simulations
  detached := h'.detached.trans h.detached
  statuses := h'.statuses.trans h.statuses
  schedule := h'.schedule.trans h.schedule
  begun := h'.begun.trans h.begun
  summaries := h'.summaries.trans h.summaries
  listener := h'.listener.trans h.listener
  issued := Nat.le_trans h.issued h'.issued
  results k hk := by
    rcases h.results k hk with hnone | ⟨status, hstatus⟩
    · exact h'.results k hnone
    · exact .inr ⟨status, h'.statuses ▸ hstatus⟩
  refusals := h.refusals.trans h'.refusals
  failures hr k hk := h'.failures hr k (h.failures (List.prefix_nil.mp (hr ▸ h'.refusals)) k hk)

instance : Std.Refl Steady := ⟨refl⟩

instance : Trans Steady Steady Steady := ⟨trans⟩

theorem unseen (e : Engine) (arena : Arena) (started active : List String) (archive : Archive)
    (h : e.arena.ambient.issued ≤ arena.ambient.issued) :
    Steady e { e with arena, started, active, archive } :=
  { refl e with issued := h }

theorem store (task : Archive.Task Unit) : Moves Steady (store task) := by
  intro e
  have hcall : ((Engine.store task).run.run e).2 = (e.call (Engine.store task)).2 := rfl
  rw [hcall]
  rcases call_store task with ⟨archive, h, -⟩ | ⟨error, archive, h⟩
  · rw [h]
    exact unseen e _ _ _ _ (Nat.le_refl _)
  · rw [h]
    exact { refl e with
      refusals := List.prefix_append _ _
      failures := fun hr => by simp at hr }

end Steady

variable {e : Engine} {id : String}

theorem call_of_get? {action : LifecycleAction} {s : Simulation} {α : Type}
    {next : Simulation → Task α} (hs : e.simulations.get? id = some s)
    (ha : action.allows s.status = true) :
    e.call (lookupFor action id >>= next) = e.call (next s) := by
  rw [call_bind, call_lookupFor, hs]
  simp only [ha, if_true]

theorem call_refused {action : LifecycleAction} {α : Type} {next : Simulation → Task α}
    (h : ∀ s, e.simulations.get? id = some s → action.allows s.status = false) :
    ∃ error, e.call (lookupFor action id >>= next) = (.error error, e) := by
  rw [call_bind, call_lookupFor]
  cases hs : e.simulations.get? id with
  | none => exact ⟨_, rfl⟩
  | some s =>
    simp only [h s hs, Bool.false_eq_true, if_false]
    exact ⟨_, rfl⟩

theorem steady_print (kind : LineKind) (message : String) : Steady e (e.print kind message) :=
  .unseen e _ _ _ _ (Nat.le_refl _)

theorem steady_call {α : Type} {task : Task α} (h : Moves Steady task) :
    Steady e (e.call task).2 := h e

theorem steady_bind {α β : Type} {f : Engine} {task : Task α} {next : α → Task β}
    (h : Steady f (e.call task).2) (hnext : ∀ a, Moves Steady (next a)) :
    Steady f (e.call (task >>= next)).2 := by
  rw [call_bind]
  generalize e.call task = result at h
  obtain ⟨result, g⟩ := result
  cases result with
  | ok a => exact h.trans (hnext a g)
  | error error => exact h

theorem steady_setStatus (e : Engine) (id : String) (status : SimulationStatus) :
    Steady (e.enter id status) (e.call (setStatus id status)).2 := by
  unfold setStatus
  rw [call_bind, call_modify]
  exact Steady.store _ _

theorem steady_pause {s : Simulation} (hs : e.simulations.get? id = some s)
    (h : s.status = .running) :
    Steady ((e.cancel id).enter id .paused) (e.call (pause id)).2 := by
  unfold pause
  rw [call_of_get? hs (by rw [h]; rfl), call_bind, call_modify]
  exact steady_bind (steady_setStatus _ _ _) fun _ => .of_modify fun f => steady_print _ _

theorem steady_complete (e : Engine) (id : String) :
    Steady (e.noteEnd id .completed).2 (e.call (complete id)).2 := by
  cases hs : (e.noteEnd id .completed).2.runner? id with
  | none =>
    rw [call_complete_none hs]
    exact .refl _
  | some s =>
    rw [call_complete hs]
    generalize s.result ((e.arena.world? id).getD (.empty e.tick.1)) = result
    have hnoted : (id, .completed) ∈ (e.noteEnd id .completed).2.statuses := by
      simp [noteEnd, enter, alter, tick]
    have hresult : Steady (e.noteEnd id .completed).2 { (e.noteEnd id .completed).2 with
        results := e.results.put id result, active := e.active.erase id } :=
      { Steady.refl _ with
        results := fun k hk => by
          by_cases hid : k = id
          · rw [hid]
            exact .inr ⟨_, hnoted⟩
          · exact .inl ((Table.get?_put _ _ _ _).trans ((if_neg hid).trans hk)) }
    refine hresult.trans (steady_call ?_)
    refine .of_bind (Steady.store _) fun _ => .of_bind (Steady.store _) fun _ => ?_
    exact .of_modify fun f => steady_print _ _

theorem steady_stopWithin {s : Simulation} (hs : e.simulations.get? id = some s)
    (h : s.status.terminal = false) :
    Steady ((e.cancel id).noteEnd id .completed).2 (e.call (stopWithin id)).2 := by
  unfold stopWithin
  rw [call_of_get? hs (by simp [LifecycleAction.allows, h]), call_bind, call_modify]
  exact steady_complete _ _

theorem steady_fail (message : String) :
    Steady (e.noteFailure id message) (e.fail id message) := by
  rcases @fail_cases e id message with ⟨archive, h, -⟩ | ⟨error, archive, h⟩
  · rw [h]
    exact .unseen _ _ _ _ _ (Nat.le_refl _)
  · rw [h]
    exact { Steady.refl (e.noteFailure id message) with
      refusals := List.prefix_append _ _
      failures := fun hr => by simp at hr }

end Engine

end StepWorld
