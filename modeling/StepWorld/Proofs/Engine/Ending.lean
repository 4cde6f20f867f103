import StepWorld.Proofs.Engine.Order

/-! How a loop ends. It leaves a paused simulation as it is and one that is over otherwise, and
it has left the schedule. -/

namespace StepWorld

namespace Engine

variable {e f g : Engine} {l : Loop} {rest : List Loop} {asleep : List (Float × Loop)}
  {s t : Simulation} {id : String}

def Faithful {α : Type} (task : Task α) : Prop :=
  ∀ e error, (Engine.call e task).1 = .error error → (Engine.call e task).2.refusals ≠ []

namespace Faithful

variable {α β : Type}

theorem of_pure (a : α) : Faithful (pure a : Task α) := fun _ _ h => by cases h

theorem of_get : Faithful (get : Task Engine) := fun _ _ h => by cases h

theorem of_modify (f : Engine → Engine) : Faithful (modify f : Task Unit) := fun _ _ h => by cases h

theorem of_modifyGet (f : Engine → α × Engine) : Faithful (modifyGet f : Task α) :=
  fun _ _ h => by cases h

theorem of_store (task : Archive.Task Unit) : Faithful (store task) := by
  intro e error h
  rcases @call_store e task with ⟨archive, hs, -⟩ | ⟨error, archive, hs⟩
  · rw [hs] at h
    cases h
  · rw [hs]
    simp

theorem of_bind {task : Task α} {next : α → Task β} (h : Faithful task)
    (hnext : ∀ a, Faithful (next a)) : Faithful (task >>= next) := by
  intro e error herror
  have he := h e
  rw [call_bind] at herror ⊢
  generalize e.call task = result at he herror ⊢
  obtain ⟨result, g⟩ := result
  cases result with
  | ok a => exact hnext a g error herror
  | error err => exact he err rfl

theorem complete (id : String) : Faithful (complete id) := by
  refine .of_bind (.of_modifyGet _) fun stamp => .of_bind .of_get fun e => ?_
  split
  · exact .of_pure _
  · refine .of_bind .of_get fun e => .of_bind (.of_modify _) fun _ => ?_
    exact .of_bind (.of_store _) fun _ => .of_bind (.of_store _) fun _ => .of_modify _

theorem setStatus (id : String) (status : SimulationStatus) : Faithful (setStatus id status) :=
  .of_bind (.of_modify _) fun _ => .of_store _

end Faithful

/-- A loop has ended and left a simulation; it has taken no step since. -/
structure Ended (e f : Engine) (l : Loop) (rest : List Loop) (asleep : List (Float × Loop))
    (s t : Simulation) : Prop where
  queue : f.schedule.queue = rest
  sleepers : f.schedule.sleepers = asleep
  own : f.simulations.get? l.simulation = some t
  step : t.currentStep = s.currentStep
  begun : f.begun = e.begun
  summaries : f.summaries = e.summaries

theorem Ended.since {s' : Simulation} (h : Ended f g l rest asleep s' t)
    (hstep : s'.currentStep = s.currentStep) (hb : f.begun = e.begun)
    (hs : f.summaries = e.summaries) : Ended e g l rest asleep s t :=
  { h with
    step := h.step.trans hstep
    begun := h.begun.trans hb
    summaries := h.summaries.trans hs }

theorem Midway.ended (h : f.Midway l rest asleep t) (hstep : t.currentStep = s.currentStep)
    (hb : f.begun = e.begun) (hs : f.summaries = e.summaries) :
    Ended e (f.endLoop l.simulation) l rest asleep s t where
  queue := h.endLoop.1
  sleepers := h.endLoop.2.1
  own := h.endLoop.2.2 ▸ h.own
  step := hstep
  begun := hb
  summaries := hs

theorem breakOff_spec (h : e.Midway l rest asleep s) (message : String) :
    ∃ t, Ended e (e.breakOff l.simulation message) l rest asleep s t ∧ t.status = .error ∧
      t.error = some message ∧
      (s.status = .running → e.Lawful → (e.breakOff l.simulation message).Lawful) := by
  have hnoted : (e.noteFailure l.simulation message).Midway l rest asleep
      { s with status := .error, completedAt := some e.tick.1, error := some message } :=
    ((h.noteEnd .error).alter fun s => { s with error := some message }).steady
      (steady_print _ _)
  have hfail := @steady_fail e l.simulation message
  refine ⟨_, (hnoted.steady hfail).ended rfl hfail.begun hfail.summaries, rfl, rfl, fun hs he => ?_⟩
  have hlaw := (he.noteFailure h.own hs message).steady hfail
  exact hlaw.unseen rfl rfl

theorem leave_spec (h : e.Midway l rest asleep s) :
    ∃ t, Ended e (e.leave l.simulation) l rest asleep s t ∧
      (s.status = .paused ∧ l.stopping = false ∧ t = s ∧
          (e.leave l.simulation).statuses = e.statuses ∨
        ¬(s.status = .paused ∧ l.stopping = false) ∧ t.status.terminal = true) ∧
      (s.status ≠ .error → (e.leave l.simulation).refusals = [] → e.Lawful →
        (e.leave l.simulation).Lawful) := by
  have hcond : ((e.runner? l.simulation).any (·.status == .paused) &&
      !(e.schedule.find? l.simulation).any (·.stopping)) = true ↔
        s.status = .paused ∧ l.stopping = false := by
    simp [h.find, h.runner]
  by_cases hp : s.status = .paused ∧ l.stopping = false
  · have hleave : e.leave l.simulation = e.endLoop l.simulation := by
      unfold leave
      exact if_pos (hcond.mpr hp)
    rw [hleave]
    refine ⟨s, h.ended rfl rfl rfl, .inl ⟨hp.1, hp.2, rfl, rfl⟩, fun _ _ he => ?_⟩
    exact he.unseen rfl rfl
  · have hsteady := steady_complete e l.simulation
    have hfaithful := Faithful.complete l.simulation e
    unfold leave
    rw [if_neg (mt hcond.mp hp)]
    generalize e.call (complete l.simulation) = result at hsteady hfaithful ⊢
    obtain ⟨result, f⟩ := result
    have hmid := (h.noteEnd .completed).steady hsteady
    cases result with
    | ok u =>
      refine ⟨_, hmid.ended rfl hsteady.begun hsteady.summaries, .inr ⟨hp, rfl⟩, fun hne _ he => ?_⟩
      exact ((he.noteEnd h.own (SimulationStatus.precedes_completed hne)).steady hsteady).unseen
        rfl rfl
    | error error =>
      obtain ⟨t, hend, ht, -⟩ := breakOff_spec hmid error.message
      refine ⟨t, hend.since rfl hsteady.begun hsteady.summaries, .inr ⟨hp, by rw [ht]; rfl⟩, ?_⟩
      intro _ hr _
      have hgrow := (@touches_breakOff l.simulation f error.message).refusals
      exact absurd (List.prefix_nil.mp (hr ▸ hgrow)) (hfaithful error rfl)

end Engine

end StepWorld
