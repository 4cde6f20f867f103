import StepWorld.Proofs.Archive.Shelf
import StepWorld.Proofs.Engine.Steady

/-! How a simulation is completed, left and broken off, beside what the archive keeps of it. Each of
these is done as a whole, or the archive has refused something. -/

namespace StepWorld

def Simulation.completed (s : Simulation) (stamp : Nat) : Simulation :=
  { s with status := .completed, completedAt := some stamp }

namespace Engine

variable {e f g : Engine} {id : String} {s : Simulation} {worlds : List World}
  {result : Option SimulationResult}

def Refused (e f : Engine) : Prop := e.refusals.length < f.refusals.length

theorem Refused.trans (h : e.Refused f) (hf : f.refusals <+: g.refusals) : e.Refused g :=
  Nat.lt_of_lt_of_le h hf.length_le

/-- What is kept of a simulation, in the engine and in the archive, which has refused nothing
since. -/
structure Kept (e g : Engine) (id : String) (s : Simulation) (worlds : List World)
    (result : Option SimulationResult) : Prop where
  own : g.simulations.get? id = some s
  outcome : g.results.get? id = result
  failure : g.failures.get? id = none
  refusals : g.refusals = e.refusals
  archive : Archive.Keeps id worlds result g.archive

theorem Kept.runner (h : e.Kept g id s worlds result) : g.runner? id = some s := runner?_own h.own

structure Finished (e g f : Engine) (id : String) (s : Simulation) (worlds : List World) :
    Prop where
  realms : f.arena.realms = g.arena.realms
  kept : ∃ stamp, e.Kept f id (s.completed stamp) worlds
    (some ((s.completed stamp).result ((g.arena.world? id).getD (.empty stamp))))

theorem Finished.world (h : e.Finished g f id s worlds) : f.arena.world? id = g.arena.world? id := by
  rw [Arena.world?, h.realms]
  rfl

theorem get?_noteEnd (hs : e.simulations.get? id = some s) :
    (e.noteEnd id .completed).2.simulations.get? id = some (s.completed e.tick.1) := by
  simp [noteEnd, enter, alter, tick, Table.get?_modify, hs, Simulation.completed]

def outcome (e : Engine) (id : String) (s : Simulation) : SimulationResult :=
  (s.completed e.tick.1).result ((e.arena.world? id).getD (.empty e.tick.1))

def noteResult (e : Engine) (id : String) (s : Simulation) : Engine :=
  { (e.noteEnd id .completed).2 with
    results := e.results.put id (e.outcome id s), active := e.active.erase id }

theorem complete_cases (hs : e.simulations.get? id = some s) :
    (∃ middle archive message,
      (Archive.setStatus id .completed (some e.tick.1)).run.run e.archive = (.ok (), middle) ∧
      (Archive.saveResult id (e.outcome id s)).run.run middle = (.ok (), archive) ∧
      e.call (complete id) =
        (.ok (), ({ e.noteResult id s with archive } : Engine).print .success message)) ∨
      ∃ error archive, e.call (complete id) = (.error (.archive error),
        { e.noteResult id s with archive, refusals := e.refusals ++ [error] }) := by
  have hrunner : (e.noteEnd id .completed).2.runner? id = some (s.completed e.tick.1) :=
    runner?_own (get?_noteEnd hs)
  rw [call_complete hrunner]
  change (∃ _ _ _, _ ∧ _ ∧ (e.noteResult id s).call _ = _) ∨
    ∃ _ _, (e.noteResult id s).call _ = _
  rw [call_bind]
  rcases @call_store (e.noteResult id s) (Archive.setStatus id .completed (some e.tick.1)) with
    ⟨middle, hstore, hmiddle⟩ | ⟨error, middle, hstore⟩
  · rw [hstore]
    dsimp only
    rw [call_bind]
    rcases @call_store { e.noteResult id s with archive := middle }
      (Archive.saveResult id (e.outcome id s)) with
      ⟨archive, hstore', harchive⟩ | ⟨error, archive, hstore'⟩
    · exact .inl ⟨middle, archive, _, hmiddle, harchive, by rw [outcome] at hstore'; rw [hstore']; rfl⟩
    · exact .inr ⟨error, archive, by rw [outcome] at hstore'; rw [hstore']; rfl⟩
  · rw [hstore]
    exact .inr ⟨error, middle, rfl⟩

theorem Kept.complete (h : e.Kept g id s worlds result) :
    (∃ f, g.call (complete id) = (.ok (), f) ∧ e.Finished g f id s worlds) ∨
      ∃ error f, g.call (complete id) = (.error error, f) ∧ e.Refused f := by
  rcases complete_cases h.own with
    ⟨middle, archive, message, hmiddle, harchive, hcall⟩ | ⟨error, archive, hcall⟩
  · refine .inl ⟨_, hcall, rfl, g.tick.1, get?_noteEnd h.own, ?_, h.failure, h.refusals, ?_⟩
    · exact (Table.get?_put _ _ _ _).trans (if_pos rfl)
    · exact (h.archive.setStatus hmiddle).saveResult harchive
  · refine .inr ⟨_, _, hcall, ?_⟩
    simp [Refused, h.refusals]

theorem schedule_breakOff (message : String) :
    (g.breakOff id message).schedule = g.schedule.remove id :=
  congrArg (·.remove id) (steady_fail message).schedule

theorem schedule_leave : (g.leave id).schedule = g.schedule.remove id := by
  have hcomplete := (steady_complete g id).schedule
  unfold leave
  dsimp only
  split
  · rfl
  · split
    · next f hf =>
      rw [hf] at hcomplete
      exact congrArg (·.remove id) hcomplete
    · next error f hf =>
      rw [hf] at hcomplete
      rw [schedule_breakOff, hcomplete]
      rfl

theorem leave_completes (hs : g.runner? id = some s) (hp : s.status ≠ .paused) : g.leave id =
    match g.call (complete id) with
    | (.ok (), f) => f.endLoop id
    | (.error error, f) => f.breakOff id error.message := by
  have hcond : ((g.runner? id).any (·.status == .paused) &&
      !(g.schedule.find? id).any (·.stopping)) = false := by
    simp [hs, hp]
  unfold Engine.leave
  dsimp only
  rw [hcond]
  exact if_neg Bool.false_ne_true

theorem Kept.leave (h : e.Kept g id s worlds result) (hp : s.status ≠ .paused) :
    e.Finished g (g.leave id) id s worlds ∨ e.Refused (g.leave id) := by
  rw [leave_completes h.runner hp]
  rcases h.complete with ⟨f, hf, hfinished⟩ | ⟨error, f, hf, hrefused⟩
  · rw [hf]
    refine .inl ⟨hfinished.realms, ?_⟩
    obtain ⟨stamp, hkept⟩ := hfinished.kept
    exact ⟨stamp, hkept.own, hkept.outcome, hkept.failure, hkept.refusals, hkept.archive⟩
  · rw [hf]
    exact .inr (hrefused.trans (touches_breakOff f error.message).refusals)

theorem leave_paused (hs : g.runner? id = some s) (hp : s.status = .paused)
    (hstopping : (g.schedule.find? id).any (·.stopping) = false) : g.leave id = g.endLoop id := by
  unfold Engine.leave
  simp [hs, hp, hstopping]

theorem Kept.breakOff (h : e.Kept g id s worlds result) (message : String) :
    (∃ stamp, e.Kept (g.breakOff id message) id
      { s with status := .error, completedAt := some stamp, error := some message }
      worlds result) ∨
      e.Refused (g.breakOff id message) := by
  unfold Engine.breakOff
  rcases @fail_cases g id message with ⟨archive, hfail, harchive⟩ | ⟨error, archive, hfail⟩
  · rw [hfail]
    refine .inl ⟨g.tick.1, ?_, h.outcome, h.failure, h.refusals, h.archive.setStatus harchive⟩
    simp [endLoop, noteFailure, print, noteEnd, enter, alter, Table.get?_modify, tick, h.own]
  · rw [hfail]
    exact .inr (by simp [Refused, endLoop, h.refusals])

theorem Kept.saveSnapshot (h : e.Kept g id s worlds result) (w : World) :
    (∃ archive, (g.call (store (Archive.saveSnapshot id (worlds.length + 1 : Nat) w))) =
        (.ok (), { g with archive }) ∧
      e.Kept { g with archive } id s (worlds ++ [w]) result) ∨
      ∃ error f, (g.call (store (Archive.saveSnapshot id (worlds.length + 1 : Nat) w))) =
        (.error error, f) ∧ f.schedule = g.schedule ∧ e.Refused f := by
  rcases @call_store g (Archive.saveSnapshot id (worlds.length + 1 : Nat) w) with
    ⟨archive, hstore, harchive⟩ | ⟨error, archive, hstore⟩
  · refine .inl ⟨archive, hstore, h.own, h.outcome, h.failure, h.refusals, ?_⟩
    exact h.archive.saveSnapshot harchive
  · exact .inr ⟨_, _, hstore, rfl, by simp [Refused, h.refusals]⟩

end Engine

end StepWorld
