import StepWorld.Engine.Loop

/-! Calls on an engine, taken apart. A call is run by running its parts one after another, and
each of the basic calls is described by one equation. -/

namespace StepWorld

namespace Engine

variable {α β : Type} {e : Engine} {id : String}

@[simp] theorem call_pure (a : α) : e.call (pure a) = (.ok a, e) := rfl

@[simp] theorem call_throw (error : CallError) :
    e.call (throw error : Task α) = (.error error, e) := rfl

@[simp] theorem call_get : e.call get = (.ok e, e) := rfl

@[simp] theorem call_modify (f : Engine → Engine) : e.call (modify f) = (.ok (), f e) := rfl

@[simp] theorem call_modifyGet (f : Engine → α × Engine) :
    e.call (modifyGet f) = (.ok (f e).1, (f e).2) := rfl

theorem call_bind (task : Task α) (next : α → Task β) :
    e.call (task >>= next) =
      match e.call task with
      | (.ok a, e) => e.call (next a)
      | (.error error, e) => (.error error, e) := by
  unfold call
  simp only [ExceptT.run, bind, ExceptT.bind, ExceptT.mk, StateT.bind, StateT.run, ExceptT.bindCont]
  generalize task e = result
  obtain ⟨result, e'⟩ := result
  cases result <;> rfl

theorem call_lookup :
    e.call (lookup id) =
      match e.simulations.get? id with
      | some s => (.ok s, e)
      | none => (.error (.simulationNotFound id), e) := by
  unfold lookup
  rw [call_bind, call_get]
  dsimp only
  cases e.simulations.get? id <;> rfl

theorem call_lookupFor (action : LifecycleAction) :
    e.call (lookupFor action id) =
      match e.simulations.get? id with
      | none => (.error (.simulationNotFound id), e)
      | some s =>
        if action.allows s.status then (.ok s, e)
        else (.error (.invalidTransition id action s.status), e) := by
  unfold lookupFor
  rw [call_bind, call_lookup]
  cases e.simulations.get? id with
  | none => rfl
  | some s =>
    by_cases h : action.allows s.status = true
    · simp [h]
    · simp [h]

theorem call_store (task : Archive.Task Unit) :
    (∃ archive, e.call (store task) = (.ok (), { e with archive }) ∧
        task.run.run e.archive = (.ok (), archive)) ∨
      ∃ error archive, e.call (store task) =
        (.error (.archive error), { e with archive, refusals := e.refusals ++ [error] }) := by
  simp only [call, store, ExceptT.run, ExceptT.mk, StateT.run]
  generalize task e.archive = result
  obtain ⟨result, archive⟩ := result
  cases result with
  | ok => exact .inl ⟨archive, rfl, rfl⟩
  | error error => exact .inr ⟨error, archive, rfl⟩

theorem archive_store (task : Archive.Task Unit) :
    (e.call (store task)).2.archive = (task.run.run e.archive).2 := by
  simp only [call, store, ExceptT.run, ExceptT.mk, StateT.run]
  generalize task e.archive = result
  obtain ⟨result, archive⟩ := result
  cases result <;> rfl

theorem call_store_ok {task : Archive.Task Unit} {archive : Archive}
    (h : task.run.run e.archive = (.ok (), archive)) :
    e.call (store task) = (.ok (), { e with archive }) := by
  have htask : task e.archive = (.ok (), archive) := h
  simp only [call, store, ExceptT.run, ExceptT.mk, StateT.run, htask]

theorem setStatus_cases (e : Engine) (id : String) (status : SimulationStatus) :
    (∃ archive, e.call (setStatus id status) = (.ok (), { e.enter id status with archive }) ∧
        (Archive.setStatus id status none).run.run e.archive = (.ok (), archive)) ∨
      ∃ error archive, e.call (setStatus id status) =
        (.error (.archive error),
          { e.enter id status with archive, refusals := e.refusals ++ [error] }) := by
  unfold setStatus
  rw [call_bind, call_modify]
  exact call_store _

theorem call_setStatus {status : SimulationStatus} {archive : Archive}
    (h : (Archive.setStatus id status none).run.run e.archive = (.ok (), archive)) :
    e.call (setStatus id status) = (.ok (), { e.enter id status with archive }) := by
  unfold setStatus
  rw [call_bind, call_modify]
  exact call_store_ok h

theorem call_complete_none (h : (e.noteEnd id .completed).2.runner? id = none) :
    e.call (complete id) = (.ok (), (e.noteEnd id .completed).2) := by
  unfold complete
  rw [call_bind, call_modifyGet]
  dsimp only
  rw [call_bind, call_get]
  dsimp only
  rw [h]
  rfl

theorem call_complete {s : Simulation} (h : (e.noteEnd id .completed).2.runner? id = some s) :
    e.call (complete id) =
      { (e.noteEnd id .completed).2 with
        results := e.results.put id (s.result ((e.arena.world? id).getD (.empty e.tick.1)))
        active := e.active.erase id }.call (do
          store (Archive.setStatus id .completed (some e.tick.1))
          store (Archive.saveResult id (s.result ((e.arena.world? id).getD (.empty e.tick.1))))
          modify fun f => print f .success
            ("[Simulation] " ++ id ++ " completed after " ++ toString s.currentStep ++
              " steps")) := by
  unfold complete
  rw [call_bind, call_modifyGet]
  dsimp only
  rw [call_bind, call_get]
  dsimp only
  rw [h]
  dsimp only
  rw [call_bind, call_get]
  dsimp only
  rw [call_bind, call_modify]
  rfl

def noteFailure (e : Engine) (id message : String) : Engine :=
  let f := (e.noteEnd id .error).2.alter id fun s => { s with error := some message }
  let step := ((f.runner? id).map (·.currentStep)).getD 0
  f.print .error ("[Simulation] " ++ id ++ " failed at step " ++ toString step ++ ": " ++ message)

theorem fail_cases (message : String) :
    (∃ archive, e.fail id message = { e.noteFailure id message with archive } ∧
        (Archive.setStatus id .error (some e.tick.1)).run.run e.archive = (.ok (), archive)) ∨
      ∃ error archive, e.fail id message =
        { e.noteFailure id message with
          archive
          refusals := e.refusals ++ [error]
          failures := e.failures.put id (.archive error) } := by
  have hstore := @call_store (e.noteFailure id message)
    (Archive.setStatus id .error (some (e.noteEnd id .error).1))
  unfold fail noteFailure
  unfold noteFailure at hstore
  have hkept : (e.noteEnd id .error).2.failures = e.failures := rfl
  have hrefused : (e.noteEnd id .error).2.refusals = e.refusals := rfl
  have harchive : (e.noteEnd id .error).2.archive = e.archive := rfl
  have hstamp : (e.noteEnd id .error).1 = e.tick.1 := rfl
  generalize e.noteEnd id .error = noted at hstore hkept hrefused harchive hstamp ⊢
  obtain ⟨stamp, noted⟩ := noted
  dsimp only at hstore hkept hrefused harchive hstamp ⊢
  rcases hstore with ⟨archive, hs, hrun⟩ | ⟨error, archive, hs⟩
  · rw [hs]
    refine .inl ⟨archive, rfl, ?_⟩
    rw [← harchive, ← hstamp]
    exact hrun
  · rw [hs, ← hkept, ← hrefused]
    exact .inr ⟨error, archive, rfl⟩

theorem archive_fail (e : Engine) (id message : String) : (e.fail id message).archive =
    ((Archive.setStatus id .error (some e.tick.1)).run.run e.archive).2 := by
  have hstore := @archive_store (e.noteFailure id message)
    (Archive.setStatus id .error (some (e.noteEnd id .error).1))
  unfold noteFailure at hstore
  unfold fail
  dsimp only
  split
  · next hcall =>
    rw [hcall] at hstore
    exact hstore
  · next hcall =>
    rw [hcall] at hstore
    exact hstore

def conclude (e : Engine) (s : Simulation) (σ : StepSummary) (world : World) : Engine :=
  if σ.terminal then
    let flag := if world.flagged "GameOver" then "GameOver" else "LevelComplete"
    (e.print .info ("[Simulation] " ++ s.id ++ " reached " ++ flag ++ " at step " ++
      toString σ.step)).leave s.id
  else
    match e.call (store (Archive.saveSnapshot s.id σ.step world)) with
    | (.ok (), e) => e.rest s
    | (.error error, e) => e.breakOff s.id error.message

theorem afterStep_eq {f : Engine} {s : Simulation} {σ : StepSummary} {world : World}
    (h : reactAll { e with summaries := e.summaries ++ [(s.id, σ)] } s.id
      ((e.arena.world? s.id).getD (.empty 0)) (e.listener s.id σ.step) = (world, f)) :
    e.afterStep s σ = f.conclude s σ world := by
  unfold afterStep
  dsimp only
  rw [h]
  rfl

end Engine

end StepWorld
