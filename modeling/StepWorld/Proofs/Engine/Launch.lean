import StepWorld.Proofs.Engine.Lifecycle
import StepWorld.Proofs.Engine.Lone

/-! The start of a simulation and the wait for its loop, as equations. -/

namespace StepWorld

def Simulation.launched (s : Simulation) (stamp : Nat) : Simulation :=
  { s with startedAt := some stamp, status := .running }

namespace Engine

variable {e f : Engine} {id : String} {s : Simulation}

theorem call_create_ok {specification : String} {o : SimulationOptions}
    (h : e.call (createSimulation specification o) = (.ok id, f)) :
    ∃ (spec : Specification) (archive : Archive) (message : String),
      e.specifications.get? specification = some spec ∧
      (e.addSimulation specification spec.program o).1.id = id ∧
      (Archive.saveRecord (e.addSimulation specification spec.program o).1).run.run e.archive =
        (.ok (), archive) ∧
      f = ({ (e.addSimulation specification spec.program o).2 with archive } : Engine).print .info
        message := by
  unfold createSimulation at h
  rw [call_bind, call_get] at h
  dsimp only at h
  cases hspec : e.specifications.get? specification with
  | none =>
    rw [hspec] at h
    cases h
  | some spec =>
    rw [hspec] at h
    dsimp only at h
    rw [call_bind, call_modifyGet] at h
    dsimp only at h
    rw [call_bind] at h
    rcases @call_store (e.addSimulation specification spec.program o).2
      (Archive.saveRecord (e.addSimulation specification spec.program o).1) with
      ⟨archive, hstore, hrun⟩ | ⟨error, archive, hstore⟩
    · rw [hstore] at h
      cases h
      exact ⟨spec, archive, _, rfl, rfl, hrun, rfl⟩
    · rw [hstore] at h
      cases h

theorem lone_spawn (h : e.schedule.loops = []) : (e.spawn id).Lone id false := by
  obtain ⟨hq, hs⟩ := List.append_eq_nil_iff.mp h
  refine ⟨⟨.fresh, ?_⟩, List.map_eq_nil_iff.mp hs⟩
  change e.schedule.queue ++ [_] = _
  rw [hq]
  rfl

def launched (e : Engine) (id : String) (archive : Archive) : Engine :=
  (spawn { (e.noteStart id).enter id .running with archive } id).print .info
    ("[Simulation] Started " ++ id)

theorem start_cases (hs : e.simulations.get? id = some s) (hc : s.status = .created) :
    (∃ archive, e.perform (.start id) = (.ok (), e.launched id archive) ∧
      (Archive.setStatus id .running none).run.run e.archive = (.ok (), archive)) ∨
      ∃ error archive, e.perform (.start id) = (.error (.archive error),
        { (e.noteStart id).enter id .running with
          archive, refusals := e.refusals ++ [error] }) := by
  have hallowed : LifecycleAction.start.allows s.status = true := by rw [hc]; rfl
  unfold perform LifecycleCall.task start
  dsimp only
  rw [call_of_get? hs hallowed, call_bind, call_modify]
  dsimp only
  rw [call_bind]
  rcases (e.noteStart id).setStatus_cases id .running with
    ⟨archive, hcall, hrun⟩ | ⟨error, archive, hcall⟩
  · rw [hcall]
    exact .inl ⟨archive, rfl, hrun⟩
  · rw [hcall]
    exact .inr ⟨error, archive, rfl⟩

theorem perform_start {archive : Archive} (hs : e.simulations.get? id = some s)
    (hc : s.status = .created)
    (hrun : (Archive.setStatus id .running none).run.run e.archive = (.ok (), archive)) :
    e.perform (.start id) = (.ok (), e.launched id archive) := by
  have hallowed : LifecycleAction.start.allows s.status = true := by rw [hc]; rfl
  have hrun' : (Archive.setStatus id .running none).run.run (e.noteStart id).archive =
      (.ok (), archive) := hrun
  unfold perform LifecycleCall.task start
  dsimp only
  rw [call_of_get? hs hallowed, call_bind, call_modify]
  dsimp only
  rw [call_bind, call_setStatus hrun']
  rfl

def relaunched (e : Engine) (s : Simulation) (archive : Archive) : Engine :=
  (spawn { e.enter s.id .running with archive } s.id).print .info
    ("[Simulation] Resumed " ++ s.id ++ " at step " ++ toString s.currentStep)

theorem perform_resume {archive : Archive} (hs : e.simulations.get? id = some s) (hid : s.id = id)
    (hp : s.status = .paused) (hidle : e.pending id = false)
    (hfailure : e.failures.get? id = none)
    (hrun : (Archive.setStatus id .running none).run.run e.archive = (.ok (), archive)) :
    e.perform (.resume id) = (.ok (), e.relaunched s archive) := by
  have hallowed : LifecycleAction.resume.allows s.status = true := by rw [hp]; rfl
  have hawait : e.awaitLoop id = e := by
    unfold awaitLoop
    rw [hidle]
    rfl
  unfold perform LifecycleCall.task resume
  dsimp only
  rw [call_of_get? hs hallowed, call_bind, call_await, hawait, hfailure]
  dsimp only
  rw [call_of_get? hs hallowed, call_bind, call_setStatus hrun]
  dsimp only
  rw [call_modify, relaunched, hid]

theorem perform_wait (hs : e.simulations.get? id = some s) :
    e.perform (.wait id) =
      match (e.awaitLoop id).failures.get? id with
      | some error => (.error error, e.awaitLoop id)
      | none => (.ok (), e.awaitLoop id) := by
  unfold perform LifecycleCall.task wait
  dsimp only
  rw [call_bind, call_lookup, hs]
  exact call_await e id

theorem perform_wait_awaits (hs : e.simulations.get? id = some s) :
    (e.perform (.wait id)).2 = e.awaitLoop id := by
  rw [perform_wait hs]
  split <;> rfl

end Engine

end StepWorld
