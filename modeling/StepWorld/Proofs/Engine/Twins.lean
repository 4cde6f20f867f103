import StepWorld.Proofs.Archive.Twins
import StepWorld.Proofs.Engine.Iteration
import StepWorld.Proofs.Engine.Lone
import StepWorld.Proofs.Engine.Paired
import StepWorld.Proofs.World.Unread

/-! Two engines side by side, in which the same simulation takes the same step. A step looks at the
declarations and the worlds, and of its simulation neither at the status nor at how many steps it
may take. What ends a run looks at no more. -/

namespace StepWorld

theorem Arena.matches_alike (id : String) : Arena.Matches id Arena.Alike where
  gone h hw := by rw [h.world?, hw]
  there {_ _ w} h hw := ⟨w.stamp, by rw [h.world?, hw]; rfl⟩
  environment h := by
    obtain ⟨_, ⟨lines, rfl⟩, rfl⟩ := h
    rfl
  shown h lines lines' := by
    obtain ⟨_, ⟨lines, rfl⟩, rfl⟩ := h
    exact ⟨_, ⟨lines', rfl⟩, rfl⟩
  finished h _ _ _ _ := h.update id _

namespace Engine

variable {e f : Engine} {s t : Simulation} {σ : StepSummary}

/-- Two engines with the same declarations and the same worlds. -/
structure Alike (e f : Engine) : Prop where
  settings : f.settings = e.settings
  specifications : f.specifications = e.specifications
  arena : e.arena.Alike f.arena

theorem Alike.programs (h : e.Alike f) : f.programs = e.programs := by
  funext id
  rw [Engine.programs, h.specifications]
  rfl

theorem Alike.runOf (h : e.Alike f) (hs : s.Alike t) (program : Program) (world : World) :
    (f.runOf t program world).1 = (e.runOf s program world).1 ∧
      (e.runOf s program world).2.Alike (f.runOf t program world).2 := by
  obtain ⟨status, maxSteps, rfl⟩ := hs
  have hstart : StepProgress.Alike
      ⟨e.arena.keep s.id world.advance, [], [], 0, [], s.statistics⟩
      ⟨f.arena.keep s.id world.advance, [], [], 0, [], s.statistics⟩ :=
    ⟨_, h.arena.keep s.id world.advance, rfl⟩
  obtain ⟨hresult, hprogress⟩ :=
    StepTarget.agrees_program_alike ⟨e.programs, s.specification, s.id⟩ program _ _ hstart
  unfold Engine.runOf
  rw [h.programs]
  exact ⟨hresult.symm, hprogress⟩

/-- A step of the same simulation comes to the same in two engines that are alike. -/
theorem Alike.step (h : e.Alike f) (hs : s.Alike t) :
    ∃ arena arena' g, arena.Alike arena' ∧
      (∀ s t : Simulation, s.Alike t → (g s).Alike (g t)) ∧
      (e.step s).2 = e.stepped s.id arena g ∧
      f.step t = ((e.step s).1, f.stepped s.id arena' g) := by
  refine step_paired (Arena.matches_alike s.id) h.settings h.programs h.arena hs
    fun p w stamp _ hw hw' => ?_
  rw [h.arena.world?, hw] at hw'
  rw [← Option.some.inj hw']
  exact h.runOf hs p w

/-- Two engines that do not differ in what concerns a simulation, but perhaps in its status. -/
structure Twins (id : String) (e f : Engine) : Prop extends e.Alike f where
  own : ∃ s status, e.simulations.get? id = some s ∧
    f.simulations.get? id = some { s with status }
  outcome : f.results.get? id = e.results.get? id
  failure : f.failures.get? id = e.failures.get? id
  begun : f.begun = e.begun
  summaries : f.summaries = e.summaries
  archive : Archive.Twins id e.archive f.archive

namespace Twins

variable {id : String}

theorem symm_own (h : Twins id e f) (hs : e.simulations.get? id = some s) :
    ∃ status, f.simulations.get? id = some { s with status } := by
  obtain ⟨t, status, ht, hf⟩ := h.own
  obtain rfl : t = s := Option.some.inj (ht.symm.trans hs)
  exact ⟨status, hf⟩

theorem beside (h : Twins id e f) {schedule schedule' : Schedule} {active active' : List String}
    {detached detached' : Table Simulation} :
    Twins id { e with schedule, active, detached }
      { f with schedule := schedule', active := active', detached := detached' } :=
  ⟨⟨h.settings, h.specifications, h.arena⟩, h.own, h.outcome, h.failure, h.begun, h.summaries,
    h.archive⟩

theorem print_here (h : Twins id e f) (kind : LineKind) (message : String) :
    Twins id (e.print kind message) f :=
  have hprinted : e.arena.Alike (e.arena.print kind message) := ⟨_, Ambient.alike_print _ _ _, rfl⟩
  ⟨⟨h.settings, h.specifications, hprinted.symm.trans h.arena⟩, h.own, h.outcome, h.failure,
    h.begun, h.summaries, h.archive⟩

theorem print (h : Twins id e f) (kind kind' : LineKind) (message message' : String) :
    Twins id (e.print kind message) (f.print kind' message') :=
  have hprinted : f.arena.Alike (f.arena.print kind' message') := ⟨_, Ambient.alike_print _ _ _, rfl⟩
  have here := h.print_here kind message
  ⟨⟨here.settings, here.specifications, here.arena.trans hprinted⟩, here.own, here.outcome,
    here.failure, here.begun, here.summaries, here.archive⟩

theorem clock (h : Twins id e f) : f.tick.1 = e.tick.1 := by
  obtain ⟨_, ⟨lines, rfl⟩, harena⟩ := h.arena
  rw [tick, harena]
  rfl

theorem noteEnd (h : Twins id e f) (hs : e.simulations.get? id = some s)
    (status : SimulationStatus) : Twins id (e.noteEnd id status).2 (f.noteEnd id status).2 ∧
      (e.noteEnd id status).2.simulations.get? id =
        some { s with status, completedAt := some e.tick.1 } ∧
      (f.noteEnd id status).2.simulations.get? id =
        some { s with status, completedAt := some e.tick.1 } := by
  have hown : (e.noteEnd id status).2.simulations.get? id =
      some { s with status, completedAt := some e.tick.1 } := by
    simp [Engine.noteEnd, enter, alter, Table.get?_modify, tick, hs]
  have hown' : (f.noteEnd id status).2.simulations.get? id =
      some { s with status, completedAt := some e.tick.1 } := by
    obtain ⟨other, ht⟩ := h.symm_own hs
    rw [← h.clock]
    simp [Engine.noteEnd, enter, alter, Table.get?_modify, tick, ht]
  refine ⟨⟨⟨h.settings, h.specifications, ?_⟩, ⟨_, _, hown, hown'⟩, h.outcome, h.failure, h.begun,
    h.summaries, h.archive⟩, hown, hown'⟩
  obtain ⟨_, ⟨lines, rfl⟩, harena⟩ := h.arena
  simp only [Engine.noteEnd, enter, alter, tick, harena]
  exact ⟨_, ⟨_, rfl⟩, rfl⟩

theorem agrees_store {task : Archive.Task Unit}
    (htask : Agrees (Archive.Twins id) task task) :
    Agrees (Twins id) (store task) (store task) := by
  intro e f h
  have hagrees := htask e.archive f.archive h.archive
  unfold AgreesAt store at *
  simp only [ExceptT.run, ExceptT.mk, StateT.run] at hagrees ⊢
  generalize task e.archive = first at hagrees ⊢
  generalize task f.archive = second at hagrees ⊢
  obtain ⟨result, archive⟩ := first
  obtain ⟨_, archive'⟩ := second
  obtain ⟨rfl, hafter⟩ := hagrees
  have hkept (refusals refusals' : List ArchiveError) :
      Twins id { e with archive, refusals } { f with archive := archive', refusals := refusals' } :=
    ⟨⟨h.settings, h.specifications, h.arena⟩, h.own, h.outcome, h.failure, h.begun, h.summaries,
      hafter⟩
  cases result with
  | ok => exact ⟨rfl, hkept _ _⟩
  | error error => exact ⟨rfl, hkept _ _⟩

theorem complete (h : Twins id e f) (hs : e.simulations.get? id = some s) :
    AgreesAt (Twins id) (Engine.complete id) (Engine.complete id) e f := by
  obtain ⟨hnoted, hown, hown'⟩ := h.noteEnd hs .completed
  have hrunner : (e.noteEnd id .completed).2.runner? id =
      some { s with status := .completed, completedAt := some e.tick.1 } := runner?_own hown
  have hrunner' : (f.noteEnd id .completed).2.runner? id =
      some { s with status := .completed, completedAt := some e.tick.1 } := runner?_own hown'
  change (e.call (Engine.complete id)).1 = (f.call (Engine.complete id)).1 ∧
    Twins id (e.call (Engine.complete id)).2 (f.call (Engine.complete id)).2
  rw [call_complete hrunner, call_complete hrunner', h.arena.world?, h.clock]
  generalize ({ s with status := .completed, completedAt := some e.tick.1 } : Simulation).result
    ((e.arena.world? id).getD (.empty e.tick.1)) = result
  have hkept : Twins id
      { (e.noteEnd id .completed).2 with
        results := e.results.put id result, active := e.active.erase id }
      { (f.noteEnd id .completed).2 with
        results := f.results.put id result, active := f.active.erase id } := by
    refine ⟨⟨hnoted.settings, hnoted.specifications, hnoted.arena⟩, hnoted.own, ?_, hnoted.failure,
      hnoted.begun, hnoted.summaries, hnoted.archive⟩
    rw [Table.get?_put, Table.get?_put, if_pos rfl, if_pos rfl]
  refine Agrees.of_bind (agrees_store (Archive.agrees_setStatus _ _)) (fun _ => ?_) _ _ hkept
  refine Agrees.of_bind (agrees_store (Archive.agrees_saveResult _)) (fun _ => ?_)
  exact .of_modify fun e f h => h.print _ _ _ _

theorem noteFailure (h : Twins id e f) (hs : e.simulations.get? id = some s) (message : String) :
    Twins id (e.noteFailure id message) (f.noteFailure id message) := by
  obtain ⟨hnoted, hown, hown'⟩ := h.noteEnd hs .error
  have haltered : Twins id
      ((e.noteEnd id .error).2.alter id fun s => { s with error := some message })
      ((f.noteEnd id .error).2.alter id fun s => { s with error := some message }) := by
    refine ⟨⟨hnoted.settings, hnoted.specifications, hnoted.arena⟩, ?_, hnoted.outcome,
      hnoted.failure, hnoted.begun, hnoted.summaries, hnoted.archive⟩
    exact ⟨{ s with status := .error, completedAt := some e.tick.1, error := some message }, .error,
      by simp [alter, Table.get?_modify, hown], by simp [alter, Table.get?_modify, hown']⟩
  exact haltered.print _ _ _ _

theorem fail_eq (g : Engine) (id message : String) : g.fail id message =
    match (g.noteFailure id message).call
      (store (Archive.setStatus id .error (some g.tick.1))) with
    | (.ok (), g) => g
    | (.error error, g) => { g with failures := g.failures.put id error } := rfl

theorem fail (h : Twins id e f) (hs : e.simulations.get? id = some s) (message : String) :
    Twins id (e.fail id message) (f.fail id message) := by
  obtain ⟨hresult, hafter⟩ := agrees_store (Archive.agrees_setStatus .error (some e.tick.1)) _ _
    (h.noteFailure hs message)
  change (Engine.call _ _).1 = (Engine.call _ _).1 at hresult
  change Twins id (Engine.call _ _).2 (Engine.call _ _).2 at hafter
  rw [fail_eq, fail_eq, h.clock]
  generalize (e.noteFailure id message).call _ = first at hresult hafter ⊢
  generalize (f.noteFailure id message).call _ = second at hresult hafter ⊢
  obtain ⟨result, e'⟩ := first
  obtain ⟨_, f'⟩ := second
  obtain rfl := hresult
  cases result with
  | ok => exact hafter
  | error error =>
    refine ⟨⟨hafter.settings, hafter.specifications, hafter.arena⟩, hafter.own, hafter.outcome, ?_,
      hafter.begun, hafter.summaries, hafter.archive⟩
    rw [Table.get?_put, Table.get?_put, if_pos rfl, if_pos rfl]

theorem breakOff (h : Twins id e f) (hs : e.simulations.get? id = some s) (message : String) :
    Twins id (e.breakOff id message) (f.breakOff id message) ∧
      ∃ t, (e.breakOff id message).simulations.get? id = some t ∧
        (f.breakOff id message).simulations.get? id = some t ∧ t.status = .error := by
  refine ⟨(h.fail hs message).beside,
    { s with status := .error, completedAt := some e.tick.1, error := some message }, ?_, ?_, rfl⟩
  · change (e.fail id message).simulations.get? id = _
    rw [(steady_fail message).simulations]
    simp [Engine.noteFailure, Engine.print, Engine.noteEnd, enter, alter, tick, Table.get?_modify,
      hs]
  · obtain ⟨status, ht⟩ := h.symm_own hs
    change (f.fail id message).simulations.get? id = _
    rw [(steady_fail message).simulations, ← h.clock]
    simp [Engine.noteFailure, Engine.print, Engine.noteEnd, enter, alter, tick, Table.get?_modify,
      ht]

theorem leave (h : Twins id e f) (hs : e.simulations.get? id = some s)
    (ht : f.simulations.get? id = some t) (hp : s.status ≠ .paused) (hp' : t.status ≠ .paused) :
    Twins id (e.leave id) (f.leave id) ∧
      ∃ u, (e.leave id).simulations.get? id = some u ∧
        (f.leave id).simulations.get? id = some u ∧ u.status.terminal = true := by
  have hrunner : e.runner? id = some s := runner?_own hs
  have hrunner' : f.runner? id = some t := runner?_own ht
  obtain ⟨-, hown, hown'⟩ := h.noteEnd hs .completed
  have hsteady := (steady_complete e id).simulations
  have hsteady' := (steady_complete f id).simulations
  obtain ⟨hresult, hafter⟩ := h.complete hs
  change (e.call _).1 = (f.call _).1 at hresult
  change Twins id (e.call _).2 (f.call _).2 at hafter
  rw [leave_completes hrunner hp, leave_completes hrunner' hp']
  generalize e.call (Engine.complete id) = first at hsteady hresult hafter ⊢
  generalize f.call (Engine.complete id) = second at hsteady' hresult hafter ⊢
  obtain ⟨result, e'⟩ := first
  obtain ⟨_, f'⟩ := second
  obtain rfl := hresult
  have hs' := (congrArg (·.get? id) hsteady).trans hown
  have ht' := (congrArg (·.get? id) hsteady').trans hown'
  cases result with
  | ok => exact ⟨hafter.beside, _, hs', ht', rfl⟩
  | error error =>
    obtain ⟨hbroken, u, hu, hu', hstatus⟩ := hafter.breakOff hs' error.message
    exact ⟨hbroken, u, hu, hu', by rw [hstatus]; rfl⟩

theorem step (h : Twins id e f) (hs : e.simulations.get? id = some s)
    (ht : f.simulations.get? id = some t) (hid : s.id = id) :
    (f.step t).1 = (e.step s).1 ∧ Twins id (e.step s).2 (f.step t).2 := by
  obtain ⟨status, hother⟩ := h.symm_own hs
  obtain rfl := Option.some.inj (ht.symm.trans hother)
  obtain ⟨arena, arena', g, harena, hlike, hstep, hstep'⟩ :=
    h.toAlike.step (⟨status, s.maxSteps, rfl⟩ : s.Alike { s with status })
  have hown : (e.stepped s.id arena g).simulations.get? id = some (g s) := by
    simp [stepped, alter, Table.get?_modify, hid, hs]
  have hown' : (f.stepped s.id arena' g).simulations.get? id = some (g { s with status }) := by
    simp [stepped, alter, Table.get?_modify, hid, ht]
  have hmax : (g s).maxSteps = s.maxSteps := by
    obtain ⟨u, hu, -, -, hmax, -⟩ := step_own hs hid
    rw [hstep, hown] at hu
    rw [Option.some.inj hu, hmax]
  have hmax' : (g { s with status }).maxSteps = s.maxSteps := by
    obtain ⟨u, hu, -, -, hmax, -⟩ := step_own ht hid
    rw [hstep', hown'] at hu
    rw [Option.some.inj hu, hmax]
  obtain ⟨other, maxSteps, hg⟩ := hlike s { s with status } ⟨status, s.maxSteps, rfl⟩
  have hsame : g { s with status } = { g s with status := other } := by
    rw [hg] at hmax'
    obtain rfl : maxSteps = (g s).maxSteps := hmax'.trans hmax.symm
    exact hg
  rw [hstep, hstep']
  refine ⟨rfl, ⟨h.settings, h.specifications, harena⟩, ⟨g s, other, hown, hsame ▸ hown'⟩,
    h.outcome, h.failure, ?_, h.summaries, h.archive⟩
  change f.begun ++ [s.id] = e.begun ++ [s.id]
  rw [h.begun]

end Twins

end Engine

end StepWorld
