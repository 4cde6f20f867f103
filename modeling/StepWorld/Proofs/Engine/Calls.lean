import StepWorld.Proofs.Engine.Primitives

/-! The calls of the lifecycle. Each does something for one simulation, waits, or does both in
turn. -/

namespace StepWorld

/-- The calls that create a simulation, move it through its life and delete it. -/
inductive LifecycleCall where
  | create (specification : String) (options : SimulationOptions)
  | start (id : String)
  | pause (id : String)
  | resume (id : String)
  | stop (id : String)
  | wait (id : String)
  | delete (id : String)

def LifecycleCall.task : LifecycleCall → Engine.Task Unit
  | .create specification options => do
    let _ ← Engine.createSimulation specification options
  | .start id => Engine.start id
  | .pause id => Engine.pause id
  | .resume id => Engine.resume id
  | .stop id => Engine.stop id
  | .wait id => Engine.wait id
  | .delete id => do
    let _ ← Engine.deleteSimulation id

namespace Engine

variable {e f g : Engine} {k : String} {s : Simulation}

def perform (e : Engine) (c : LifecycleCall) : Except CallError Unit × Engine := e.call c.task

def performAll (e : Engine) (calls : List LifecycleCall) : Engine :=
  calls.foldl (fun e c => (e.perform c).2) e

theorem call_await (e : Engine) (id : String) :
    e.call (await id) =
      match (e.awaitLoop id).failures.get? id with
      | some error => (.error error, e.awaitLoop id)
      | none => (.ok (), e.awaitLoop id) := by
  unfold await
  rw [call_bind, call_modify]
  dsimp only
  rw [call_bind, call_get]
  dsimp only
  cases (e.awaitLoop id).failures.get? id <;> rfl

theorem Does.doings (h : Does k e f) : Doings k e f := .single h

theorem Doings.steady (h : Doings k e f) (hs : Steady f g) : Doings k e g := h.tail (.aside hs)

theorem Doings.bind {α β : Type} {task : Task α} {next : α → Task β}
    (h : Doings k e (e.call task).2) (hnext : ∀ a f, e.call task = (.ok a, f) →
      Doings k f (f.call (next a)).2) : Doings k e (e.call (task >>= next)).2 := by
  rw [call_bind]
  generalize e.call task = result at h hnext
  obtain ⟨result, f⟩ := result
  cases result with
  | ok a => exact h.trans (hnext a f rfl)
  | error error => exact h

theorem doings_lookupFor {action : LifecycleAction} {next : Simulation → Task Unit}
    (h : ∀ s, e.simulations.get? k = some s → action.allows s.status = true →
      Doings k e (e.call (next s)).2) : Doings k e (e.call (lookupFor action k >>= next)).2 := by
  rw [call_bind, call_lookupFor]
  cases hs : e.simulations.get? k with
  | none => exact .refl
  | some s =>
    by_cases ha : action.allows s.status = true
    · simp only [ha, if_true]
      exact h s hs ha
    · simp only [ha, if_false, Bool.false_eq_true]
      exact .refl

theorem doings_create (e : Engine) (specification : String) (o : SimulationOptions) :
    ∃ k, Doings k e (e.call (createSimulation specification o)).2 := by
  unfold createSimulation
  rw [call_bind, call_get]
  dsimp only
  cases hspec : e.specifications.get? specification with
  | none => exact ⟨"", .refl⟩
  | some spec =>
    refine ⟨(e.addSimulation specification spec.program o).1.id, ?_⟩
    dsimp only
    rw [call_bind, call_modifyGet]
    refine Doings.steady (.single (.add specification spec.program o rfl)) ?_
    refine steady_call (.of_bind (Steady.store _) fun _ => ?_)
    exact .of_bind (.of_modify fun f => steady_print _ _) fun _ => .of_pure _

theorem Orderly.doings_launch (h : e.Orderly) (hs : e.simulations.get? k = some s)
    (hf : s.status.Follows .running) (hp : e.pending k = false) (message : String) :
    Doings k e (e.call (do
      setStatus k .running
      modify fun e => (e.spawn k).print .info message)).2 := by
  have henter := h.does_enter hs hf hp
  have hsteady := steady_setStatus e k .running
  refine Doings.bind (henter.doings.steady hsteady) fun a g hcall => ?_
  rw [hcall] at hsteady
  have hg : g.Orderly := (h.does henter).steady hsteady
  have hs' : g.simulations.get? k = some { s with status := .running } := by
    rw [hsteady.simulations]
    simp [enter, alter, Table.get?_modify, hs]
  have hp' : g.pending k = false := by
    rw [pending, hsteady.schedule]
    exact hp
  exact Doings.steady (.single (hg.does_spawn hs' rfl hp')) (steady_print _ _)

theorem Orderly.doings_start (h : e.Orderly) : Doings k e (e.call (start k)).2 := by
  unfold start
  refine doings_lookupFor fun s hs ha => ?_
  have hcreated : s.status = .created := by simpa [LifecycleAction.allows] using ha
  have hp : e.pending k = false := by
    refine h.not_pending hs ?_ ?_ <;> rw [hcreated] <;> decide
  have htick : e.tick.2.Orderly := h.does (k := k) does_tick
  have hnote : Does k e.tick.2 (e.noteStart k) :=
    htick.does_alter hs fun s => ⟨rfl, rfl, rfl, rfl⟩
  rw [call_bind, call_modify]
  dsimp only
  have hs' : (e.noteStart k).simulations.get? k = some { s with startedAt := some e.tick.1 } := by
    have hget : e.tick.2.simulations.get? k = some s := hs
    simp [noteStart, alter, Table.get?_modify, hget]
  refine Relation.ReflTransGen.trans (.tail (.single does_tick) hnote) ?_
  refine (htick.does hnote).doings_launch hs' ?_ hp _
  rw [hcreated]
  exact .start

theorem Orderly.doings_pause (h : e.Orderly) : Doings k e (e.call (pause k)).2 := by
  unfold pause
  refine doings_lookupFor fun s hs ha => ?_
  have hrunning : s.status = .running := by simpa [LifecycleAction.allows] using ha
  have hsteady := steady_pause hs hrunning
  unfold pause at hsteady
  rw [call_of_get? hs ha] at hsteady
  exact Doings.steady (.single (h.does_pause hs hrunning)) hsteady

theorem Orderly.doings_complete (h : e.Orderly) (hs : e.simulations.get? k = some s)
    (hl : s.status.terminal = false) (hp : e.pending k = false) :
    Doings k e (e.call (complete k)).2 := by
  have htick : e.tick.2.Orderly := h.does (k := k) does_tick
  have hf : s.status.Follows .completed := by
    cases hstatus : s.status with
    | created => exact .dismiss
    | running => exact .finish
    | paused => exact .stop
    | completed => simp [hstatus, SimulationStatus.terminal] at hl
    | error => simp [hstatus, SimulationStatus.terminal] at hl
  have henter : Does k e.tick.2 (e.tick.2.enter k .completed) := htick.does_enter hs hf hp
  have hs' : (e.tick.2.enter k .completed).simulations.get? k =
      some { s with status := .completed } := by
    have hget : e.tick.2.simulations.get? k = some s := hs
    simp [enter, alter, Table.get?_modify, hget]
  have hnote : Does k (e.tick.2.enter k .completed) (e.noteEnd k .completed).2 :=
    (htick.does henter).does_alter hs' fun s => ⟨rfl, rfl, rfl, rfl⟩
  have hend : Doings k e (e.noteEnd k .completed).2 :=
    .tail (.tail (.single does_tick) henter) hnote
  exact hend.steady (steady_complete e k)

/-- What a call does: something for one simulation, a wait, or a wait for a simulation that
takes no step meanwhile, after which something is done for it. Its loop may have been told to
complete it before. -/
inductive Course (e f : Engine) : Prop
  | brief (k : String) (h : Doings k e f)
  | wait (h : Passes e f)
  | through (k : String) {g g' : Engine} (h : g = e ∨ ∃ s, Handled k e g s s) (hs : g.Still k)
      (hp : Passes g g') (hn : g'.pending k = false) (h' : Doings k g' f)

theorem Orderly.course_resume (h : e.Orderly) : Course e (e.call (resume k)).2 := by
  unfold resume
  rw [call_bind, call_lookupFor]
  cases hs : e.simulations.get? k with
  | none => exact .brief k .refl
  | some s =>
    by_cases ha : LifecycleAction.resume.allows s.status = true
    · have hpaused : s.status = .paused := by simpa [LifecycleAction.allows] using ha
      have hstill : e.Still k := by
        intro l hl hid s' hs'
        obtain rfl : s' = s := Option.some.inj (hs'.symm.trans hs)
        simp [Loop.continues, hpaused]
      have hpass := passes_awaitLoop e k
      have hg := h.passes hpass
      have hp := h.awaitLoop_ends k
      refine .through k (.inl rfl) hstill hpass hp ?_
      simp only [ha, if_true]
      rw [call_bind, call_await]
      cases (e.awaitLoop k).failures.get? k with
      | some error => exact .refl
      | none =>
        refine doings_lookupFor fun s' hs' ha' => ?_
        refine hg.doings_launch hs' ?_ hp _
        have hpaused' : s'.status = .paused := by simpa [LifecycleAction.allows] using ha'
        rw [hpaused']
        exact .resume
    · simp only [ha, if_false, Bool.false_eq_true]
      exact .brief k .refl

theorem Orderly.still_markStopping (h : e.Orderly) : (e.markStopping k).Still k := by
  have hedit := Schedule.edited_stop k h.single h.brief
  intro l hl hid s hs
  obtain ⟨m, hm, hid', hcore⟩ := hedit.own l hl hid
  simp only [Loop.core, Prod.mk.injEq] at hcore
  have hcancel := hcore.2.1
  rw [Loop.cancel_cancelled] at hcancel
  simp [Loop.continues, ← hcancel]

theorem isLive_iff : e.isLive k = true ↔
    ∃ s, e.simulations.get? k = some s ∧ s.status.terminal = false := by
  cases hget : e.simulations.get? k <;> simp [isLive, hget]

/-- A simulation that is not over is stopped: its loop ends, and it is completed if it is not
over then. What the loop broke off with breaks off the call. -/
theorem Orderly.stop_path (h : e.Orderly) (hs : e.simulations.get? k = some s)
    (hl : s.status.terminal = false) :
    ∃ g, Passes (e.markStopping k) g ∧ g.pending k = false ∧ Doings k g (e.call (stop k)).2 ∧
      (e.call (stop k)).2.pending k = false ∧
      ((∃ error, g.failures.get? k = some error ∧ e.call (stop k) = (.error error, g)) ∨
        g.isLive k = false ∧ e.call (stop k) = (.ok (), g) ∨
        g.isLive k = true ∧ e.call (stop k) = g.call (complete k)) := by
  have hmark := h.handle (h.handled_markStopping hs)
  have hpass := passes_awaitLoop (e.markStopping k) k
  have hp := hmark.awaitLoop_ends k
  refine ⟨_, hpass, hp, ?_⟩
  unfold stop
  rw [call_of_get? hs (by simp [LifecycleAction.allows, hl]), call_bind, call_modify]
  dsimp only
  rw [call_bind, call_await]
  have hg := hmark.passes hpass
  generalize (e.markStopping k).awaitLoop k = g at hp hg ⊢
  cases hfail : g.failures.get? k with
  | some error => exact ⟨.refl, hp, .inl ⟨error, rfl, rfl⟩⟩
  | none =>
    dsimp only
    rw [call_bind, call_get]
    dsimp only
    cases hlive : g.isLive k with
    | false => exact ⟨.refl, hp, .inr (.inl ⟨rfl, rfl⟩)⟩
    | true =>
      obtain ⟨s', hs', hl'⟩ := isLive_iff.mp hlive
      refine ⟨hg.doings_complete hs' hl' hp, ?_, .inr (.inr ⟨rfl, rfl⟩)⟩
      have hschedule : (g.call (complete k)).2.schedule = g.schedule :=
        (steady_complete g k).schedule
      simp only [if_true]
      rw [pending, hschedule]
      exact hp

theorem Orderly.course_stop (h : e.Orderly) : Course e (e.call (stop k)).2 := by
  by_cases hs : ∃ s, e.simulations.get? k = some s ∧ s.status.terminal = false
  · obtain ⟨s, hs, hl⟩ := hs
    obtain ⟨g, hpass, hp, hdoings, -, -⟩ := h.stop_path hs hl
    exact .through k (.inr ⟨s, h.handled_markStopping hs⟩) h.still_markStopping hpass hp hdoings
  · have hrefused : ∀ s, e.simulations.get? k = some s →
        LifecycleAction.stop.allows s.status = false := by
      intro s hget
      cases hl : s.status.terminal with
      | false => exact absurd ⟨s, hget, hl⟩ hs
      | true => simp [LifecycleAction.allows, hl]
    unfold stop
    obtain ⟨error, hcall⟩ := @call_refused e k .stop Unit (fun _ => do
      modify (·.markStopping k)
      await k
      if (← get).isLive k then complete k) hrefused
    rw [hcall]
    exact .brief k .refl

theorem course_wait (e : Engine) (k : String) : Course e (e.call (wait k)).2 := by
  unfold wait
  rw [call_bind, call_lookup]
  cases e.simulations.get? k with
  | none => exact .brief k .refl
  | some s =>
    dsimp only
    rw [call_await]
    cases (e.awaitLoop k).failures.get? k <;> exact .wait (passes_awaitLoop e k)

def erase (id : String) : Task Bool := do
  modify (·.forget id)
  store (Archive.delete id)
  return true

theorem erase_cases (e : Engine) (id : String) :
    (∃ archive, (Archive.delete id).run.run e.archive = (.ok (), archive) ∧
      e.call (erase id) = (.ok true, { e.forget id with archive })) ∨
      ∃ error archive, e.call (erase id) = (.error (.archive error),
        { e.forget id with archive, refusals := e.refusals ++ [error] }) := by
  unfold erase
  rw [call_bind, call_modify]
  dsimp only
  rw [call_bind]
  rcases @call_store (e.forget id) (Archive.delete id) with
    ⟨archive, hstore, hrun⟩ | ⟨error, archive, hstore⟩
  · rw [hstore]
    exact .inl ⟨archive, hrun, rfl⟩
  · rw [hstore]
    exact .inr ⟨error, archive, rfl⟩

theorem call_delete (hs : e.simulations.get? k = some s) : e.call (deleteSimulation k) =
    if s.status.terminal then e.call (erase k) else e.call (do stop k; erase k) := by
  unfold deleteSimulation
  rw [call_bind, call_get]
  dsimp only
  simp only [hs, Option.isNone_some, Bool.false_eq_true, if_false]
  rw [call_bind, call_get]
  dsimp only
  cases hl : s.status.terminal with
  | true =>
    have hlive : e.isLive k = false := by simp [isLive, hs, hl]
    simp only [hlive, Bool.false_eq_true, if_false]
    rfl
  | false =>
    have hlive : e.isLive k = true := by simp [isLive, hs, hl]
    simp only [hlive, Bool.false_eq_true, if_true, if_false]
    rfl

theorem call_delete_none (hs : e.simulations.get? k = none) :
    e.call (deleteSimulation k) = (.ok false, e) := by
  unfold deleteSimulation
  rw [call_bind, call_get]
  simp [hs]

theorem doings_erase (hp : e.pending k = false) : Doings k e (e.call (erase k)).2 := by
  unfold erase
  rw [call_bind, call_modify]
  refine Doings.steady (.single (.forget hp)) ?_
  exact steady_call (.of_bind (Steady.store _) fun _ => .of_pure _)

theorem Orderly.course_delete (h : e.Orderly) : Course e (e.call (deleteSimulation k)).2 := by
  cases hs : e.simulations.get? k with
  | none =>
    rw [call_delete_none hs]
    exact .brief k .refl
  | some s =>
    rw [call_delete hs]
    cases hl : s.status.terminal with
    | true =>
      have hp : e.pending k = false := by
        refine h.not_pending hs ?_ ?_ <;> intro hstatus <;> rw [hstatus] at hl <;> cases hl
      exact .brief k (doings_erase hp)
    | false =>
      obtain ⟨g, hpass, hp, hdoings, hp', -⟩ := h.stop_path hs hl
      refine .through k (.inr ⟨s, h.handled_markStopping hs⟩) h.still_markStopping hpass hp ?_
      simp only [Bool.false_eq_true, if_false]
      rw [call_bind]
      generalize e.call (stop k) = result at hdoings hp' ⊢
      obtain ⟨result, f⟩ := result
      cases result with
      | error error => exact hdoings
      | ok u => exact hdoings.trans (doings_erase hp')

theorem Course.map {α : Type} {task : Task α} (h : Course e (e.call task).2) :
    Course e (e.call (do let _ ← task; pure ())).2 := by
  have hcall : (e.call (do let _ ← task; pure ())).2 = (e.call task).2 := by
    rw [call_bind]
    generalize e.call task = result
    obtain ⟨result, f⟩ := result
    cases result <;> rfl
  rw [hcall]
  exact h

theorem Orderly.course (h : e.Orderly) (c : LifecycleCall) : Course e (e.perform c).2 := by
  cases c with
  | create specification options =>
    obtain ⟨k, hk⟩ := doings_create e specification options
    exact (Course.brief k hk).map
  | start id => exact .brief id h.doings_start
  | pause id => exact .brief id h.doings_pause
  | resume id => exact h.course_resume
  | stop id => exact h.course_stop
  | wait id => exact course_wait e id
  | delete id => exact h.course_delete.map

theorem Orderly.follow (h : e.Orderly) (hf : Course e f) : f.Orderly := by
  cases hf with
  | brief k hd => exact h.doings hd
  | wait hp => exact h.passes hp
  | through k hm _ hp _ hd =>
    rcases hm with rfl | ⟨s, hm⟩
    · exact (h.passes hp).doings hd
    · exact ((h.handle hm).passes hp).doings hd

theorem Orderly.extends (h : e.Orderly) (hf : Course e f) : Extends e f := by
  cases hf with
  | brief k hd => exact Doings.extends hd
  | wait hp => exact h.extends_passes hp
  | through k hm _ hp _ hd =>
    rcases hm with rfl | ⟨s, hm⟩
    · exact (h.extends_passes hp).trans (Doings.extends hd)
    · have hpass := (h.handle hm).extends_passes hp
      exact (hm.touches.extends.trans hpass).trans (Doings.extends hd)

theorem Orderly.lawful (h : e.Orderly) (hf : Course e f) (hr : f.refusals = [])
    (he : e.Lawful) : f.Lawful := by
  cases hf with
  | brief k hd => exact he.doings h hd
  | wait hp => exact h.lawful_passes hp hr he
  | through k hm _ hp _ hd =>
    have hr' := (Doings.extends hd).none hr
    rcases hm with rfl | ⟨s, hm⟩
    · exact (h.lawful_passes hp hr' he).doings (h.passes hp) hd
    · have hg := h.handle hm
      exact (hg.lawful_passes hp hr' (he.handle hm)).doings (hg.passes hp) hd

theorem Orderly.calm (h : e.Orderly) (hf : Course e f) (he : e.Calm) : f.Calm := by
  have hstop {l m : Loop} (hcore : m.core = l.core) : l.stopping = m.stopping :=
    (congrArg (·.2.2) hcore).symm
  cases hf with
  | brief k hd => exact he.doings hd
  | wait hp =>
    intro l hl
    obtain ⟨m, hm, hcore⟩ := h.loops_passes hp l hl
    exact (hstop hcore).trans (he m hm)
  | @through k g g' hm _ hp hn hd =>
    refine Calm.doings (fun l hl => ?_) hd
    rcases hm with rfl | ⟨s, hm⟩
    · obtain ⟨m, hm, hcore⟩ := h.loops_passes hp l hl
      exact (hstop hcore).trans (he m hm)
    · obtain ⟨m, hmem, hcore⟩ := (h.handle hm).loops_passes hp l hl
      have hsim : m.simulation = l.simulation := congrArg Prod.fst hcore
      obtain ⟨m', hm', hcore'⟩ := hm.others m hmem (hsim ▸ absent_of_not_pending hn l hl)
      exact (hstop hcore).trans ((hstop hcore').trans (he m' hm'))

end Engine

end StepWorld
