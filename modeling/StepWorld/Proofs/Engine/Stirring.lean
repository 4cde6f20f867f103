import Mathlib.Logic.Relation
import StepWorld.Proofs.Engine.Calls

/-! What may happen to the simulations and worlds of an engine, one thing after another. A call, a
wait or a turn of a loop comes down to steps, to what a listener does to a world, to simulations
that are added or forgotten, and to things that no step looks at. -/

namespace StepWorld

/-- The same simulation, as far as its steps go. If it has failed, it had failed before in the same
way, or it failed with some message. -/
structure Simulation.GoesOn (P : String → Prop) (s t : Simulation) : Prop where
  id : t.id = s.id
  specification : t.specification = s.specification
  step : t.currentStep = s.currentStep
  limit : t.maxSteps = s.maxSteps
  statistics : t.statistics = s.statistics
  failed : t.status = .error → s.status = .error ∧ t.error = s.error ∨
    ∃ message, P message ∧ t.error = some message

namespace Simulation.GoesOn

variable {P : String → Prop} {s t u : Simulation}

theorem refl (s : Simulation) : s.GoesOn P s :=
  ⟨rfl, rfl, rfl, rfl, rfl, fun h => .inl ⟨h, rfl⟩⟩

theorem trans (h : s.GoesOn P t) (h' : t.GoesOn P u) : s.GoesOn P u where
  id := h'.id.trans h.id
  specification := h'.specification.trans h.specification
  step := h'.step.trans h.step
  limit := h'.limit.trans h.limit
  statistics := h'.statistics.trans h.statistics
  failed hu := by
    rcases h'.failed hu with ⟨ht, he⟩ | ⟨message, hp, he⟩
    · rcases h.failed ht with ⟨hs, he'⟩ | ⟨message, hp, he'⟩
      · exact .inl ⟨hs, he.trans he'⟩
      · exact .inr ⟨message, hp, he.trans he'⟩
    · exact .inr ⟨message, hp, he⟩

end Simulation.GoesOn

/-- A result tells how many steps a simulation had taken, and its statistics. -/
structure Simulation.ToldBy (s : Simulation) (r : SimulationResult) : Prop where
  step : r.simulation.currentStep = s.currentStep
  statistics : r.simulation.statistics = s.statistics
  made : ∃ world, r = r.simulation.result world

theorem Simulation.ToldBy.same {s t : Simulation} {r : SimulationResult} (h : t.ToldBy r)
    (hstep : t.currentStep = s.currentStep) (hstatistics : t.statistics = s.statistics) :
    s.ToldBy r :=
  ⟨h.step.trans hstep, h.statistics.trans hstatistics, h.made⟩

/-- The simulations of a table are those of another one that go on, or some of them. -/
def Table.GoOn (P : String → String → Prop) (before after : Table Simulation) : Prop :=
  ∀ id t, after.get? id = some t → ∃ s, before.get? id = some s ∧ s.GoesOn (P id) t

namespace Table.GoOn

variable {P : String → String → Prop} {a b c : Table Simulation}

theorem refl (a : Table Simulation) : Table.GoOn P a a := fun _ t ht => ⟨t, ht, .refl t⟩

theorem trans (h : Table.GoOn P a b) (h' : Table.GoOn P b c) : Table.GoOn P a c := by
  intro id u hu
  obtain ⟨t, ht, htu⟩ := h' id u hu
  obtain ⟨s, hs, hst⟩ := h id t ht
  exact ⟨s, hs, hst.trans htu⟩

theorem modify (a : Table Simulation) (id : String) {f : Simulation → Simulation}
    (hf : ∀ s : Simulation, s.GoesOn (P id) (f s)) : Table.GoOn P a (a.modify id f) := by
  intro k t ht
  rw [Table.get?_modify] at ht
  split at ht
  · next hk =>
    obtain ⟨s, hs, rfl⟩ := Option.map_eq_some_iff.mp ht
    exact ⟨s, hs, hk ▸ hf s⟩
  · exact ⟨t, ht, .refl t⟩

theorem remove (a : Table Simulation) (id : String) : Table.GoOn P a (a.remove id) :=
  fun _ t ht => ⟨t, (Table.get?_of_remove ht).2, .refl t⟩

end Table.GoOn

namespace Engine

/-- What no step looks at: the schedule, the archive, the console, the status of simulations. `P`
tells who may fail here, and with which message. -/
structure Aside (P : String → String → Prop) (e f : Engine) : Prop where
  settings : f.settings = e.settings
  listener : f.listener = e.listener
  specifications : f.specifications = e.specifications
  realms : f.arena.realms = e.arena.realms
  ambient : e.arena.ambient.Advances f.arena.ambient
  begun : f.begun = e.begun
  refusals : e.refusals <+: f.refusals
  registered : f.simulations.keys = e.simulations.keys
  simulations : Table.GoOn P e.simulations f.simulations
  detached : Table.GoOn P e.detached f.detached
  results : ∀ id r, f.results.get? id = some r →
    e.results.get? id = some r ∨ ∃ s, e.runner? id = some s ∧ s.ToldBy r
  active : e.active.Nodup → f.active.Nodup
  started : e.started.Nodup → f.started.Nodup
  archive : e.archive.TidyStays f.archive

namespace Aside

variable {P : String → String → Prop} {e f g : Engine}

theorem refl (e : Engine) : Aside P e e :=
  ⟨rfl, rfl, rfl, rfl, Std.Refl.refl _, rfl, List.prefix_refl _, rfl, .refl _, .refl _,
    fun _ _ => .inl, id, id, id⟩

theorem runner (h : Aside P e f) {id : String} {t : Simulation} (ht : f.runner? id = some t) :
    ∃ s, e.runner? id = some s ∧ s.GoesOn (P id) t := by
  rcases Option.or_eq_some_iff.mp ht with ht | ⟨hnone, ht⟩
  · obtain ⟨s, hs, hgoes⟩ := h.simulations id t ht
    exact ⟨s, runner?_own hs, hgoes⟩
  · obtain ⟨s, hs, hgoes⟩ := h.detached id t ht
    have hsame : (e.simulations.get? id).isSome = (f.simulations.get? id).isSome :=
      Bool.eq_iff_iff.mpr (by rw [Table.isSome_get?_iff, Table.isSome_get?_iff, h.registered])
    rw [hnone, Option.isSome_none, Option.isSome_eq_false_iff, Option.isNone_iff_eq_none] at hsame
    exact ⟨s, by rw [runner?, hsame]; exact hs, hgoes⟩

theorem trans (h : Aside P e f) (h' : Aside P f g) : Aside P e g where
  settings := h'.settings.trans h.settings
  listener := h'.listener.trans h.listener
  specifications := h'.specifications.trans h.specifications
  realms := h'.realms.trans h.realms
  ambient := Trans.trans h.ambient h'.ambient
  begun := h'.begun.trans h.begun
  refusals := h.refusals.trans h'.refusals
  registered := h'.registered.trans h.registered
  simulations := h.simulations.trans h'.simulations
  detached := h.detached.trans h'.detached
  results id r hr := by
    rcases h'.results id r hr with hr | ⟨t, ht, htold⟩
    · exact h.results id r hr
    · obtain ⟨s, hs, hgoes⟩ := h.runner ht
      exact .inr ⟨s, hs, htold.same hgoes.step hgoes.statistics⟩
  active he := h'.active (h.active he)
  started he := h'.started (h.started he)
  archive he := h'.archive (h.archive he)

instance : Std.Refl (Aside P) := ⟨refl⟩

instance : Trans (Aside P) (Aside P) (Aside P) := ⟨trans⟩

end Aside

/-- One thing that happens in an engine. -/
inductive Stirs (e : Engine) : Engine → Prop
  | aside {f : Engine} (h : Aside (fun _ _ => False) e f) : Stirs e f
  /-- A step, by hand or in a turn. -/
  | step {k : String} {s : Simulation} (hs : e.runner? k = some s) : Stirs e (e.step s).2
  /-- A loop breaks off with a step that failed. -/
  | broken {k : String} {s : Simulation} {error : StepError} {f : Engine}
      (hs : e.runner? k = some s) (hstep : (e.step s).1 = .error error)
      (h : Aside (fun id message => id = s.id ∧ message = error.message) (e.step s).2 f) : Stirs e f
  /-- A loop breaks off with what the archive has refused. -/
  | refused {refusal : ArchiveError} {f : Engine}
      (h : Aside (fun _ message => message = refusal.message) e f) (hr : refusal ∈ f.refusals) :
    Stirs e f
  /-- A listener to a step drops the world of the simulation. -/
  | drop {k : String} {n : Nat} (hr : .dropWorld ∈ e.listener k n) :
    Stirs e { e with arena := e.arena.delete k }
  /-- A listener to a step sets a variable. -/
  | write {k : String} {n : Nat} {name : String} {value : Value}
      (hr : .setVariable name value ∈ e.listener k n) :
    Stirs e { e with arena := e.arena.setVariable k name value }
  | add {specification : String} {program : Program}
      (hp : e.programs specification = some program) (o : SimulationOptions) :
    Stirs e (e.addSimulation specification program o).2
  | forget (k : String) : Stirs e (e.forget k)

/-- Any number of things happen. -/
abbrev Stirred := Relation.ReflTransGen Stirs

instance : Std.Refl Stirred := ⟨fun _ => .refl⟩

instance : Trans Stirred Stirred Stirred := ⟨Relation.ReflTransGen.trans⟩

variable {P : String → String → Prop} {e f : Engine} {k : String}

theorem Aside.stirred (h : Aside (fun _ _ => False) e f) : Stirred e f := .single (.aside h)

/-! ### What no step looks at -/

variable (e)

theorem aside_print (kind : LineKind) (message : String) : Aside P e (e.print kind message) :=
  { Aside.refl e with ambient := e.arena.ambient.advances_print kind message }

theorem aside_reschedule (f : Schedule → Schedule) : Aside P e (e.reschedule f) :=
  { Aside.refl e with }

theorem aside_alter (id : String) {f : Simulation → Simulation}
    (hf : ∀ s : Simulation, s.GoesOn (P id) (f s)) : Aside P e (e.alter id f) :=
  { (Aside.refl e : Aside P e e) with
    registered := Table.keys_modify id f _
    simulations := .modify _ _ hf
    detached := .modify _ _ hf }

theorem aside_enter (id : String) {status : SimulationStatus} (h : status ≠ .error) :
    Aside P e (e.enter id status) :=
  have hnoted : Aside P e { e with statuses := e.statuses ++ [(id, status)] } :=
    { Aside.refl e with }
  hnoted.trans (aside_alter _ id fun _ => ⟨rfl, rfl, rfl, rfl, rfl, fun he => absurd he h⟩)

theorem aside_tick : Aside P e e.tick.2 :=
  { Aside.refl e with ambient := e.arena.ambient.advances_tick }

theorem aside_noteEnd (id : String) {status : SimulationStatus} (h : status ≠ .error) :
    Aside P e (e.noteEnd id status).2 :=
  ((aside_tick e).trans (aside_enter _ id h)).trans
    (aside_alter _ id fun _ => ⟨rfl, rfl, rfl, rfl, rfl, fun he => .inl ⟨he, rfl⟩⟩)

theorem aside_store {task : Archive.Task Unit} (ht : Moves Archive.TidyStays task) :
    Moves (Aside P) (store task) := by
  intro e
  have hcall : ((store task).run.run e).2 = (e.call (store task)).2 := rfl
  have harchive : e.archive.TidyStays (e.call (store task)).2.archive := by
    rw [archive_store]
    exact ht e.archive
  rw [hcall]
  rcases call_store task with ⟨archive, h, -⟩ | ⟨error, archive, h⟩
  · rw [h] at harchive ⊢
    exact { Aside.refl e with archive := harchive }
  · rw [h] at harchive ⊢
    exact { Aside.refl e with refusals := List.prefix_append _ _, archive := harchive }

theorem aside_call {α : Type} {task : Task α} (h : Moves (Aside P) task) :
    Aside P e (e.call task).2 := h e

theorem aside_lookupFor (action : LifecycleAction) (id : String) :
    Moves (Aside P) (lookupFor action id) := by
  refine .of_bind (.of_bind .of_get fun e => ?_) fun _ => .of_ite (.of_pure _) (.of_throw _)
  split
  · exact .of_pure _
  · exact .of_throw _

theorem aside_setStatus (id : String) {status : SimulationStatus} (h : status ≠ .error) :
    Moves (Aside P) (setStatus id status) :=
  .of_bind (.of_modify fun e => aside_enter e id h) fun _ =>
    aside_store (Archive.tidy_setStatus id status none)

theorem aside_spawn (id : String) : Aside P e (e.spawn id) :=
  { Aside.refl e with active := nodup_mark id, started := nodup_mark id }

theorem aside_launch (id message : String) : Moves (Aside P) (do
    setStatus id .running
    modify fun e => (e.spawn id).print .info message) :=
  .of_bind (aside_setStatus id (by decide)) fun _ =>
    .of_modify fun e => (aside_spawn e id).trans (aside_print _ _ _)

theorem aside_start (id : String) : Moves (Aside P) (start id) := by
  refine .of_bind (aside_lookupFor _ _) fun s => .of_bind (.of_modify fun e => ?_) fun _ =>
    aside_launch id _
  exact (aside_tick e).trans
    (aside_alter _ id fun _ => ⟨rfl, rfl, rfl, rfl, rfl, fun he => .inl ⟨he, rfl⟩⟩)

theorem aside_pause (id : String) : Moves (Aside P) (pause id) := by
  refine .of_bind (aside_lookupFor _ _) fun s => ?_
  refine .of_bind (.of_modify fun e => aside_reschedule e _) fun _ => ?_
  exact .of_bind (aside_setStatus id (by decide)) fun _ => .of_modify fun e => aside_print e _ _

theorem aside_complete (id : String) : Moves (Aside P) (complete id) := by
  refine .of_bind (.of_modifyGet fun e => aside_noteEnd e id (by decide)) fun stamp => ?_
  refine .of_get_bind fun e => ?_
  split
  · exact Std.Refl.refl e
  · next s hs =>
    rw [run_get_bind]
    have hkept (world : World) : Aside P e { e with
        results := e.results.put id (s.result world), active := e.active.erase id } :=
      { Aside.refl e with
        results := Table.forall_get?_put (.inr ⟨s, hs, rfl, rfl, _, rfl⟩) fun _ _ _ => .inl
        active := List.Nodup.erase id }
    refine Moves.bind_at (hkept _) fun _ => ?_
    refine .of_bind (aside_store (Archive.tidy_setStatus _ _ _)) fun _ => ?_
    refine .of_bind (aside_store (Archive.tidy_saveResult _ _)) fun _ => ?_
    exact .of_modify fun e => aside_print e _ _

theorem aside_stopWithin (id : String) : Moves (Aside P) (stopWithin id) :=
  .of_bind (aside_lookupFor _ _) fun _ =>
    .of_bind (.of_modify fun e => aside_reschedule e _) fun _ => aside_complete id

theorem aside_endLoop (id : String) : Aside P e (e.endLoop id) :=
  { Aside.refl e with detached := .remove _ _, active := List.Nodup.erase id }

theorem aside_breakOff (id : String) {message : String} (h : P id message) :
    Aside P e (e.breakOff id message) := by
  have hfailed : Aside P e (e.noteFailure id message) := by
    have hmodify (a : Table Simulation) : Table.GoOn P a (((a.modify id fun s =>
        { s with status := .error }).modify id fun s => { s with
          completedAt := some e.tick.1 }).modify id fun s => { s with error := some message }) := by
      intro k t ht
      simp only [Table.get?_modify] at ht
      split at ht
      · next hk =>
        simp only [Option.map_map] at ht
        obtain ⟨s, hs, rfl⟩ := Option.map_eq_some_iff.mp ht
        exact ⟨s, hs, rfl, rfl, rfl, rfl, rfl, fun _ => .inr ⟨message, hk ▸ h, rfl⟩⟩
      · exact ⟨t, ht, .refl t⟩
    have hambient : e.arena.ambient.Advances (e.noteFailure id message).arena.ambient :=
      Trans.trans e.arena.ambient.advances_tick (Ambient.advances_print _ _ _)
    have hkeys : (e.noteFailure id message).simulations.keys = e.simulations.keys :=
      ((Table.keys_modify _ _ _).trans (Table.keys_modify _ _ _)).trans (Table.keys_modify _ _ _)
    exact { (Aside.refl e : Aside P e e) with
      ambient := hambient
      registered := hkeys
      simulations := hmodify _
      detached := hmodify _ }
  have hfail : Aside P e (e.fail id message) := by
    have harchive : e.archive.TidyStays (e.fail id message).archive := by
      rw [archive_fail]
      exact Archive.tidy_setStatus id _ _ e.archive
    rcases @fail_cases e id message with ⟨archive, hf, -⟩ | ⟨error, archive, hf⟩
    · rw [hf] at harchive ⊢
      exact { hfailed with archive := harchive }
    · rw [hf] at harchive ⊢
      exact { hfailed with refusals := List.prefix_append _ _, archive := harchive }
  exact hfail.trans (aside_endLoop _ id)

/-! ### Turns of loops -/

theorem refusals_of_complete {id : String} {error : CallError}
    (h : e.call (complete id) = (.error error, f)) :
    ∃ refusal ∈ f.refusals, error.message = refusal.message := by
  cases hs : (e.noteEnd id .completed).2.runner? id with
  | none =>
    rw [call_complete_none hs] at h
    cases h
  | some s =>
    rw [call_complete hs, call_bind] at h
    generalize ({ (e.noteEnd id .completed).2 with
      results := e.results.put id (s.result ((e.arena.world? id).getD (.empty e.tick.1)))
      active := e.active.erase id } : Engine) = g at h
    rcases @call_store g (Archive.setStatus id .completed (some e.tick.1)) with
      ⟨archive, hstore, -⟩ | ⟨refusal, archive, hstore⟩
    · rw [hstore] at h
      dsimp only at h
      rw [call_bind] at h
      rcases @call_store { g with archive } (Archive.saveResult id
          (s.result ((e.arena.world? id).getD (.empty e.tick.1)))) with
        ⟨archive', hstore', -⟩ | ⟨refusal, archive', hstore'⟩
      · rw [hstore'] at h
        cases h
      · rw [hstore'] at h
        cases h
        exact ⟨refusal, by simp, rfl⟩
    · rw [hstore] at h
      cases h
      exact ⟨refusal, by simp, rfl⟩

theorem stirred_leave (id : String) : Stirred e (e.leave id) := by
  have hcomplete := aside_call e (@aside_complete (fun _ _ => False) id)
  unfold leave
  dsimp only
  split
  · exact (aside_endLoop e id).stirred
  · split
    · next f hf =>
      rw [hf] at hcomplete
      exact (hcomplete.trans (aside_endLoop f id)).stirred
    · next error f hf =>
      obtain ⟨refusal, hrefused, hmessage⟩ := refusals_of_complete e hf
      rw [hf] at hcomplete
      have hbroken : Aside (fun _ message => message = refusal.message) f
          (f.breakOff id error.message) := aside_breakOff f id hmessage
      exact hcomplete.stirred.tail (.refused hbroken (hbroken.refusals.subset hrefused))

theorem stirred_rest (s : Simulation) : Stirred e (e.rest s) := by
  unfold rest
  split
  · exact stirred_leave e s.id
  · split <;> exact (aside_reschedule e _).stirred

theorem stirred_react (id : String) {n : Nat} {r : Reaction} (hr : r ∈ e.listener id n) :
    Stirred e (e.react id r).2 := by
  have hcall {task : Task Unit} (ht : Moves (Aside fun _ _ => False) task) :
      Stirred e (e.reactionCall task).2 := by
    have ht := aside_call e ht
    unfold reactionCall
    split <;> next f hf => rw [hf] at ht; exact ht.stirred
  cases r with
  | pause => exact hcall (aside_pause id)
  | stop => exact hcall (aside_stopWithin id)
  | fail => exact .refl
  | dropWorld => exact .single (.drop hr)
  | setVariable name value => exact .single (.write hr)

theorem stirred_reactAll (id : String) {n : Nat} (world : World) (reactions : List Reaction)
    (hr : ∀ r ∈ reactions, r ∈ e.listener id n) :
    Stirred e (e.reactAll id world reactions).2 := by
  induction reactions generalizing e world with
  | nil => exact .refl
  | cons r rest ih =>
    have hfirst := stirred_react e id (hr r List.mem_cons_self)
    have hlistener := (@touches_react id e r).listener
    unfold reactAll
    split
    · next error f hf =>
      rw [hf] at hfirst
      exact hfirst.trans (aside_print f _ _).stirred
    · next f hf =>
      rw [hf] at hfirst hlistener
      refine hfirst.trans (ih f _ fun r' hr' => ?_)
      rw [hlistener]
      exact hr r' (List.mem_cons_of_mem _ hr')

theorem stirred_conclude (s : Simulation) (summary : StepSummary) (world : World) :
    Stirred e (e.conclude s summary world) := by
  unfold conclude
  split
  · exact (aside_print e _ _).stirred.trans (stirred_leave _ _)
  · have hstore := aside_call e
      (@aside_store (fun _ _ => False) _ (Archive.tidy_saveSnapshot s.id summary.step world))
    rcases @call_store e (Archive.saveSnapshot s.id summary.step world) with
      ⟨archive, hcall, -⟩ | ⟨error, archive, hcall⟩
    · rw [hcall] at hstore ⊢
      exact hstore.stirred.trans (stirred_rest _ s)
    · rw [hcall] at hstore ⊢
      have hbroken : Aside (fun _ message => message = error.message)
          { e with archive, refusals := e.refusals ++ [error] }
          (breakOff { e with archive, refusals := e.refusals ++ [error] } s.id error.message) :=
        aside_breakOff _ s.id rfl
      exact hstore.stirred.tail (.refused hbroken (hbroken.refusals.subset (by simp)))

theorem stirred_afterStep (s : Simulation) (summary : StepSummary) :
    Stirred e (e.afterStep s summary) := by
  have hseen : Aside (fun _ _ => False) e { e with summaries := e.summaries ++ [(s.id, summary)] } :=
    { Aside.refl e with }
  rw [afterStep_eq rfl]
  refine hseen.stirred.trans (Relation.ReflTransGen.trans ?_ (stirred_conclude _ s summary _))
  exact stirred_reactAll _ s.id _ _ fun r hr => hr

theorem stirred_act (l : Loop) : Stirred e (e.act l) := by
  unfold act
  split
  · exact (aside_endLoop e _).stirred
  · next s hs =>
    split
    · have hstep : Stirred e (e.step s).2 := .single (.step hs)
      split
      · next summary f hf =>
        rw [hf] at hstep
        exact hstep.trans (stirred_afterStep f s summary)
      · next error f hf =>
        refine .single (.broken hs (congrArg Prod.fst hf) ?_)
        rw [hf]
        exact aside_breakOff f s.id ⟨rfl, rfl⟩
    · exact stirred_leave e s.id

variable {e}

theorem Happens.stirred (h : e.Happens f) : Stirred e f := by
  cases h with
  | shuffle => exact (aside_reschedule e _).stirred
  | @act l => exact stirred_act e l

theorem Passes.stirred (h : Passes e f) : Stirred e f := by
  induction h with
  | refl => exact .refl
  | tail _ hstep ih => exact ih.trans hstep.stirred

/-! ### Calls -/

theorem stirs_of_aside {α : Type} {task : Task α} (h : Moves (Aside fun _ _ => False) task) :
    Moves Stirred task := fun e => (h e).stirred

theorem stirs_await (id : String) : Moves Stirred (await id) := by
  refine .of_bind (.of_modify fun e => (passes_awaitLoop e id).stirred) fun _ => ?_
  refine .of_bind .of_get fun e => ?_
  split
  · exact .of_throw _
  · exact .of_pure _

theorem aside_created {specification : String} {spec : Specification}
    (hspec : e.specifications.get? specification = some spec) (o : SimulationOptions) :
    Aside P (e.addSimulation specification spec.program o).2
      (e.call (createSimulation specification o)).2 := by
  unfold createSimulation
  rw [call_bind, call_get]
  dsimp only
  rw [hspec]
  dsimp only
  rw [call_bind, call_modifyGet]
  refine aside_call _ (.of_bind (aside_store (Archive.tidy_saveRecord _)) fun _ => ?_)
  exact .of_bind (.of_modify fun e => aside_print e _ _) fun _ => .of_pure _

theorem stirs_create (specification : String) (o : SimulationOptions) :
    Moves Stirred (createSimulation specification o) := by
  intro e
  cases hspec : e.specifications.get? specification with
  | none =>
    unfold createSimulation
    rw [run_get_bind, hspec]
    exact .refl
  | some spec =>
    have hadd : Stirred e (e.addSimulation specification spec.program o).2 :=
      .single (.add (by rw [programs, hspec]; rfl) o)
    exact hadd.trans (aside_created hspec o).stirred

theorem stirs_resume (id : String) : Moves Stirred (resume id) :=
  .of_bind (stirs_of_aside (aside_lookupFor _ _)) fun _ => .of_bind (stirs_await id) fun _ =>
    .of_bind (stirs_of_aside (aside_lookupFor _ _)) fun _ => stirs_of_aside (aside_launch id _)

theorem stirs_stop (id : String) : Moves Stirred (stop id) := by
  refine .of_bind (stirs_of_aside (aside_lookupFor _ _)) fun _ => ?_
  refine .of_bind (.of_modify fun e => (aside_reschedule e _).stirred) fun _ => ?_
  refine .of_bind (stirs_await id) fun _ => .of_bind .of_get fun e => ?_
  exact .of_ite (stirs_of_aside (aside_complete id)) (.of_pure _)

theorem stirs_wait (id : String) : Moves Stirred (wait id) := by
  refine .of_bind (.of_bind .of_get fun e => ?_) fun _ => stirs_await id
  split
  · exact .of_pure _
  · exact .of_throw _

theorem stirs_delete (id : String) : Moves Stirred (deleteSimulation id) := by
  have hforget : Moves Stirred (erase id) :=
    .of_bind (.of_modify fun e => .single (.forget id)) fun _ =>
      .of_bind (stirs_of_aside (aside_store (Archive.tidy_delete id))) fun _ => .of_pure _
  refine .of_bind .of_get fun e => .of_ite (.of_pure _) ?_
  exact .of_bind .of_get fun e => .of_ite (.of_bind (stirs_stop id) fun _ => hforget) hforget

theorem stirred_perform (e : Engine) (c : LifecycleCall) : Stirred e (e.perform c).2 := by
  have htask : Moves Stirred c.task := by
    cases c with
    | create specification o => exact .of_bind (stirs_create specification o) fun _ => .of_pure _
    | start id => exact stirs_of_aside (aside_start id)
    | pause id => exact stirs_of_aside (aside_pause id)
    | resume id => exact stirs_resume id
    | stop id => exact stirs_stop id
    | wait id => exact stirs_wait id
    | delete id => exact .of_bind (stirs_delete id) fun _ => .of_pure _
  exact htask e

theorem stirs_close : Moves Stirred close := by
  have hall (ids : List String) : Moves Stirred (stopAll ids) := by
    induction ids with
    | nil => exact .of_pure _
    | cons id rest ih =>
      exact .of_bind .of_get fun e => .of_ite (.of_bind (stirs_stop id) fun _ => ih) ih
  exact .of_bind .of_get fun e => hall _

end Engine

end StepWorld
