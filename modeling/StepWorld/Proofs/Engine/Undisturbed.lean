import StepWorld.Proofs.Engine.Calls
import StepWorld.Proofs.World.Idling

/-! What surrounds one simulation: its world, the specifications, its listener, and whether its loop
was told to end. Nothing that is done for other simulations changes that. -/

namespace StepWorld

namespace Schedule

variable {s : Schedule} {k : String} {l : Loop}

theorem mem_loops_alter {f : Loop → Loop} (h : l ∈ (s.alter k f).loops) :
    ∃ m ∈ s.loops, l = if m.simulation = k then f m else m := by
  have hloops : (s.alter k f).loops = s.loops.map fun m => if m.simulation = k then f m else m := by
    simp [loops, alter]
  rw [hloops] at h
  obtain ⟨m, hm, rfl⟩ := List.mem_map.mp h
  exact ⟨m, hm, rfl⟩

theorem mem_loops_cancel (h : l ∈ (s.cancel k).loops) :
    ∃ m ∈ s.loops, m.simulation = l.simulation ∧ m.stopping = l.stopping := by
  obtain ⟨m, hm, hcore⟩ := loops_rouse h
  obtain ⟨m', hm', rfl⟩ := mem_loops_alter hm
  simp only [Loop.core, Prod.mk.injEq] at hcore
  obtain ⟨hsim, -, hstop⟩ := hcore
  refine ⟨m', hm', hsim ▸ ?_, hstop ▸ ?_⟩ <;> split <;> simp

theorem mem_loops_remove (h : l ∈ (s.remove k).loops) : l ∈ s.loops := by
  simp only [remove, loops, List.mem_append, List.mem_map, List.mem_filter] at h ⊢
  rcases h with ⟨hl, -⟩ | ⟨m, ⟨hm, -⟩, rfl⟩
  · exact .inl hl
  · exact .inr ⟨m, hm, rfl⟩

theorem mem_loops_rotate {phase : LoopPhase} (h : l ∈ (s.rotate phase).loops) :
    ∃ m ∈ s.loops, m.simulation = l.simulation ∧ m.stopping = l.stopping := by
  unfold rotate at h
  split at h
  · exact ⟨l, h, rfl, rfl⟩
  · next first rest hq =>
    simp only [loops, hq, List.mem_append, List.mem_cons, List.not_mem_nil, or_false] at h ⊢
    rcases h with (hl | rfl) | hl
    · exact ⟨l, .inl (.inr hl), rfl, rfl⟩
    · exact ⟨first, .inl (.inl rfl), rfl, rfl⟩
    · exact ⟨l, .inr hl, rfl, rfl⟩

end Schedule

namespace Engine

def CalmAt (e : Engine) (id : String) : Prop :=
  ∀ l ∈ e.schedule.loops, l.simulation = id → l.stopping = false

structure Undisturbed (id : String) (e f : Engine) : Prop where
  listener : f.listener = e.listener
  specifications : f.specifications = e.specifications
  realm : f.arena.realms.get? id = e.arena.realms.get? id
  calm : e.CalmAt id → f.CalmAt id

variable {id k : String}

theorem CalmAt.of_loops {e f : Engine} (h : e.CalmAt id) (hf : ∀ l ∈ f.schedule.loops,
    ∃ m ∈ e.schedule.loops, m.simulation = l.simulation ∧ m.stopping = l.stopping) :
    f.CalmAt id := by
  intro l hl hid
  obtain ⟨m, hm, hsim, hstop⟩ := hf l hl
  exact hstop ▸ h m hm (hsim.trans hid)

namespace Undisturbed

variable {e f g : Engine}

theorem refl (e : Engine) : Undisturbed id e e := ⟨rfl, rfl, rfl, fun h => h⟩

theorem trans (h : Undisturbed id e f) (h' : Undisturbed id f g) : Undisturbed id e g where
  listener := h'.listener.trans h.listener
  specifications := h'.specifications.trans h.specifications
  realm := h'.realm.trans h.realm
  calm he := h'.calm (h.calm he)

instance : Std.Refl (Undisturbed id) := ⟨refl⟩

instance : Trans (Undisturbed id) (Undisturbed id) (Undisturbed id) := ⟨trans⟩

theorem of_same (hl : f.listener = e.listener) (hs : f.specifications = e.specifications)
    (hr : f.arena.realms = e.arena.realms) (ht : f.schedule = e.schedule) : Undisturbed id e f :=
  ⟨hl, hs, by rw [hr], fun he => by rw [CalmAt, ht]; exact he⟩

theorem of_reschedule (e : Engine) {f : Schedule → Schedule}
    (h : ∀ l ∈ (f e.schedule).loops,
      ∃ m ∈ e.schedule.loops, m.simulation = l.simulation ∧ m.stopping = l.stopping) :
    Undisturbed id e (e.reschedule f) :=
  ⟨rfl, rfl, rfl, fun he => he.of_loops h⟩

theorem world? (h : Undisturbed id e f) : f.arena.world? id = e.arena.world? id :=
  congrArg (Option.map Realm.world) h.realm

theorem programs (h : Undisturbed id e f) : f.programs = e.programs := by
  funext specification
  rw [Engine.programs, h.specifications]
  rfl

end Undisturbed

variable (e : Engine)

theorem undisturbed_print (kind : LineKind) (message : String) :
    Undisturbed id e (e.print kind message) := .of_same rfl rfl rfl rfl

theorem undisturbed_noteEnd (status : SimulationStatus) :
    Undisturbed id e (e.noteEnd k status).2 := .of_same rfl rfl rfl rfl

theorem undisturbed_cancel : Undisturbed id e (e.cancel k) :=
  .of_reschedule e fun _ => Schedule.mem_loops_cancel

theorem moves_undisturbed_store (task : Archive.Task Unit) :
    Moves (Undisturbed id) (store task) := by
  intro e
  have hcall : ((store task).run.run e).2 = (e.call (store task)).2 := rfl
  rw [hcall]
  rcases call_store task with ⟨archive, h, -⟩ | ⟨error, archive, h⟩
  · rw [h]
    exact .of_same rfl rfl rfl rfl
  · rw [h]
    exact .of_same rfl rfl rfl rfl

theorem undisturbed_call {α : Type} {task : Task α} (h : Moves (Undisturbed id) task) :
    Undisturbed id e (e.call task).2 := h e

theorem moves_undisturbed_lookupFor (action : LifecycleAction) :
    Moves (Undisturbed id) (lookupFor action k) := by
  refine .of_bind (.of_bind .of_get fun e => ?_) fun _ => .of_ite (.of_pure _) (.of_throw _)
  split
  · exact .of_pure _
  · exact .of_throw _

theorem moves_undisturbed_setStatus (status : SimulationStatus) :
    Moves (Undisturbed id) (setStatus k status) :=
  .of_bind (.of_modify fun _ => .of_same rfl rfl rfl rfl) fun _ => moves_undisturbed_store _

theorem moves_undisturbed_pause : Moves (Undisturbed id) (pause k) := by
  refine .of_bind (moves_undisturbed_lookupFor _) fun s => ?_
  refine .of_bind (.of_modify fun e => undisturbed_cancel e) fun _ => ?_
  exact .of_bind (moves_undisturbed_setStatus _) fun _ =>
    .of_modify fun e => undisturbed_print e _ _

theorem undisturbed_spawn : Undisturbed id e (e.spawn k) := by
  refine ⟨rfl, rfl, rfl, fun he l hl hid => ?_⟩
  simp only [spawn, Schedule.add, Schedule.loops, List.mem_append, List.mem_singleton] at hl
  rcases hl with (hl | rfl) | hl
  · exact he l (List.mem_append_left _ hl) hid
  · rfl
  · exact he l (List.mem_append_right _ hl) hid

theorem moves_undisturbed_launch (message : String) : Moves (Undisturbed id) (do
    setStatus k .running
    modify fun e => (e.spawn k).print .info message) := by
  refine .of_bind (moves_undisturbed_setStatus _) fun _ => ?_
  exact .of_modify fun e => (undisturbed_spawn e).trans (undisturbed_print _ _ _)

theorem moves_undisturbed_complete : Moves (Undisturbed id) (complete k) := by
  refine .of_bind (.of_modifyGet fun e => undisturbed_noteEnd e _) fun stamp => ?_
  refine .of_bind .of_get fun e => ?_
  split
  · exact .of_pure _
  · refine .of_bind .of_get fun e => ?_
    refine .of_bind (.of_modify fun e => .of_same rfl rfl rfl rfl) fun _ => ?_
    refine .of_bind (moves_undisturbed_store _) fun _ => ?_
    refine .of_bind (moves_undisturbed_store _) fun _ => ?_
    exact .of_modify fun e => undisturbed_print e _ _

theorem moves_undisturbed_stopWithin : Moves (Undisturbed id) (stopWithin k) := by
  refine .of_bind (moves_undisturbed_lookupFor _) fun s => ?_
  exact .of_bind (.of_modify fun e => undisturbed_cancel e) fun _ => moves_undisturbed_complete

theorem undisturbed_fail (message : String) : Undisturbed id e (e.fail k message) := by
  rcases @fail_cases e k message with ⟨archive, h, -⟩ | ⟨error, archive, h⟩
  · rw [h]
    exact .of_same rfl rfl rfl rfl
  · rw [h]
    exact .of_same rfl rfl rfl rfl

theorem undisturbed_endLoop : Undisturbed id e (e.endLoop k) :=
  ⟨rfl, rfl, rfl, fun he => he.of_loops fun l hl => ⟨l, Schedule.mem_loops_remove hl, rfl, rfl⟩⟩

theorem undisturbed_breakOff (message : String) : Undisturbed id e (e.breakOff k message) :=
  (undisturbed_fail e message).trans (undisturbed_endLoop _)

theorem undisturbed_leave : Undisturbed id e (e.leave k) := by
  have hcall := undisturbed_call e (@moves_undisturbed_complete id k)
  unfold leave
  dsimp only
  split
  · exact undisturbed_endLoop e
  · split
    · next f hf =>
      rw [hf] at hcall
      exact hcall.trans (undisturbed_endLoop f)
    · next error f hf =>
      rw [hf] at hcall
      exact hcall.trans (undisturbed_breakOff f _)

theorem undisturbed_rest (s : Simulation) : Undisturbed id e (e.rest s) := by
  unfold rest
  split
  · exact undisturbed_leave e
  · split <;> exact .of_reschedule e fun _ => Schedule.mem_loops_rotate

theorem undisturbed_conclude (s : Simulation) (summary : StepSummary) (world : World) :
    Undisturbed id e (e.conclude s summary world) := by
  unfold conclude
  split
  · exact (undisturbed_print e _ _).trans (undisturbed_leave _)
  · have hstore := undisturbed_call e (@moves_undisturbed_store id
      (Archive.saveSnapshot s.id summary.step world))
    split
    · next f hf =>
      rw [hf] at hstore
      exact hstore.trans (undisturbed_rest f s)
    · next error f hf =>
      rw [hf] at hstore
      exact hstore.trans (undisturbed_breakOff f _)

/-! ### What changes the world of a simulation

A step of another simulation leaves it alone, and so does the listener to that step. -/

theorem along_step {R : World → World → Prop} [Std.Refl R] [Trans R R R] {s : Simulation}
    (hadvance : ∀ w : World, R w w.advance)
    (hfinish : ∀ (w : World) step limit events rules stamp,
      R w ((w.finishStep step limit events rules).touch stamp))
    (hevent : ∀ type id event, Moves (Arena.Along R s.id) (StepWorld.runEvent e.programs
      (StepTarget.eventRequest ⟨e.programs, s.specification, s.id⟩ type id event)))
    (hrule : ∀ name, Moves (Arena.Along R s.id) (StepWorld.runRule e.programs
      (StepTarget.ruleRequest ⟨e.programs, s.specification, s.id⟩ name))) :
    Arena.Along R s.id e.arena (e.step s).2.arena := by
  have hran {p : Program} {w : World} {result : Except Fault Unit} {q : StepProgress}
      (hw : e.arena.world? s.id = some w) (hrun : e.runOf s p w = (result, q)) :
      Arena.Along R s.id e.arena q.arena := by
    obtain ⟨realm, hrealm, rfl⟩ := Arena.realm_of_world? hw
    have hprogram := StepTarget.moves_program ⟨e.programs, s.specification, s.id⟩ hevent hrule
      p ⟨e.arena.keep s.id realm.world.advance, [], [], 0, [], s.statistics⟩
    change Arena.Along R s.id (e.arena.keep s.id realm.world.advance)
      (e.runOf s p realm.world).2.arena at hprogram
    rw [hrun] at hprogram
    exact .trans (.of_keep hrealm (hadvance _)) hprogram
  have houtcome := e.step_outcome s
  generalize e.step s = result at houtcome ⊢
  cases houtcome with
  | unknown hp => exact .refl e.arena
  | gone hp hw => exact .refl e.arena
  | failed hp hw hrun => exact hran hw hrun
  | counted hp hw hrun =>
    exact ((hran hw hrun).trans (.of_update fun w stamp => hfinish w _ _ _ _ stamp)).trans
      (.of_ambient _ _)

theorem realms_step {s : Simulation} (hs : s.id ≠ "") (h : id ≠ s.id) :
    (e.step s).2.arena.realms.get? id = e.arena.realms.get? id := by
  let R (_ _ : World) : Prop := True
  have : Std.Refl R := ⟨fun _ => trivial⟩
  have : Trans R R R := ⟨fun _ _ => trivial⟩
  have halong : Arena.Along R s.id e.arena (e.step s).2.arena := by
    refine along_step e (fun _ => trivial) (fun _ _ _ _ _ _ => trivial) (fun type k event => ?_)
      fun name => ?_
    · have hkept := kept_runEvent e.programs
        (StepTarget.eventRequest ⟨e.programs, s.specification, s.id⟩ type k event)
      rw [StepTarget.worldId_eventRequest hs] at hkept
      exact fun a => (hkept a).mono fun _ _ _ => trivial
    · have hspared := spared_runRule e.programs
        (StepTarget.ruleRequest ⟨e.programs, s.specification, s.id⟩ name)
      rw [StepTarget.worldId_ruleRequest hs] at hspared
      exact fun a => (hspared a).mono fun _ _ _ => trivial
  exact halong.others id h

theorem undisturbed_step {s : Simulation} (hs : s.id ≠ "") (h : id ≠ s.id) :
    Undisturbed id e (e.step s).2 := by
  have hrealm := realms_step e hs h
  obtain ⟨arena, f, hstep, -⟩ := step_stepped e s
  rw [hstep] at hrealm ⊢
  exact ⟨rfl, rfl, hrealm, fun he => he⟩

theorem undisturbed_react (h : id ≠ k) (r : Reaction) : Undisturbed id e (e.react k r).2 := by
  have hcall {task : Task Unit} (ht : Moves (Undisturbed id) task) :
      Undisturbed id e (e.reactionCall task).2 := by
    have ht := undisturbed_call e ht
    unfold reactionCall
    split <;> next f hf => rw [hf] at ht; exact ht
  cases r with
  | pause => exact hcall moves_undisturbed_pause
  | stop => exact hcall moves_undisturbed_stopWithin
  | fail => exact .refl e
  | dropWorld => exact ⟨rfl, rfl, (Table.get?_remove _ _ _).trans (if_neg h), fun he => he⟩
  | setVariable name value => exact ⟨rfl, rfl, e.arena.others_update _ id h, fun he => he⟩

theorem undisturbed_reactAll (h : id ≠ k) (world : World) (reactions : List Reaction) :
    Undisturbed id e (e.reactAll k world reactions).2 := by
  induction reactions generalizing e world with
  | nil => exact .refl e
  | cons r rest ih =>
    have hr := undisturbed_react e h r
    unfold reactAll
    split
    · next error f hf =>
      rw [hf] at hr
      exact hr.trans (undisturbed_print f _ _)
    · next f hf =>
      rw [hf] at hr
      exact hr.trans (ih f _)

theorem undisturbed_afterStep {s : Simulation} (h : id ≠ s.id) (summary : StepSummary) :
    Undisturbed id e (e.afterStep s summary) := by
  have hseen : Undisturbed id e { e with summaries := e.summaries ++ [(s.id, summary)] } :=
    .of_same rfl rfl rfl rfl
  rw [afterStep_eq rfl]
  exact hseen.trans ((undisturbed_reactAll _ h _ _).trans (undisturbed_conclude _ s summary _))

theorem undisturbed_act {l : Loop} (h : id ≠ l.simulation)
    (hl : ∀ s, e.runner? l.simulation = some s → s.id = l.simulation ∧ s.id ≠ "") :
    Undisturbed id e (e.act l) := by
  unfold act
  split
  · exact undisturbed_endLoop e
  · next s hs =>
    obtain ⟨hid, hne⟩ := hl s hs
    split
    · have hstep := undisturbed_step e hne (hid ▸ h)
      split
      · next summary f hf =>
        rw [hf] at hstep
        exact hstep.trans (undisturbed_afterStep f (hid ▸ h) summary)
      · next error f hf =>
        rw [hf] at hstep
        exact hstep.trans (undisturbed_breakOff f _)
    · exact undisturbed_leave e

theorem undisturbed_forget (h : id ≠ k) : Undisturbed id e (e.forget k) :=
  ⟨rfl, rfl, (Table.get?_remove _ _ _).trans (if_neg h), fun he => he⟩

theorem along_override {R : World → World → Prop} [Std.Refl R] [Trans R R R]
    (hvar : ∀ w name value stamp, R w ((World.setVariable w name value).touch stamp))
    (hproperty : ∀ w type i properties stamp,
      R w ((World.modifyInstance w type i (·.setProperties properties)).touch stamp))
    (a : Arena) (initial : InitialState) : Arena.Along R k a (a.override k initial) := by
  refine override_along (fun a name value => .of_update fun w => hvar w name value)
    (fun a type properties => ?_) a initial
  unfold Arena.overrideFirst
  split
  · exact .of_update fun w => hproperty w type _ properties
  · exact .of_ambient a _

theorem rests_override (a : Arena) (initial : InitialState) :
    Arena.Along World.Rests k a (a.override k initial) :=
  along_override (fun _ _ _ _ => ⟨rfl, rfl⟩) (fun _ _ _ _ _ => ⟨rfl, rfl⟩) a initial

theorem undisturbed_addSimulation (specification : String) (program : Program)
    (o : SimulationOptions) (h : id ≠ (e.addSimulation specification program o).1.id) :
    Undisturbed id e (e.addSimulation specification program o).2 := by
  refine ⟨rfl, rfl, ?_, fun he => he⟩
  let issued := e.tick.2.issue "sim"
  have h : id ≠ issued.1 := h
  have hcreate : (issued.2.arena.create issued.1 program.entities).realms.get? id =
      e.arena.realms.get? id := by
    rw [Arena.create, Table.get?_put, if_neg h]
    rfl
  unfold addSimulation
  dsimp only
  cases o.initialState with
  | none => exact hcreate
  | some initial => exact ((rests_override _ initial).others id h).trans hcreate

end Engine

namespace Arena

variable {id : String} {w : World}

theorem sameApart_overrideFirst (a : Arena) (type : String) (properties : Record) :
    Arena.Along World.SameApart id a (a.overrideFirst id type properties) := by
  unfold overrideFirst
  split
  · exact .of_update fun w stamp => ⟨_, stamp, rfl⟩
  · exact .of_ambient a _

theorem world?_override {a : Arena} (h : a.world? id = some w) (initial : InitialState) :
    ∃ v, (a.override id initial).world? id = some v ∧ v.time = w.time ∧ v.step = w.step ∧
      v.vars = w.vars.putAll initial.vars := by
  have hentities (entries : Table Record) (a : Arena) : Arena.Along World.SameApart id a
      (entries.foldl (fun a entry => a.overrideFirst id entry.1 entry.2) a) := by
    induction entries generalizing a with
    | nil => exact .refl a
    | cons entry rest ih =>
      exact (a.sameApart_overrideFirst entry.1 entry.2).trans (ih _)
  have hvars (vars : Record) (a : Arena) (w : World) (h : a.world? id = some w) : ∃ v,
      (vars.foldl (fun a entry => a.setVariable id entry.1 entry.2) a).world? id = some v ∧
        v.time = w.time ∧ v.step = w.step ∧ v.vars = w.vars.putAll vars := by
    induction vars generalizing a w with
    | nil => exact ⟨w, h, rfl, rfl, rfl⟩
    | cons entry rest ih =>
      obtain ⟨realm, hrealm, rfl⟩ := realm_of_world? h
      refine ih (a.setVariable id entry.1 entry.2)
        ((realm.world.setVariable entry.1 entry.2).touch a.ambient.tick.1) ?_
      simp [setVariable, update, world?, Table.get?_modify, hrealm]
  obtain ⟨u, hu, htime, hstep, hset⟩ := hvars initial.vars a w h
  obtain ⟨v, hv, entities, stamp, rfl⟩ := (hentities initial.entities _).own u hu
  exact ⟨_, hv, htime, hstep, hset⟩

end Arena

end StepWorld
