import Mathlib.Data.List.Nodup
import StepWorld.Proofs.Archive.Stored
import StepWorld.Proofs.Engine.Call

/-! What concerns one simulation leaves all others alone. Whatever is done to a simulation by
its loop or by a call changes no other simulation, and the histories of the engine only grow. -/

namespace StepWorld

/-- At most one simulation was touched, and it is still there. Nothing that was noted is gone, and
no simulation has a result that was given no status. -/
structure Engine.Touches (id : String) (e f : Engine) : Prop where
  settings : f.settings = e.settings
  listener : f.listener = e.listener
  specifications : f.specifications = e.specifications
  issued : e.arena.ambient.issued ≤ f.arena.ambient.issued
  others : ∀ k, k ≠ id → f.simulations.get? k = e.simulations.get? k
  own : ∀ s, e.simulations.get? id = some s →
    ∃ t, f.simulations.get? id = some t ∧ t.id = s.id ∧ t.maxSteps = s.maxSteps
  absent : e.simulations.get? id = none → f.simulations.get? id = none
  detached : e.detached = [] → f.detached = []
  results : ∀ k, e.results.get? k = none →
    f.results.get? k = none ∨ ∃ status, (k, status) ∈ f.statuses
  statuses : ∃ added, f.statuses = e.statuses ++ added ∧ ∀ p ∈ added, p.1 = id
  begun : ∃ added, f.begun = e.begun ++ added ∧ ∀ k ∈ added, k = id
  summaries : ∃ added, f.summaries = e.summaries ++ added ∧ ∀ p ∈ added, p.1 = id
  refusals : e.refusals <+: f.refusals
  failures : f.refusals = [] → ∀ k, e.failures.get? k = none → f.failures.get? k = none
  otherResults : ∀ k, k ≠ id → f.results.get? k = e.results.get? k
  otherActive : ∀ k, k ≠ id → (k ∈ f.active ↔ k ∈ e.active)
  single : e.active.Nodup → f.active.Nodup
  archive : IsSimulationId id → ∀ k, IsSimulationId k → k ≠ id → e.archive.Leaves k f.archive

namespace Engine

variable {id : String}

theorem appended_trans {α : Type} {P : α → Prop} {a b c : List α}
    (h : ∃ added, b = a ++ added ∧ ∀ x ∈ added, P x)
    (h' : ∃ added, c = b ++ added ∧ ∀ x ∈ added, P x) :
    ∃ added, c = a ++ added ∧ ∀ x ∈ added, P x := by
  obtain ⟨first, rfl, hf⟩ := h
  obtain ⟨second, rfl, hs⟩ := h'
  refine ⟨first ++ second, List.append_assoc _ _ _, fun x hx => ?_⟩
  exact (List.mem_append.mp hx).elim (hf x) (hs x)

theorem appended_refl {α : Type} {P : α → Prop} (a : List α) :
    ∃ added, a = a ++ added ∧ ∀ x ∈ added, P x := ⟨[], by simp, by simp⟩

theorem filter_appended {α : Type} {k : String} {a b : List (String × α)}
    (h : ∃ added, b = a ++ added ∧ ∀ p ∈ added, p.1 = k) (hne : id ≠ k) :
    b.filter (·.1 == id) = a.filter (·.1 == id) := by
  obtain ⟨added, rfl, hall⟩ := h
  have hnone : added.filter (·.1 == id) = [] := by
    rw [List.filter_eq_nil_iff]
    intro p hp
    simpa using fun heq => hne (heq.symm.trans (hall p hp))
  rw [List.filter_append, hnone, List.append_nil]

theorem nodup_mark {ids : List String} (id : String) (h : ids.Nodup) :
    (if ids.contains id then ids else ids ++ [id]).Nodup := by
  split
  · exact h
  · next hid =>
    rw [← List.concat_eq_append]
    exact List.Nodup.concat (by simpa using hid) h

namespace Touches

theorem refl (e : Engine) : Touches id e e where
  settings := rfl
  listener := rfl
  specifications := rfl
  issued := Nat.le_refl _
  others _ _ := rfl
  own s h := ⟨s, h, rfl, rfl⟩
  absent h := h
  detached h := h
  results _ h := .inl h
  statuses := appended_refl _
  begun := appended_refl _
  summaries := appended_refl _
  refusals := List.prefix_refl _
  failures _ _ h := h
  otherResults _ _ := rfl
  otherActive _ _ := Iff.rfl
  single h := h
  archive _ _ _ _ := .refl _

theorem trans {e f g : Engine} (h : Touches id e f) (h' : Touches id f g) : Touches id e g where
  settings := h'.settings.trans h.settings
  listener := h'.listener.trans h.listener
  specifications := h'.specifications.trans h.specifications
  issued := Nat.le_trans h.issued h'.issued
  others k hk := (h'.others k hk).trans (h.others k hk)
  own s hs := by
    obtain ⟨t, ht, hid, hmax⟩ := h.own s hs
    obtain ⟨u, hu, hid', hmax'⟩ := h'.own t ht
    exact ⟨u, hu, hid'.trans hid, hmax'.trans hmax⟩
  absent hn := h'.absent (h.absent hn)
  detached hd := h'.detached (h.detached hd)
  results k hk := by
    obtain ⟨added, hadded, -⟩ := h'.statuses
    rcases h.results k hk with hnone | ⟨status, hstatus⟩
    · exact h'.results k hnone
    · exact .inr ⟨status, hadded ▸ List.mem_append_left _ hstatus⟩
  statuses := appended_trans h.statuses h'.statuses
  begun := appended_trans h.begun h'.begun
  summaries := appended_trans h.summaries h'.summaries
  refusals := h.refusals.trans h'.refusals
  failures hr k hk := h'.failures hr k (h.failures (List.prefix_nil.mp (hr ▸ h'.refusals)) k hk)
  otherResults k hk := (h'.otherResults k hk).trans (h.otherResults k hk)
  otherActive k hk := (h'.otherActive k hk).trans (h.otherActive k hk)
  single he := h'.single (h.single he)
  archive hid k hk hne := (h.archive hid k hk hne).trans (h'.archive hid k hk hne)

instance : Std.Refl (Touches id) := ⟨refl⟩

instance : Trans (Touches id) (Touches id) (Touches id) := ⟨trans⟩

end Touches

variable (e : Engine)

theorem touches_unseen (arena : Arena) (started : List String) (schedule : Schedule)
    (h : e.arena.ambient.issued ≤ arena.ambient.issued) :
    Touches id e { e with arena, started, schedule } :=
  { Touches.refl e with issued := h }

theorem touches_print (kind : LineKind) (message : String) : Touches id e (e.print kind message) :=
  touches_unseen e _ _ _ (Nat.le_refl _)

theorem touches_reschedule (f : Schedule → Schedule) : Touches id e (e.reschedule f) :=
  touches_unseen e _ _ _ (Nat.le_refl _)

theorem touches_tick : Touches id e e.tick.2 :=
  touches_unseen e _ _ _ (Nat.le_refl _)

theorem touches_archive {archive : Archive} (h : IsSimulationId id → ∀ k, IsSimulationId k →
    k ≠ id → e.archive.Leaves k archive) : Touches id e { e with archive } :=
  { Touches.refl e with archive := h }

theorem touches_deactivate : Touches id e { e with active := e.active.erase id } :=
  { Touches.refl e with
    otherActive := fun _ hk => List.mem_erase_of_ne hk
    single := List.Nodup.erase id }

theorem touches_activate :
    Touches id e { e with active := if e.active.contains id then e.active else e.active ++ [id] } :=
  { Touches.refl e with
    otherActive := fun k hk => by
      dsimp only
      split <;> simp [hk]
    single := nodup_mark id }

theorem touches_alter {f : Simulation → Simulation}
    (hf : ∀ s, (f s).id = s.id ∧ (f s).maxSteps = s.maxSteps) : Touches id e (e.alter id f) :=
  { Touches.refl e with
    others := fun k hk => by simp [alter, Table.get?_modify, hk]
    own := fun s hs => ⟨f s, by simp [alter, Table.get?_modify, hs], hf s⟩
    absent := fun hn => by simp [alter, Table.get?_modify, hn]
    detached := fun hd => by simp [alter, hd, Table.modify] }

theorem touches_enter (status : SimulationStatus) : Touches id e (e.enter id status) := by
  have hnoted : Touches id e { e with statuses := e.statuses ++ [(id, status)] } :=
    { Touches.refl e with statuses := ⟨_, rfl, by simp⟩, results := fun _ hk => .inl hk }
  exact hnoted.trans (touches_alter _ fun s => ⟨rfl, rfl⟩)

theorem touches_noteEnd (status : SimulationStatus) : Touches id e (e.noteEnd id status).2 :=
  ((touches_tick e).trans (touches_enter _ status)).trans (touches_alter _ fun _ => ⟨rfl, rfl⟩)

theorem touches_stepped {arena : Arena} {f : Simulation → Simulation}
    (ha : e.arena.Advances arena) (hf : ∀ s, (f s).id = s.id ∧ (f s).maxSteps = s.maxSteps) :
    Touches id e (e.stepped id arena f) := by
  have hbegun : Touches id e { e with begun := e.begun ++ [id], arena } :=
    { Touches.refl e with issued := ha.ambient.issued, begun := ⟨_, rfl, by simp⟩ }
  exact hbegun.trans (touches_alter _ hf)

theorem touches_step (s : Simulation) : Touches s.id e (e.step s).2 := by
  rcases e.step_cases s with ⟨error, arena, f, h, ha, hf⟩ | ⟨σ, arena, st, h, ha, -⟩
  · rw [h]
    refine touches_stepped e ha fun t => ?_
    obtain ⟨statistics, ht⟩ := hf t
    rw [ht]
    exact ⟨rfl, rfl⟩
  · rw [h]
    exact touches_stepped e ha fun t => ⟨rfl, rfl⟩

theorem moves_store {task : Archive.Task Unit} (ht : Archive.Concerns id task) :
    Moves (Touches id) (store task) := by
  intro e
  have hcall : ((store task).run.run e).2 = (e.call (store task)).2 := rfl
  rw [hcall]
  have harchive (hid : IsSimulationId id) (k : String) (hk : IsSimulationId k) (hne : k ≠ id) :
      e.archive.Leaves k (e.call (store task)).2.archive := by
    rw [archive_store]
    exact ht hid k hk hne e.archive
  rcases call_store task with ⟨archive, h, -⟩ | ⟨error, archive, h⟩
  · rw [h] at harchive ⊢
    exact touches_archive e harchive
  · rw [h] at harchive ⊢
    exact { touches_archive e harchive with
      refusals := List.prefix_append _ _
      failures := fun hr => by simp at hr }

theorem touches_call {α : Type} {task : Task α} (h : Moves (Touches id) task) :
    Touches id e (e.call task).2 := h e

theorem moves_lookup (k : String) : Moves (Touches id) (lookup k) := by
  refine .of_bind .of_get fun e => ?_
  split
  · exact .of_pure _
  · exact .of_throw _

theorem moves_lookupFor (action : LifecycleAction) (k : String) :
    Moves (Touches id) (lookupFor action k) :=
  .of_bind (moves_lookup k) fun _ => .of_ite (.of_pure _) (.of_throw _)

theorem moves_setStatus (status : SimulationStatus) : Moves (Touches id) (setStatus id status) :=
  .of_bind (.of_modify fun e => touches_enter e status) fun _ =>
    moves_store (Archive.concerns_setStatus id status none)

theorem moves_pause : Moves (Touches id) (pause id) := by
  refine .of_bind (moves_lookupFor _ _) fun s => ?_
  refine .of_bind (.of_modify fun e => touches_reschedule e _) fun _ => ?_
  exact .of_bind (moves_setStatus _) fun _ => .of_modify fun e => touches_print e _ _

theorem touches_spawn : Touches id e (e.spawn id) := by
  have hunseen := @touches_unseen id e e.arena
    (if e.started.contains id then e.started else e.started ++ [id]) (e.schedule.add id)
    (Nat.le_refl _)
  refine (hunseen.trans (touches_activate _)).trans
    { Touches.refl _ with failures := fun _ k hk => ?_ }
  simp only [spawn, Table.get?_remove]
  split
  · rfl
  · exact hk

theorem touches_noteStart : Touches id e (e.noteStart id) :=
  (touches_tick e).trans (touches_alter _ fun _ => ⟨rfl, rfl⟩)

theorem moves_launch (message : String) : Moves (Touches id) (do
    setStatus id .running
    modify fun e => (e.spawn id).print .info message) := by
  refine .of_bind (moves_setStatus _) fun _ => ?_
  exact .of_modify fun e => (touches_spawn e).trans (touches_print _ _ _)

theorem touches_complete : Touches id e (e.call (complete id)).2 := by
  have hend : Touches id e (e.noteEnd id .completed).2 := touches_noteEnd e .completed
  cases hs : (e.noteEnd id .completed).2.runner? id with
  | none =>
    rw [call_complete_none hs]
    exact hend
  | some s =>
    rw [call_complete hs]
    generalize s.result ((e.arena.world? id).getD (.empty e.tick.1)) = result
    have hnoted : (id, .completed) ∈ (e.noteEnd id .completed).2.statuses := by
      simp [noteEnd, enter, alter, tick]
    have hresult : Touches id (e.noteEnd id .completed).2 { (e.noteEnd id .completed).2 with
        results := e.results.put id result } :=
      { Touches.refl _ with
        results := fun k hk => by
          by_cases hid : k = id
          · rw [hid]
            exact .inr ⟨_, hnoted⟩
          · exact .inl ((Table.get?_put _ _ _ _).trans ((if_neg hid).trans hk))
        otherResults := fun k hk => (Table.get?_put _ _ _ _).trans (if_neg hk) }
    refine ((hend.trans hresult).trans (touches_deactivate _)).trans (touches_call _ ?_)
    refine .of_bind (moves_store (Archive.concerns_setStatus id _ _)) fun _ => ?_
    refine .of_bind (moves_store (Archive.concerns_saveResult id _)) fun _ => ?_
    exact .of_modify fun e => touches_print e _ _

theorem moves_complete : Moves (Touches id) (complete id) := fun e => touches_complete e

theorem moves_stopWithin : Moves (Touches id) (stopWithin id) := by
  refine .of_bind (moves_lookupFor _ _) fun s => ?_
  exact .of_bind (.of_modify fun e => touches_reschedule e _) fun _ => moves_complete

theorem touches_noteFailure (message : String) : Touches id e (e.noteFailure id message) :=
  have halter := @touches_alter id (e.noteEnd id .error).2
    (fun s => { s with error := some message }) fun _ => ⟨rfl, rfl⟩
  ((touches_noteEnd e .error).trans halter).trans (touches_print _ _ _)

theorem touches_fail (message : String) : Touches id e (e.fail id message) := by
  have h := @touches_noteFailure id e message
  have harchive (hid : IsSimulationId id) (k : String) (hk : IsSimulationId k) (hne : k ≠ id) :
      e.archive.Leaves k (e.fail id message).archive := by
    rw [archive_fail]
    exact Archive.concerns_setStatus id _ _ hid k hk hne e.archive
  rcases @fail_cases e id message with ⟨archive, hf, -⟩ | ⟨error, archive, hf⟩
  · rw [hf] at harchive ⊢
    exact { h with archive := harchive }
  · rw [hf] at harchive ⊢
    exact { h with
      archive := harchive
      refusals := List.prefix_append _ _
      failures := fun hr => by simp at hr }

theorem touches_endLoop : Touches id e (e.endLoop id) := by
  have hunseen := @touches_unseen id e e.arena e.started (e.schedule.remove id) (Nat.le_refl _)
  exact (hunseen.trans (touches_deactivate _)).trans { Touches.refl _ with
    detached := fun hd => by
      have hd' : e.detached = [] := hd
      simp [endLoop, hd', Table.remove] }

theorem touches_breakOff (message : String) : Touches id e (e.breakOff id message) :=
  (touches_fail e message).trans (touches_endLoop _)

theorem touches_leave : Touches id e (e.leave id) := by
  unfold leave
  dsimp only
  split
  · exact touches_endLoop e
  · have hcall := touches_call e (@moves_complete id)
    split
    · next f hf =>
      rw [hf] at hcall
      exact hcall.trans (touches_endLoop f)
    · next error f hf =>
      rw [hf] at hcall
      exact hcall.trans (touches_breakOff f _)

theorem touches_rest (s : Simulation) : Touches s.id e (e.rest s) := by
  unfold rest
  split
  · exact touches_leave e
  · split <;> exact touches_reschedule e _

theorem touches_react (r : Reaction) : Touches id e (e.react id r).2 := by
  have hcall {task : Task Unit} (h : Moves (Touches id) task) :
      Touches id e (e.reactionCall task).2 := by
    have ht := touches_call e h
    unfold reactionCall
    split <;> next f hf => rw [hf] at ht; exact ht
  cases r with
  | pause => exact hcall moves_pause
  | stop => exact hcall moves_stopWithin
  | fail => exact .refl e
  | dropWorld => exact touches_unseen e _ _ _ (Nat.le_refl _)
  | setVariable name value => exact touches_unseen e _ _ _ (Nat.le_refl _)

theorem touches_reactAll (world : World) (reactions : List Reaction) :
    Touches id e (e.reactAll id world reactions).2 := by
  induction reactions generalizing e world with
  | nil => exact .refl e
  | cons r rest ih =>
    have hr := @touches_react id e r
    unfold reactAll
    split
    · next error f hf =>
      rw [hf] at hr
      exact hr.trans (touches_print f _ _)
    · next f hf =>
      rw [hf] at hr
      exact hr.trans (ih f _)

theorem touches_conclude (s : Simulation) (summary : StepSummary) (world : World) :
    Touches s.id e (e.conclude s summary world) := by
  unfold conclude
  split
  · exact (touches_print e _ _).trans (touches_leave _)
  · have hstore : Touches s.id e (e.call (store
        (Archive.saveSnapshot s.id summary.step world))).2 :=
      touches_call e (moves_store (Archive.concerns_saveSnapshot _ _ _))
    split
    · next f hf =>
      rw [hf] at hstore
      exact hstore.trans (touches_rest f s)
    · next error f hf =>
      rw [hf] at hstore
      exact hstore.trans (touches_breakOff f _)

theorem touches_heard (s : Simulation) (summary : StepSummary) :
    Touches s.id { e with summaries := e.summaries ++ [(s.id, summary)] }
      (e.afterStep s summary) := by
  rw [afterStep_eq rfl]
  exact (touches_reactAll _ _ _).trans (touches_conclude _ s summary _)

theorem touches_afterStep (s : Simulation) (summary : StepSummary) :
    Touches s.id e (e.afterStep s summary) :=
  have hseen : Touches s.id e { e with summaries := e.summaries ++ [(s.id, summary)] } :=
    { Touches.refl e with summaries := ⟨_, rfl, by simp⟩ }
  hseen.trans (touches_heard e s summary)

theorem touches_act (l : Loop) (h : ∀ s, e.runner? l.simulation = some s → s.id = l.simulation) :
    Touches l.simulation e (e.act l) := by
  unfold act
  split
  · exact touches_endLoop e
  · next s hs =>
    rw [← h s hs]
    split
    · have hstep := touches_step e s
      split
      · next summary f hf =>
        rw [hf] at hstep
        exact hstep.trans (touches_afterStep f s summary)
      · next error f hf =>
        rw [hf] at hstep
        exact hstep.trans (touches_breakOff f _)
    · exact touches_leave e

end Engine

end StepWorld
