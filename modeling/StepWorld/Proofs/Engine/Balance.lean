import StepWorld.Proofs.Engine.Completion
import StepWorld.Proofs.Engine.Turn

/-! What is kept of one simulation in several places: its status, its times, its result, its record in
the archive and its place among the active simulations. They agree before and after each thing that
its loop does. -/

namespace StepWorld

namespace Engine

variable {e f g : Engine} {id : String} {s t : Simulation}

/-- All that is kept of a simulation tells the same of its status. -/
structure Balanced (e : Engine) (id : String) (s : Simulation) : Prop where
  result : (e.results.get? id).isSome ↔ s.status = .completed
  archived : e.archive.Tells id s.status (s.status = .completed)
  completedAt : s.completedAt.isSome ↔ s.status.terminal = true
  error : s.error.isSome ↔ s.status = .error
  running : s.status = .running → id ∈ e.active
  active : id ∈ e.active → s.status = .running ∨ s.status = .paused

structure SameBooks (id : String) (e f : Engine) : Prop where
  results : f.results.get? id = e.results.get? id
  active : id ∈ f.active ↔ id ∈ e.active
  archive : e.archive.Spares id f.archive

theorem sameBooks_of_eq (hr : f.results = e.results) (ha : f.active = e.active)
    (harchive : f.archive = e.archive) : SameBooks id e f :=
  ⟨by rw [hr], by rw [ha], harchive ▸ .refl _⟩

theorem Touches.sameBooks {k : String} (h : Touches id e f) (hid : IsSimulationId id)
    (hk : IsSimulationId k) (hne : k ≠ id) : SameBooks k e f :=
  ⟨h.otherResults k hne, h.otherActive k hne, (h.archive hid k hk hne).spares⟩

namespace Balanced

theorem same (h : e.Balanced id s) (hid : IsSimulationId id) (hf : SameBooks id e f)
    (hs : t.status = s.status) (hc : t.completedAt = s.completedAt) (he : t.error = s.error) :
    f.Balanced id t where
  result := by rw [hf.results, hs]; exact h.result
  archived := by rw [hs]; exact h.archived.spares hid hf.archive
  completedAt := by rw [hc, hs]; exact h.completedAt
  error := by rw [he, hs]; exact h.error
  running hrun := hf.active.mpr (h.running (hs ▸ hrun))
  active hmem := by rw [hs]; exact h.active (hf.active.mp hmem)

theorem setStatus (h : e.Balanced id s) {next : SimulationStatus}
    (hs : s.status.terminal = false) (hnext : next = .running ∨ next = .paused)
    (hrun : (Archive.setStatus id next none).run.run e.archive = (.ok (), f.archive))
    (hr : f.results.get? id = e.results.get? id) (hactive : id ∈ f.active) :
    f.Balanced id { s with status := next } := by
  have hfinished : s.status ≠ .completed ∧ s.status ≠ .error := by
    constructor <;> rintro heq <;> simp [heq, SimulationStatus.terminal] at hs
  have hlive : next.terminal = false ∧ next ≠ .completed ∧ next ≠ .error := by
    rcases hnext with rfl | rfl <;> decide
  have hsame : (s.status = .completed) = (next = .completed) :=
    propext (iff_of_false hfinished.1 hlive.2.1)
  refine ⟨?_, ?_, ?_, ?_, fun _ => hactive, fun _ => hnext⟩
  · rw [hr, ← hsame]
    exact h.result
  · rw [← hsame]
    exact h.archived.setStatus hrun
  · rw [h.completedAt, hs, hlive.1]
  · exact h.error.trans (iff_of_false hfinished.2 hlive.2.2)

theorem endLoop (h : e.Balanced id s) (hsingle : e.active.Nodup)
    (hs : s.status ≠ .running) : (e.endLoop id).Balanced id s where
  result := h.result
  archived := h.archived
  completedAt := h.completedAt
  error := h.error
  running hrun := absurd hrun hs
  active hmem := absurd hmem hsingle.not_mem_erase

end Balanced

structure Open (e : Engine) (id : String) : Prop where
  single : e.active.Nodup
  balanced : ∃ s, e.simulations.get? id = some s ∧ s.status ≠ .error ∧ e.Balanced id s

structure Closed (e : Engine) (id : String) : Prop where
  single : e.active.Nodup
  balanced : ∃ s, e.simulations.get? id = some s ∧ e.Balanced id s

structure Carries (id : String) (e f : Engine) : Prop where
  touches : Touches id e f
  kept : f.refusals = [] → e.Open id → f.Open id

namespace Carries

theorem refl (e : Engine) : Carries id e e := ⟨.refl e, fun _ h => h⟩

theorem trans (h : Carries id e f) (h' : Carries id f g) : Carries id e g where
  touches := h.touches.trans h'.touches
  kept hr he := h'.kept hr (h.kept (List.prefix_nil.mp (hr ▸ h'.touches.refusals)) he)

theorem aside (hid : IsSimulationId id) (ht : Touches id e f) (hf : SameBooks id e f)
    (hs : f.simulations.get? id = e.simulations.get? id) : Carries id e f where
  touches := ht
  kept _ he := by
    obtain ⟨s, hget, hne, hb⟩ := he.balanced
    exact ⟨ht.single he.single, s, hs.trans hget, hne, hb.same hid hf rfl rfl rfl⟩

theorem refused (ht : Touches id e f) (hr : f.refusals ≠ []) : Carries id e f :=
  ⟨ht, fun hnone => absurd hnone hr⟩

end Carries

theorem carries_pause (e : Engine) : Carries id e (e.call (pause id)).2 := by
  have htouch : Touches id e (e.call (pause id)).2 := touches_call e moves_pause
  unfold pause at htouch ⊢
  by_cases hs : ∃ s, e.simulations.get? id = some s ∧ s.status = .running
  · obtain ⟨s, hs, hrun⟩ := hs
    rw [call_of_get? hs (by rw [hrun]; rfl), call_bind, call_modify] at htouch ⊢
    dsimp only at htouch ⊢
    rw [call_bind] at htouch ⊢
    rcases (e.cancel id).setStatus_cases id .paused with
      ⟨archive, hcall, hset⟩ | ⟨error, archive, hcall⟩
    · rw [hcall] at htouch ⊢
      refine ⟨htouch, fun _ he => ⟨htouch.single he.single, { s with status := .paused }, ?_, ?_, ?_⟩⟩
      · have hs' : (e.cancel id).simulations.get? id = some s := hs
        simp [enter, alter, print, Table.get?_modify, hs']
      · simp
      · obtain ⟨s', hs', -, hb⟩ := he.balanced
        obtain rfl : s' = s := Option.some.inj (hs'.symm.trans hs)
        exact hb.setStatus (by rw [hrun]; rfl) (.inr rfl) hset rfl (hb.running hrun)
    · rw [hcall] at htouch ⊢
      exact .refused htouch (by simp)
  · obtain ⟨error, hcall⟩ := @call_refused e id .pause Unit _ fun s hget => by
      rw [Bool.eq_false_iff]
      exact fun ha => hs ⟨s, hget, by simpa [LifecycleAction.allows] using ha⟩
    rw [hcall]
    exact .refl e

theorem Open.complete (h : e.Open id) (hr : (e.call (complete id)).2.refusals = []) :
    ∃ s, (e.call (complete id)).2.simulations.get? id = some s ∧ s.status = .completed ∧
      (e.call (complete id)).2.Balanced id s := by
  obtain ⟨s, hs, hne, hb⟩ := h.balanced
  have hresult : (e.results.put id (e.outcome id s)).get? id = some (e.outcome id s) :=
    (Table.get?_put _ _ _ _).trans (if_pos rfl)
  rcases complete_cases hs with
    ⟨middle, archive, message, hset, hsave, hcall⟩ | ⟨error, archive, hcall⟩
  · rw [hcall]
    refine ⟨s.completed e.tick.1, get?_noteEnd hs, rfl,
      iff_of_true (Option.isSome_of_eq_some hresult) rfl, ?_, iff_of_true rfl rfl, ?_,
      (fun hrun => nomatch hrun), fun hmem => ?_⟩
    · have htells := (hb.archived.setStatus hset).saveResult hsave
      rwa [← eq_self SimulationStatus.completed] at htells
    · exact hb.error.trans (iff_of_false hne fun hfalse => nomatch hfalse)
    · exact absurd hmem h.single.not_mem_erase
  · rw [hcall] at hr
    simp at hr

theorem carries_complete (e : Engine) (id : String) : Carries id e (e.call (complete id)).2 where
  touches := touches_complete e
  kept hr he := by
    obtain ⟨s, hs, hc, hb⟩ := he.complete hr
    exact ⟨(touches_complete e).single he.single, s, hs, by rw [hc]; decide, hb⟩

theorem carries_stopWithin (hid : IsSimulationId id) (e : Engine) :
    Carries id e (e.call (stopWithin id)).2 := by
  unfold stopWithin
  rw [call_bind, call_lookupFor]
  cases hs : e.simulations.get? id with
  | none => exact .refl e
  | some s =>
    by_cases ha : LifecycleAction.stop.allows s.status = true
    · simp only [ha, if_true]
      rw [call_bind, call_modify]
      refine Carries.trans ?_ (carries_complete _ id)
      exact .aside hid (touches_reschedule e _) (sameBooks_of_eq rfl rfl rfl) rfl
    · simp only [ha, if_false, Bool.false_eq_true]
      exact .refl e

theorem carries_print (hid : IsSimulationId id) (e : Engine) (kind : LineKind) (message : String) :
    Carries id e (e.print kind message) :=
  .aside hid (touches_print e kind message) (sameBooks_of_eq rfl rfl rfl) rfl

theorem carries_react (hid : IsSimulationId id) (e : Engine) (r : Reaction) :
    Carries id e (e.react id r).2 := by
  have htouch := @touches_react id e r
  have hcall {task : Task Unit} (h : Carries id e (e.call task).2) :
      Carries id e (e.reactionCall task).2 := by
    unfold reactionCall
    split <;> next f hf => rw [hf] at h; exact h
  cases r with
  | pause => exact hcall (carries_pause e)
  | stop => exact hcall (carries_stopWithin hid e)
  | fail => exact .refl e
  | dropWorld => exact .aside hid htouch (sameBooks_of_eq rfl rfl rfl) rfl
  | setVariable name value => exact .aside hid htouch (sameBooks_of_eq rfl rfl rfl) rfl

theorem carries_reactAll (hid : IsSimulationId id) (e : Engine) (world : World)
    (reactions : List Reaction) : Carries id e (e.reactAll id world reactions).2 := by
  induction reactions generalizing e world with
  | nil => exact .refl e
  | cons r rest ih =>
    have hr := carries_react hid e r
    unfold reactAll
    split
    · next error f hf =>
      rw [hf] at hr
      exact hr.trans (carries_print hid f _ _)
    · next f hf =>
      rw [hf] at hr
      exact hr.trans (ih f _)

theorem Open.closed (h : e.Open id) : e.Closed id := by
  obtain ⟨s, hs, -, hb⟩ := h.balanced
  exact ⟨h.single, s, hs, hb⟩

theorem Open.leave (h : e.Open id) (hr : (e.leave id).refusals = []) : (e.leave id).Closed id := by
  have htouch : Touches id e (e.leave id) := touches_leave e
  refine ⟨htouch.single h.single, ?_⟩
  unfold Engine.leave at hr ⊢
  dsimp only at hr ⊢
  split at hr
  · next hp =>
    rw [if_pos hp]
    obtain ⟨s, hs, -, hb⟩ := h.balanced
    have hrunner : e.runner? id = some s := by simp [runner?, hs]
    refine ⟨s, hs, hb.endLoop h.single fun hrun => ?_⟩
    simp [hrunner, hrun] at hp
  · next hp =>
    rw [if_neg hp]
    have hcomplete := @Open.complete e id h
    have hsingle := (@touches_complete id e).single h.single
    have hfaithful := Faithful.complete id e
    generalize e.call (Engine.complete id) = result at hr hcomplete hsingle hfaithful ⊢
    obtain ⟨result, f⟩ := result
    cases result with
    | ok u =>
      obtain ⟨s, hs, hc, hb⟩ := hcomplete hr
      exact ⟨s, hs, hb.endLoop hsingle (by rw [hc]; decide)⟩
    | error error =>
      have hgrow := (@touches_breakOff id f error.message).refusals
      exact absurd (List.prefix_nil.mp (hr ▸ hgrow)) (hfaithful error rfl)

theorem Open.breakOff (h : e.Open id) (hrun : ∀ s, e.simulations.get? id = some s → s.status = .running)
    (message : String) (hr : (e.breakOff id message).refusals = []) :
    (e.breakOff id message).Closed id := by
  have htouch := @touches_breakOff id e message
  refine ⟨htouch.single h.single, ?_⟩
  obtain ⟨s, hs, -, hb⟩ := h.balanced
  have hstatus := hrun s hs
  have hdone : (e.noteFailure id message).simulations.get? id = some
      { s with status := .error, completedAt := some e.tick.1, error := some message } := by
    simp [noteFailure, noteEnd, enter, alter, tick, print, Table.get?_modify, hs]
  have hfailed := @touches_fail id e message
  unfold Engine.breakOff at hr ⊢
  rcases @fail_cases e id message with ⟨archive, hf, hset⟩ | ⟨error, archive, hf⟩
  · rw [hf] at hfailed ⊢
    have hnever : (s.status = .completed) = (SimulationStatus.error = .completed) := by
      rw [hstatus]
      exact propext (iff_of_false (by decide) (by decide))
    refine ⟨_, hdone, ?_, ?_, iff_of_true rfl rfl, iff_of_true rfl rfl,
      (fun hfalse => absurd hfalse SimulationStatus.noConfusion), fun hmem => ?_⟩
    · rw [← hnever]
      exact hb.result
    · rw [← hnever]
      exact hb.archived.setStatus hset
    · exact absurd hmem (hfailed.single h.single).not_mem_erase
  · rw [hf] at hr
    simp [endLoop] at hr

theorem Open.rest (h : e.Open s.id) (hid : IsSimulationId s.id) (hr : (e.rest s).refusals = []) :
    (e.rest s).Closed s.id := by
  have hturn (f : Schedule → Schedule) (hr : (e.reschedule f).refusals = []) :
      (e.reschedule f).Closed s.id :=
    ((Carries.aside hid (touches_reschedule e f) (sameBooks_of_eq rfl rfl rfl) rfl).kept
      hr h).closed
  unfold Engine.rest at hr ⊢
  split
  · next hc =>
    rw [if_pos hc] at hr
    exact h.leave hr
  · next hc =>
    rw [if_neg hc] at hr
    split
    · next hi =>
      rw [if_pos hi] at hr
      exact hturn _ hr
    · next hi =>
      rw [if_neg hi] at hr
      exact hturn _ hr

theorem carries_saveSnapshot (hid : IsSimulationId id) (e : Engine) (step : Int) (w : World) :
    Carries id e (e.call (store (Archive.saveSnapshot id step w))).2 := by
  have htouch : Touches id e (e.call (store (Archive.saveSnapshot id step w))).2 :=
    touches_call e (moves_store (Archive.concerns_saveSnapshot id step w))
  have harchive := @archive_store e (Archive.saveSnapshot id step w)
  have hspares := Archive.spares_saveSnapshot hid id step w e.archive
  rw [← harchive] at hspares
  rcases @call_store e (Archive.saveSnapshot id step w) with ⟨archive, hcall, -⟩ | ⟨error, archive, hcall⟩
  · rw [hcall] at htouch hspares ⊢
    exact .aside hid htouch ⟨rfl, Iff.rfl, hspares⟩ rfl
  · rw [hcall] at htouch ⊢
    exact .refused htouch (by simp)

theorem Open.print (h : e.Open id) (hid : IsSimulationId id) (kind : LineKind) (message : String) :
    (e.print kind message).Open id := by
  obtain ⟨s, hs, hne, hb⟩ := h.balanced
  exact ⟨h.single, s, hs, hne, hb.same hid (sameBooks_of_eq rfl rfl rfl) rfl rfl rfl⟩

theorem Open.conclude (h : e.Open s.id) (hid : IsSimulationId s.id) (σ : StepSummary) (world : World)
    (hr : (e.conclude s σ world).refusals = []) : (e.conclude s σ world).Closed s.id := by
  unfold Engine.conclude at hr ⊢
  split
  · next hσ =>
    rw [if_pos hσ] at hr
    exact (h.print hid _ _).leave hr
  · next hσ =>
    rw [if_neg hσ] at hr
    have hsaved := carries_saveSnapshot hid e σ.step world
    have hfaithful := Faithful.of_store (Archive.saveSnapshot s.id σ.step world) e
    generalize e.call (store (Archive.saveSnapshot s.id σ.step world)) = result at hr hsaved hfaithful ⊢
    obtain ⟨result, f⟩ := result
    cases result with
    | ok u =>
      have hgrow := (touches_rest f s).refusals
      exact (hsaved.kept (List.prefix_nil.mp (hr ▸ hgrow)) h).rest hid hr
    | error error =>
      have hgrow := (@touches_breakOff s.id f error.message).refusals
      exact absurd (List.prefix_nil.mp (hr ▸ hgrow)) (hfaithful error rfl)

theorem Open.afterStep (h : e.Open s.id) (hid : IsSimulationId s.id) (σ : StepSummary)
    (hr : (e.afterStep s σ).refusals = []) : (e.afterStep s σ).Closed s.id := by
  have hreact := carries_reactAll hid { e with summaries := e.summaries ++ [(s.id, σ)] }
    ((e.arena.world? s.id).getD (.empty 0)) (e.listener s.id σ.step)
  obtain ⟨⟨world, f⟩, hf⟩ : ∃ result, reactAll { e with summaries := e.summaries ++ [(s.id, σ)] } s.id
    ((e.arena.world? s.id).getD (.empty 0)) (e.listener s.id σ.step) = result := ⟨_, rfl⟩
  rw [hf] at hreact
  rw [afterStep_eq hf] at hr ⊢
  have hgrow := (touches_conclude f s σ world).refusals
  obtain ⟨t, ht, hne, hb⟩ := h.balanced
  refine (hreact.kept (List.prefix_nil.mp (hr ▸ hgrow)) ⟨h.single, t, ht, hne, ?_⟩).conclude hid σ world hr
  exact hb.same hid (sameBooks_of_eq rfl rfl rfl) rfl rfl rfl

theorem Balanced.step (h : e.Balanced s.id t) (hid : IsSimulationId s.id)
    (ht : e.simulations.get? s.id = some t) :
    ∃ u, (e.step s).2.simulations.get? s.id = some u ∧ u.status = t.status ∧
      (e.step s).2.Balanced s.id u := by
  obtain ⟨arena, f, hstep, -, hf⟩ := e.step_stepped s
  obtain ⟨hstatus, hcompleted, herror⟩ := hf t
  rw [hstep]
  refine ⟨f t, ?_, hstatus, h.same hid (sameBooks_of_eq rfl rfl rfl) hstatus hcompleted herror⟩
  simp [stepped, alter, Table.get?_modify, ht]

theorem Open.act {l : Loop} (h : e.Open l.simulation) (hid : IsSimulationId l.simulation)
    (hfiled : ∀ s, e.simulations.get? l.simulation = some s → s.id = l.simulation)
    (hr : (e.act l).refusals = []) : (e.act l).Closed l.simulation := by
  obtain ⟨s, hs, hne, hb⟩ := h.balanced
  have hrunner : e.runner? l.simulation = some s := by simp [runner?, hs]
  have hl := hfiled s hs
  unfold Engine.act at hr ⊢
  rw [hrunner] at hr ⊢
  dsimp only at hr ⊢
  rw [← hl] at h hid hs hb ⊢
  by_cases hc : l.continues s = true
  · rw [if_pos hc] at hr ⊢
    have hrun : s.status = .running := (Loop.continues_iff.mp hc).1
    obtain ⟨u, hu, hstatus, hbu⟩ := hb.step hid hs
    have hsingle := (touches_step e s).single h.single
    have hopen : (e.step s).2.Open s.id := ⟨hsingle, u, hu, by rw [hstatus]; exact hne, hbu⟩
    generalize e.step s = result at hr hu hopen ⊢
    obtain ⟨result, f⟩ := result
    cases result with
    | ok σ => exact hopen.afterStep hid σ hr
    | error error =>
      refine hopen.breakOff (fun t ht => ?_) error.message hr
      obtain rfl : t = u := Option.some.inj (ht.symm.trans hu)
      exact hstatus.trans hrun
  · rw [if_neg hc] at hr ⊢
    exact h.leave hr

end Engine

end StepWorld
