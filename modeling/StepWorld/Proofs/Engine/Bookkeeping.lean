import StepWorld.Proofs.Engine.Balance
import StepWorld.Proofs.Engine.Launch

/-! The books of all simulations under any calls. The registry, the archive, the times and the set
of active simulations tell the same of every status, whatever the listener does. -/

namespace StepWorld

/-- What a caller does with an engine but for deletions: calls of the lifecycle, steps by hand and
sleep. -/
inductive DriverCall where
  | life (c : LifecycleCall) (kept : ∀ id, c ≠ .delete id)
  | step (id : String)
  | sleep (seconds : Float)

namespace Engine

variable {e f g : Engine} {id : String} {s t : Simulation}

def drive (e : Engine) : DriverCall → Engine
  | .life c _ => (e.perform c).2
  | .step id => (e.simulations.get? id).elim e fun s => (e.step s).2
  | .sleep seconds => e.sleepFor seconds

def driveAll (e : Engine) (calls : List DriverCall) : Engine := calls.foldl drive e

theorem drive_step (hs : e.simulations.get? id = some s) :
    e.drive (.step id) = (e.step s).2 := by
  rw [drive, hs]
  rfl

theorem drive_step_none (hs : e.simulations.get? id = none) : e.drive (.step id) = e := by
  rw [drive, hs]
  rfl

/-- The books of all registered simulations agree, and there are none of others. -/
structure Sound (e : Engine) : Prop where
  single : e.active.Nodup
  numbered : ∀ id s, e.simulations.get? id = some s → IsSimulationId id
  balanced : ∀ id s, e.simulations.get? id = some s → e.Balanced id s
  unbooked : ∀ id, e.simulations.get? id = none →
    e.results.get? id = none ∧ id ∉ e.active ∧ (IsSimulationId id → e.archive.Unknown id)

namespace Sound

theorem opened (h : e.Sound) (hs : e.simulations.get? id = some s) (hne : s.status ≠ .error) :
    e.Open id :=
  ⟨h.single, s, hs, hne, h.balanced id s hs⟩

theorem touched (h : e.Sound) (ht : Touches id e f) (hs : e.simulations.get? id = some s)
    (hf : f.Closed id) : f.Sound := by
  have hid := h.numbered id s hs
  obtain ⟨u, hu, hb⟩ := hf.balanced
  have hkept {k : String} {t : Simulation} (hne : k ≠ id) (hk : f.simulations.get? k = some t) :
      e.simulations.get? k = some t := by
    rw [← ht.others k hne]
    exact hk
  refine ⟨hf.single, fun k t hk => ?_, fun k t hk => ?_, fun k hk => ?_⟩
  · by_cases hne : k = id
    · exact hne ▸ hid
    · exact h.numbered k t (hkept hne hk)
  · by_cases hne : k = id
    · subst hne
      obtain rfl : t = u := Option.some.inj (hk.symm.trans hu)
      exact hb
    · have hk' := hkept hne hk
      have hbooks := ht.sameBooks hid (h.numbered k t hk') hne
      exact (h.balanced k t hk').same (h.numbered k t hk') hbooks rfl rfl rfl
  · have hne : k ≠ id := by
      rintro rfl
      rw [hu] at hk
      cases hk
    obtain ⟨hr, ha, hu⟩ := h.unbooked k ((ht.others k hne).symm.trans hk)
    refine ⟨(ht.otherResults k hne).trans hr, fun hmem => ha ((ht.otherActive k hne).mp hmem),
      fun hk => ?_⟩
    exact (hu hk).spares (ht.archive hid k hk hne).spares

theorem reschedule (h : e.Sound) (f : Schedule → Schedule) : (e.reschedule f).Sound where
  single := h.single
  numbered := h.numbered
  balanced k t hk :=
    (h.balanced k t hk).same (h.numbered k t hk) (sameBooks_of_eq rfl rfl rfl) rfl rfl rfl
  unbooked := h.unbooked

theorem happens (h : e.Sound) (ho : e.Orderly) (hf : e.Happens f) (hr : f.refusals = []) :
    f.Sound := by
  cases hf with
  | shuffle => exact h.reschedule _
  | @act l rest hq hphase =>
    obtain ⟨s, t, hmid, hd, htouch, -⟩ := ho.acted hq hphase
    have hne : s.status ≠ .error := by
      rcases hd with ⟨hs, -⟩ | ⟨hs, -⟩ <;> rw [hs] <;> decide
    refine h.touched htouch hmid.own ?_
    exact (h.opened hmid.own hne).act (h.numbered _ s hmid.own) (ho.filed l.simulation) hr

theorem passes (h : e.Sound) (ho : e.Orderly) (hf : Passes e f) (hr : f.refusals = []) :
    f.Sound := by
  induction hf with
  | refl => exact h
  | tail hpast hstep ih =>
    have hmiddle := ho.passes hpast
    exact (ih ((hmiddle.extends_happens hstep).none hr)).happens hmiddle hstep hr

theorem lookupFor (h : e.Sound) {action : LifecycleAction} {next : Simulation → Task Unit}
    (hr : (e.call (Engine.lookupFor action id >>= next)).2.refusals = [])
    (hnext : ∀ s, e.simulations.get? id = some s → action.allows s.status = true →
      (e.call (next s)).2.refusals = [] → (e.call (next s)).2.Sound) :
    (e.call (Engine.lookupFor action id >>= next)).2.Sound := by
  by_cases hs : ∃ s, e.simulations.get? id = some s ∧ action.allows s.status = true
  · obtain ⟨s, hs, ha⟩ := hs
    rw [call_of_get? hs ha] at hr ⊢
    exact hnext s hs ha hr
  · obtain ⟨error, hcall⟩ := @call_refused e id action Unit next fun s hget => by
      rw [Bool.eq_false_iff]
      exact fun ha => hs ⟨s, hget, ha⟩
    rw [hcall]
    exact h

theorem launch (h : e.Sound) (hs : e.simulations.get? id = some s)
    (hc : s.status = .created ∨ s.status = .paused) (message : String)
    (hr : (e.call (do
      setStatus id .running
      modify fun e => (e.spawn id).print .info message)).2.refusals = []) :
    (e.call (do
      setStatus id .running
      modify fun e => (e.spawn id).print .info message)).2.Sound := by
  have htouch := touches_call e (@moves_launch id message)
  refine h.touched htouch hs ⟨htouch.single h.single, { s with status := .running }, ?_⟩
  rw [call_bind] at hr ⊢
  rcases e.setStatus_cases id .running with ⟨archive, hcall, hset⟩ | ⟨error, archive, hcall⟩
  · rw [hcall]
    refine ⟨?_, (h.balanced id s hs).setStatus ?_ (.inl rfl) hset rfl ?_⟩
    · simp [enter, alter, spawn, print, Table.get?_modify, hs]
    · rcases hc with hc | hc <;> rw [hc] <;> rfl
    · simp only [call_modify, print, spawn]
      split
      · next hmem => simpa using hmem
      · simp
  · rw [hcall] at hr
    simp at hr

theorem start (h : e.Sound) (hr : (e.call (start id)).2.refusals = []) :
    (e.call (Engine.start id)).2.Sound := by
  unfold Engine.start at hr ⊢
  refine h.lookupFor hr fun s hs ha hr => ?_
  have hcreated : s.status = .created := by simpa [LifecycleAction.allows] using ha
  rw [call_bind, call_modify] at hr ⊢
  have hnoted : (e.noteStart id).simulations.get? id =
      some { s with startedAt := some e.tick.1 } := by
    simp [noteStart, alter, tick, Table.get?_modify, hs]
  have hb := (h.balanced id s hs).same (h.numbered id s hs) (f := e.noteStart id)
    (sameBooks_of_eq rfl rfl rfl) (t := { s with startedAt := some e.tick.1 }) rfl rfl rfl
  have hsound := h.touched (touches_noteStart e) hs ⟨h.single, _, hnoted, hb⟩
  exact hsound.launch hnoted (.inl hcreated) _ hr

theorem pause (h : e.Sound) (hr : (e.call (pause id)).2.refusals = []) :
    (e.call (Engine.pause id)).2.Sound := by
  have hcarries := @carries_pause id e
  unfold Engine.pause at hr hcarries ⊢
  refine h.lookupFor hr fun s hs ha hr => ?_
  rw [call_of_get? hs ha] at hcarries
  have hrun : s.status = .running := by simpa [LifecycleAction.allows] using ha
  refine h.touched hcarries.touches hs (hcarries.kept hr (h.opened hs ?_)).closed
  rw [hrun]
  decide

theorem resume (h : e.Sound) (ho : e.Orderly) (hr : (e.call (resume id)).2.refusals = []) :
    (e.call (Engine.resume id)).2.Sound := by
  unfold Engine.resume at hr ⊢
  refine h.lookupFor hr fun s hs ha hr => ?_
  have hpass := passes_awaitLoop e id
  rw [call_bind, call_await] at hr ⊢
  cases hfailure : (e.awaitLoop id).failures.get? id with
  | some error =>
    rw [hfailure] at hr
    exact h.passes ho hpass hr
  | none =>
    rw [hfailure] at hr
    dsimp only at hr ⊢
    have hgrow := (touches_call (e.awaitLoop id) (.of_bind (moves_lookupFor .resume id) fun s =>
      @moves_launch id ("[Simulation] Resumed " ++ id ++ " at step " ++
        toString s.currentStep))).refusals
    have hawaited := h.passes ho hpass (List.prefix_nil.mp (hr ▸ hgrow))
    refine hawaited.lookupFor hr fun t ht ha hr => ?_
    exact hawaited.launch ht (.inr (by simpa [LifecycleAction.allows] using ha)) _ hr

theorem stop (h : e.Sound) (ho : e.Orderly) (hr : (e.call (stop id)).2.refusals = []) :
    (e.call (Engine.stop id)).2.Sound := by
  unfold Engine.stop at hr ⊢
  refine h.lookupFor hr fun s hs ha hr => ?_
  rw [call_bind, call_modify] at hr ⊢
  dsimp only at hr ⊢
  have hmark := ho.handle (ho.handled_markStopping hs)
  have hsound : (e.markStopping id).Sound := h.reschedule _
  have hpass := passes_awaitLoop (e.markStopping id) id
  rw [call_bind, call_await] at hr ⊢
  generalize (e.markStopping id).awaitLoop id = g at hr hpass ⊢
  cases hfailure : g.failures.get? id with
  | some error =>
    rw [hfailure] at hr
    exact hsound.passes hmark hpass hr
  | none =>
    rw [hfailure] at hr
    dsimp only at hr ⊢
    rw [call_bind, call_get] at hr ⊢
    dsimp only at hr ⊢
    cases hlive : g.isLive id with
    | false =>
      simp only [hlive, Bool.false_eq_true, if_false] at hr ⊢
      exact hsound.passes hmark hpass hr
    | true =>
      simp only [hlive, if_true] at hr ⊢
      have hcarries := carries_complete g id
      have hg := hsound.passes hmark hpass (List.prefix_nil.mp (hr ▸ hcarries.touches.refusals))
      obtain ⟨t, ht, hl⟩ := isLive_iff.mp hlive
      refine hg.touched hcarries.touches ht (hcarries.kept hr (hg.opened ht ?_)).closed
      intro herror
      rw [herror] at hl
      cases hl

theorem wait (h : e.Sound) (ho : e.Orderly) (hr : (e.call (wait id)).2.refusals = []) :
    (e.call (Engine.wait id)).2.Sound := by
  unfold Engine.wait at hr ⊢
  rw [call_bind, call_lookup] at hr ⊢
  cases hs : e.simulations.get? id with
  | none => exact h
  | some s =>
    rw [hs] at hr
    dsimp only at hr ⊢
    have hafter : (e.call (await id)).2 = e.awaitLoop id := by
      rw [call_await]
      split <;> rfl
    rw [hafter] at hr ⊢
    exact h.passes ho (passes_awaitLoop e id) hr

theorem added (h : e.Sound) (hid : IsSimulationId s.id)
    (hfresh : e.simulations.get? s.id = none)
    (hget : ∀ k, f.simulations.get? k = if k = s.id then some s else e.simulations.get? k)
    (hresults : f.results = e.results) (hactive : f.active = e.active)
    (hsave : (Archive.saveRecord s).run.run e.archive = (.ok (), f.archive))
    (hs : s.status = .created) (hc : s.completedAt = none) (he : s.error = none) : f.Sound := by
  have hspares {k : String} (hk : IsSimulationId k) (hne : k ≠ s.id) :
      e.archive.Spares k f.archive := by
    have hmoves := Archive.spares_saveRecord hid hne e.archive
    rwa [hsave] at hmoves
  obtain ⟨hnone, hidle, hunknown⟩ := h.unbooked s.id hfresh
  have hunfinished : (s.status = .completed) = False := by simp [hs]
  have hnew : f.Balanced s.id s := by
    refine ⟨?_, ?_, ?_, ?_, ?_, ?_⟩
    · simp [hresults, hnone, hs]
    · rw [hunfinished]
      exact (hunknown hid).saveRecord hid hsave
    · simp [hc, hs, SimulationStatus.terminal]
    · simp [he, hs]
    · simp [hs]
    · exact fun hmem => absurd (hactive ▸ hmem) hidle
  refine ⟨hactive ▸ h.single, fun k t hk => ?_, fun k t hk => ?_, fun k hk => ?_⟩ <;>
    rw [hget] at hk <;> split at hk
  · next heq => exact heq ▸ hid
  · exact h.numbered k t hk
  · next heq =>
    cases hk
    exact heq ▸ hnew
  · next hne =>
    have hbooks : SameBooks k e f :=
      ⟨by rw [hresults], by rw [hactive], hspares (h.numbered k t hk) hne⟩
    exact (h.balanced k t hk).same (h.numbered k t hk) hbooks rfl rfl rfl
  · cases hk
  · next hne =>
    obtain ⟨hr, ha, hu⟩ := h.unbooked k hk
    exact ⟨hresults ▸ hr, hactive ▸ ha, fun hk => (hu hk).spares (hspares hk hne)⟩

theorem create (h : e.Sound) (ho : e.Orderly) (specification : String) (o : SimulationOptions)
    (hr : (e.call (createSimulation specification o)).2.refusals = []) :
    (e.call (createSimulation specification o)).2.Sound := by
  rcases judged_create specification o hr with ⟨-, id, hok⟩ | ⟨-, error, hcall⟩
  · obtain ⟨f, hcall⟩ : ∃ f, e.call (createSimulation specification o) = (.ok id, f) :=
      ⟨_, Prod.ext hok rfl⟩
    obtain ⟨spec, archive, message, -, -, hsave, rfl⟩ := call_create_ok hcall
    rw [hcall]
    exact h.added ⟨_, rfl⟩ (ho.fresh_get? specification spec.program o)
      (fun _ => Table.get?_put _ _ _ _) rfl rfl hsave rfl rfl rfl
  · rw [hcall]
    exact h

theorem step (h : e.Sound) (ho : e.Orderly) (hs : e.simulations.get? id = some s) :
    (e.step s).2.Sound := by
  obtain rfl := ho.filed id s hs
  obtain ⟨t, ht, -, hb⟩ := (h.balanced s.id s hs).step (h.numbered s.id s hs) hs
  exact h.touched (touches_step e s) hs ⟨(touches_step e s).single h.single, t, ht, hb⟩

end Sound

theorem passes_proceedUntil (time : Float) (n : Nat) (e : Engine) :
    Passes e (proceedUntil time n e) := by
  induction n generalizing e with
  | zero => exact .refl
  | succ n ih =>
    unfold proceedUntil
    split
    · exact .refl
    · exact (passes_proceed e).trans (ih _)

theorem passes_sleepFor (seconds : Float) (e : Engine) : Passes e (e.sleepFor seconds) := by
  unfold sleepFor
  split
  · exact (passes_proceedUntil _ _ e).tail (happens_round _ _ rfl rfl)
  · exact passes_queueUp e

theorem Orderly.step (h : e.Orderly) (hs : e.simulations.get? id = some s) :
    (e.step s).2.Orderly := by
  obtain rfl := h.filed id s hs
  have htouch := touches_step e s
  obtain ⟨arena, f, hstep, -, hf⟩ := e.step_stepped s
  have hschedule : (e.step s).2.schedule = e.schedule := by
    rw [hstep]
    rfl
  refine h.touched htouch hs (hschedule ▸ h.single) (fun l hl _ => ⟨l, hschedule ▸ hl, rfl⟩)
    (fun l hl hid => ⟨f s, ?_, ?_⟩) (hschedule ▸ h.brief)
  · rw [hstep]
    simp [stepped, alter, Table.get?_modify, hs]
  · rw [(hf s).1]
    exact h.drives hs l (hschedule ▸ hl) hid

theorem Orderly.drive (h : e.Orderly) (c : DriverCall) :
    (e.drive c).Orderly ∧ e.refusals <+: (e.drive c).refusals := by
  cases c with
  | life c => exact ⟨h.follow (h.course c), (h.extends (h.course c)).refusals⟩
  | sleep seconds =>
    have hpass := passes_sleepFor seconds e
    exact ⟨h.passes hpass, (h.extends_passes hpass).refusals⟩
  | step id =>
    cases hs : e.simulations.get? id with
    | none =>
      rw [drive_step_none hs]
      exact ⟨h, List.prefix_refl _⟩
    | some s =>
      rw [drive_step hs]
      exact ⟨h.step hs, (touches_step e s).refusals⟩

theorem Orderly.driveAll (h : e.Orderly) (calls : List DriverCall) :
    (e.driveAll calls).Orderly ∧ e.refusals <+: (e.driveAll calls).refusals := by
  induction calls generalizing e with
  | nil => exact ⟨h, List.prefix_refl _⟩
  | cons c rest ih =>
    obtain ⟨hc, hgrow⟩ := h.drive c
    exact ⟨(ih hc).1, hgrow.trans (ih hc).2⟩

/-- A call keeps the books, if the archive refuses nothing. -/
theorem Sound.drive (h : e.Sound) (ho : e.Orderly) (c : DriverCall)
    (hr : (e.drive c).refusals = []) : (e.drive c).Sound := by
  cases c with
  | sleep seconds => exact h.passes ho (passes_sleepFor seconds e) hr
  | step id =>
    cases hs : e.simulations.get? id with
    | none =>
      rw [drive_step_none hs]
      exact h
    | some s =>
      rw [drive_step hs]
      exact h.step ho hs
  | life c kept =>
    cases c with
    | create specification options =>
      unfold Engine.drive perform LifecycleCall.task at hr ⊢
      dsimp only at hr ⊢
      rw [call_discard] at hr ⊢
      exact h.create ho specification options hr
    | start id => exact h.start hr
    | pause id => exact h.pause hr
    | resume id => exact h.resume ho hr
    | stop id => exact h.stop ho hr
    | wait id => exact h.wait ho hr
    | delete id => exact absurd rfl (kept id)

theorem Sound.driveAll (h : e.Sound) (ho : e.Orderly) (calls : List DriverCall)
    (hr : (e.driveAll calls).refusals = []) : (e.driveAll calls).Sound := by
  induction calls generalizing e with
  | nil => exact h
  | cons c rest ih =>
    obtain ⟨hc, -⟩ := ho.drive c
    have hnone := List.prefix_nil.mp (hr ▸ (hc.driveAll rest).2)
    exact ih (h.drive ho c hnone) hc hr

/-- An unused engine that keeps nothing of any simulation, and with an archive in which there is
nothing of one. -/
structure Blank (e : Engine) : Prop extends Unused e where
  results : e.results = []
  active : e.active = []
  unknown : ∀ id, IsSimulationId id → e.archive.Unknown id

theorem Blank.sound (h : e.Blank) : e.Sound := by
  have hget (id : String) : e.simulations.get? id = none := by
    rw [h.simulations]
    rfl
  refine ⟨?_, fun id s hs => ?_, fun id s hs => ?_, fun id _ => ⟨?_, ?_, h.unknown id⟩⟩
  · rw [h.active]
    exact List.nodup_nil
  · rw [hget] at hs
    cases hs
  · rw [hget] at hs
    cases hs
  · rw [h.results]
    rfl
  · rw [h.active]
    exact List.not_mem_nil

end Engine

end StepWorld
