import StepWorld.Proofs.Engine.Handling
import StepWorld.Proofs.Engine.Rousing

/-! The parts of the calls. Each is one thing that a caller does for a simulation. -/

namespace StepWorld

namespace Engine

variable {e : Engine} {k : String} {s : Simulation} {status : SimulationStatus}

theorem Orderly.drives (h : e.Orderly) (hs : e.simulations.get? k = some s) :
    ∀ l ∈ e.schedule.loops, l.simulation = k → l.Drives s.status := by
  intro l hl hid
  obtain ⟨t, ht, hd⟩ := h.driven l hl
  rw [hid] at ht
  obtain rfl : t = s := Option.some.inj (ht.symm.trans hs)
  exact hd

theorem Orderly.numbered (h : e.Orderly) (hs : e.simulations.get? k = some s) :
    ∃ n ≤ e.arena.ambient.issued, k = numberedId "sim" n := by
  obtain ⟨status, hstatus⟩ := h.noted k s hs
  exact h.known _ hstatus

theorem Orderly.named (h : e.Orderly) (hs : e.simulations.get? k = some s) : s.id ≠ "" := by
  obtain ⟨n, -, hname⟩ := h.numbered hs
  rw [h.filed k s hs, hname]
  intro hempty
  have := congrArg String.length hempty
  simp [numberedId] at this

theorem absent_of_not_pending (h : e.pending k = false) :
    ∀ l ∈ e.schedule.loops, l.simulation ≠ k := by
  intro l hl hid
  have hpending : e.pending k = true := pending_iff.mpr ⟨l, hl, hid⟩
  rw [h] at hpending
  cases hpending

theorem Orderly.not_pending (h : e.Orderly) (hs : e.simulations.get? k = some s)
    (hr : s.status ≠ .running) (hp : s.status ≠ .paused) : e.pending k = false := by
  rw [Bool.eq_false_iff]
  intro hpending
  obtain ⟨l, hl, hid⟩ := pending_iff.mp hpending
  rcases h.drives hs l hl hid with ⟨hrun, -⟩ | ⟨hpause, -⟩
  · exact hr hrun
  · exact hp hpause

theorem does_tick : Does k e e.tick.2 :=
  .aside (.unseen e _ _ _ _ (Nat.le_refl _))

theorem Orderly.does_alter (h : e.Orderly) (hs : e.simulations.get? k = some s)
    {g : Simulation → Simulation} (hg : ∀ s, (g s).id = s.id ∧ (g s).maxSteps = s.maxSteps ∧
      (g s).currentStep = s.currentStep ∧ (g s).status = s.status) : Does k e (e.alter k g) :=
  .handle
    { touches := touches_alter e fun s => ⟨(hg s).1, (hg s).2.1⟩
      before := hs
      after := by simp [alter, Table.get?_modify, hs]
      step := (hg s).2.2.1
      begun := rfl
      summaries := rfl
      status := .inl ⟨rfl, (hg s).2.2.2⟩
      others := fun l hl _ => ⟨l, hl, rfl⟩
      own := fun l hl hid => (hg s).2.2.2 ▸ h.drives hs l hl hid
      single := h.single
      brief := h.brief } id

theorem Orderly.does_enter (h : e.Orderly) (hs : e.simulations.get? k = some s)
    (hf : s.status.Follows status) (hp : e.pending k = false) : Does k e (e.enter k status) :=
  .handle (t := { s with status })
    { touches := touches_enter e status
      before := hs
      after := by simp [enter, alter, Table.get?_modify, hs]
      step := rfl
      begun := rfl
      summaries := rfl
      status := .inr ⟨rfl, hf⟩
      others := fun l hl _ => ⟨l, hl, rfl⟩
      own := fun l hl hid => absurd hid (absent_of_not_pending hp l hl)
      single := h.single
      brief := h.brief } id

theorem Orderly.does_spawn (h : e.Orderly) (hs : e.simulations.get? k = some s)
    (hr : s.status = .running) (hp : e.pending k = false) : Does k e (e.spawn k) := by
  have habsent := absent_of_not_pending hp
  have hloops : (e.spawn k).schedule.loops.Perm (⟨k, false, false, .fresh⟩ :: e.schedule.loops) := by
    simp only [spawn, Schedule.add, Schedule.loops, List.append_assoc, List.singleton_append]
    exact List.perm_middle
  refine .handle (s := s) (t := s)
    ⟨touches_spawn e, hs, hs, rfl, rfl, rfl, .inl ⟨rfl, rfl⟩, ?_, ?_, ?_, ?_⟩ fun hc l hl => ?_
  · intro l hl hid
    rcases List.mem_cons.mp (hloops.mem_iff.mp hl) with rfl | hl
    · exact absurd rfl hid
    · exact ⟨l, hl, rfl⟩
  · intro l hl hid
    rcases List.mem_cons.mp (hloops.mem_iff.mp hl) with rfl | hl
    · exact .inl ⟨hr, rfl⟩
    · exact absurd hid (habsent l hl)
  · rw [(hloops.map _).nodup_iff, List.map_cons, List.nodup_cons]
    refine ⟨fun hmem => ?_, h.single⟩
    obtain ⟨l, hl, hid⟩ := List.mem_map.mp hmem
    exact habsent l hl hid
  · intro l hl
    rcases List.mem_append.mp hl with hl | hl
    · exact h.brief l hl
    · rw [List.mem_singleton.mp hl]
      exact (by decide : LoopPhase.delay .fresh ≤ 3)
  · rcases List.mem_cons.mp (hloops.mem_iff.mp hl) with rfl | hl
    · rfl
    · exact hc l hl

theorem Orderly.does_pause (h : e.Orderly) (hs : e.simulations.get? k = some s)
    (hr : s.status = .running) : Does k e ((e.cancel k).enter k .paused) := by
  have hedit := Schedule.edited_cancel k h.single h.brief
  have htouch : Touches k e ((e.cancel k).enter k .paused) :=
    (touches_reschedule e _).trans (touches_enter _ _)
  refine .handle (s := s) (t := { s with status := .paused })
    ⟨htouch, hs, ?_, rfl, rfl, rfl, .inr ⟨rfl, ?_⟩, hedit.others, ?_, hedit.single, hedit.brief⟩
    fun hc l hl => ?_
  · have hs' : (e.cancel k).simulations.get? k = some s := hs
    simp [enter, alter, Table.get?_modify, hs']
  · rw [hr]
    exact .pause
  · intro l hl hid
    obtain ⟨m, hm, -, hcore⟩ := hedit.own l hl hid
    simp only [Loop.core, Prod.mk.injEq] at hcore
    exact .inr ⟨rfl, hcore.2.1.symm.trans m.cancel_cancelled⟩
  · by_cases hid : l.simulation = k
    · obtain ⟨m, hm, -, hcore⟩ := hedit.own l hl hid
      simp only [Loop.core, Prod.mk.injEq, Loop.cancel_stopping] at hcore
      exact hcore.2.2.symm.trans (hc m hm)
    · obtain ⟨m, hm, hcore⟩ := hedit.others l hl hid
      simp only [Loop.core, Prod.mk.injEq] at hcore
      exact hcore.2.2.symm.trans (hc m hm)

theorem Orderly.handled_markStopping (h : e.Orderly) (hs : e.simulations.get? k = some s) :
    Handled k e (e.markStopping k) s s := by
  have hedit := Schedule.edited_stop k h.single h.brief
  refine ⟨touches_reschedule e _, hs, hs, rfl, rfl, rfl, .inl ⟨rfl, rfl⟩, hedit.others,
    fun l hl hid => ?_, hedit.single, hedit.brief⟩
  obtain ⟨m, hm, hid', hcore⟩ := hedit.own l hl hid
  simp only [Loop.core, Prod.mk.injEq] at hcore
  obtain ⟨-, hcancel, hstop⟩ := hcore
  rw [Loop.cancel_cancelled] at hcancel
  rw [Loop.cancel_stopping] at hstop
  rcases h.drives hs m hm hid' with ⟨hrun, -⟩ | ⟨hpause, -⟩
  · exact .inl ⟨hrun, hcancel.symm.trans hstop⟩
  · exact .inr ⟨hpause, hcancel.symm⟩

end Engine

end StepWorld
