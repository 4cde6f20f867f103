import StepWorld.Proofs.Engine.Chronicle

/-! Order among simulations and loops. Between two turns every loop belongs to one simulation that
is running or paused, and a loop of a paused simulation is cancelled. -/

namespace StepWorld

/-- How many turns a loop in the queue needs to come round, at most. -/
def LoopPhase.delay : LoopPhase → Nat
  | .fresh | .awake => 1
  | .roused n => n + 1
  | .drowsy _ => 3

namespace Loop

/-- Whether a loop fits the status of its simulation between two turns. -/
def Drives (l : Loop) (status : SimulationStatus) : Prop :=
  status = .running ∧ l.cancelled = l.stopping ∨ status = .paused ∧ l.cancelled = true

theorem continues_iff {l : Loop} {s : Simulation} :
    l.continues s = true ↔ s.status = .running ∧ l.cancelled = false ∧ l.stopping = false ∧
      s.currentStep < s.maxSteps := by
  simp [continues, and_assoc]

end Loop

namespace Engine

variable {e f : Engine} {l : Loop} {rest : List Loop} {asleep : List (Float × Loop)}
  {s : Simulation}

/-- The order between two turns. Ids of simulations are numbered, and every simulation was
given a status. -/
structure Orderly (e : Engine) : Prop where
  filed : ∀ id s, e.simulations.get? id = some s → s.id = id
  attached : e.detached = []
  single : (e.schedule.loops.map (·.simulation)).Nodup
  driven : ∀ l ∈ e.schedule.loops,
    ∃ s, e.simulations.get? l.simulation = some s ∧ l.Drives s.status
  brief : ∀ l ∈ e.schedule.queue, l.phase.delay ≤ 3
  known : ∀ p ∈ e.statuses, ∃ n ≤ e.arena.ambient.issued, p.1 = numberedId "sim" n
  noted : ∀ id s, e.simulations.get? id = some s → ∃ status, (id, status) ∈ e.statuses

/-- The first loop of the queue while it acts; its simulation has no other loop. -/
structure Midway (e : Engine) (l : Loop) (rest : List Loop) (asleep : List (Float × Loop))
    (s : Simulation) : Prop where
  queue : e.schedule.queue = l :: rest
  sleepers : e.schedule.sleepers = asleep
  own : e.simulations.get? l.simulation = some s
  attached : e.detached = []
  apart : ∀ k ∈ rest ++ asleep.map (·.2), k.simulation ≠ l.simulation

theorem Orderly.midway (h : e.Orderly) (hq : e.schedule.queue = l :: rest) :
    ∃ s, e.Midway l rest e.schedule.sleepers s ∧ l.Drives s.status := by
  have hloops : e.schedule.loops = l :: (rest ++ e.schedule.sleepers.map (·.2)) := by
    simp [Schedule.loops, hq]
  have hsingle := h.single
  rw [hloops] at hsingle
  obtain ⟨s, hs, hd⟩ := h.driven l (by simp [hloops])
  refine ⟨s, ⟨hq, rfl, hs, h.attached, fun k hk he => ?_⟩, hd⟩
  simp only [List.map_cons, List.nodup_cons] at hsingle
  exact hsingle.1 (he ▸ List.mem_map_of_mem hk)

namespace Midway

theorem find (h : e.Midway l rest asleep s) : e.schedule.find? l.simulation = some l := by
  simp [Schedule.find?, Schedule.loops, h.queue]

theorem runner (h : e.Midway l rest asleep s) : e.runner? l.simulation = some s := by
  simp [runner?, h.own]

theorem unseen (h : e.Midway l rest asleep s) (hs : f.schedule = e.schedule)
    (hp : f.simulations = e.simulations) (hd : f.detached = e.detached) :
    f.Midway l rest asleep s where
  queue := hs ▸ h.queue
  sleepers := hs ▸ h.sleepers
  own := hp ▸ h.own
  attached := hd ▸ h.attached
  apart := h.apart

theorem steady (h : e.Midway l rest asleep s) (hs : Steady e f) :
    f.Midway l rest asleep s :=
  h.unseen hs.schedule hs.simulations hs.detached

theorem alter (h : e.Midway l rest asleep s) (g : Simulation → Simulation) :
    (e.alter l.simulation g).Midway l rest asleep (g s) where
  queue := h.queue
  sleepers := h.sleepers
  own := by simp [Engine.alter, Table.get?_modify, h.own]
  attached := by simp [Engine.alter, h.attached, Table.modify]
  apart := h.apart

theorem enter (h : e.Midway l rest asleep s) (status : SimulationStatus) :
    (e.enter l.simulation status).Midway l rest asleep { s with status } :=
  have hnoted : ({ e with statuses := e.statuses ++ [(l.simulation, status)] } : Engine).Midway
      l rest asleep s := ⟨h.queue, h.sleepers, h.own, h.attached, h.apart⟩
  hnoted.alter _

theorem noteEnd (h : e.Midway l rest asleep s) (status : SimulationStatus) :
    (e.noteEnd l.simulation status).2.Midway l rest asleep
      { s with status, completedAt := some e.tick.1 } :=
  have htick : e.tick.2.Midway l rest asleep s :=
    ⟨h.queue, h.sleepers, h.own, h.attached, h.apart⟩
  (htick.enter status).alter _

theorem cancel (h : e.Midway l rest asleep s) (hphase : ∀ due, l.phase ≠ .drowsy due) :
    (e.cancel l.simulation).Midway { l with cancelled := true } rest asleep s := by
  have hl : l.cancel = { l with cancelled := true } := by
    unfold Loop.cancel
    split
    · next due hd => exact absurd hd (hphase due)
    · rfl
  have hrest : rest.map (fun k => if k.simulation = l.simulation then k.cancel else k) = rest := by
    refine (List.map_congr_left fun k hk => ?_).trans (List.map_id _)
    simp [h.apart k (List.mem_append_left _ hk)]
  have hasleep : asleep.map (fun k =>
      (k.1, if k.2.simulation = l.simulation then k.2.cancel else k.2)) = asleep := by
    refine (List.map_congr_left fun k hk => ?_).trans (List.map_id _)
    simp [h.apart k.2 (List.mem_append_right _ (List.mem_map_of_mem hk))]
  have hnone : asleep.find? (·.2.simulation == l.simulation) = none := by
    rw [List.find?_eq_none]
    intro k hk
    simpa using h.apart k.2 (List.mem_append_right _ (List.mem_map_of_mem hk))
  have hschedule : (e.cancel l.simulation).schedule =
      { e.schedule with queue := { l with cancelled := true } :: rest } := by
    simp only [Engine.cancel, reschedule, Schedule.cancel, Schedule.alter, h.queue, h.sleepers,
      List.map_cons, if_true, hl, hrest, hasleep, Schedule.rouse, hnone]
  exact ⟨by rw [hschedule], by rw [hschedule]; exact h.sleepers, h.own, h.attached, h.apart⟩

theorem endLoop (h : e.Midway l rest asleep s) :
    (e.endLoop l.simulation).schedule.queue = rest ∧
      (e.endLoop l.simulation).schedule.sleepers = asleep ∧
      (e.endLoop l.simulation).simulations = e.simulations := by
  have hrest : rest.filter (·.simulation != l.simulation) = rest := by
    rw [List.filter_eq_self]
    intro k hk
    simpa using h.apart k (List.mem_append_left _ hk)
  have hasleep : asleep.filter (·.2.simulation != l.simulation) = asleep := by
    rw [List.filter_eq_self]
    intro k hk
    simpa using h.apart k.2 (List.mem_append_right _ (List.mem_map_of_mem hk))
  refine ⟨?_, ?_, rfl⟩
  · simp [Engine.endLoop, Schedule.remove, h.queue, hrest]
  · simp [Engine.endLoop, Schedule.remove, h.sleepers, hasleep]

end Midway

end Engine

end StepWorld
