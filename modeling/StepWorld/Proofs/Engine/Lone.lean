import StepWorld.Proofs.Engine.Completion
import StepWorld.Proofs.Engine.Waiting

/-! An engine with one loop. Whatever its schedule does, nothing happens but the turns of that loop,
and each of them leaves the loop in the queue or takes it out. -/

namespace StepWorld

namespace Engine

variable {e f g : Engine} {id : String} {s t : Simulation} {σ : StepSummary} {c : Bool}

def Solo (e : Engine) (id : String) : Prop := e.schedule.loops.map Loop.core = [(id, false, false)]

theorem Solo.loops (h : e.Solo id) : ∃ phase, e.schedule.loops = [⟨id, false, false, phase⟩] := by
  obtain ⟨l, hl, hcore⟩ := List.map_eq_singleton_iff.mp h
  simp only [Loop.core, Prod.mk.injEq] at hcore
  obtain ⟨_, cancelled, stopping, phase⟩ := l
  obtain ⟨rfl, rfl, rfl⟩ := hcore
  exact ⟨phase, hl⟩

theorem solo_of_loops {phase : LoopPhase} (h : e.schedule.loops = [⟨id, false, false, phase⟩]) :
    e.Solo id := by
  rw [Solo, h]
  rfl

theorem Solo.first {l : Loop} {rest : List Loop} (h : e.Solo id)
    (hq : e.schedule.queue = l :: rest) :
    ∃ phase, l = ⟨id, false, false, phase⟩ ∧ e.schedule.queue = [l] ∧
      e.schedule.sleepers = [] := by
  obtain ⟨phase, hloops⟩ := h.loops
  rw [Schedule.loops, hq, List.cons_append, List.cons.injEq] at hloops
  obtain ⟨hl, hnone⟩ := hloops
  obtain ⟨rfl, hasleep⟩ := List.append_eq_nil_iff.mp hnone
  exact ⟨phase, hl, hq, List.map_eq_nil_iff.mp hasleep⟩

theorem solo_of_pending (h : e.Solo id) : e.pending id = true := by
  obtain ⟨phase, hloops⟩ := h.loops
  exact pending_iff.mpr ⟨_, by rw [hloops]; exact List.mem_singleton_self _, rfl⟩

theorem Solo.shuffle {schedule : Schedule} (h : e.Solo id)
    (hperm : (schedule.loops.map Loop.core).Perm (e.schedule.loops.map Loop.core)) :
    ({ e with schedule } : Engine).Solo id :=
  List.perm_singleton.mp (hperm.trans (List.Perm.of_eq h))

theorem loops_shuffle {schedule : Schedule} (h : e.schedule.loops = [])
    (hperm : (schedule.loops.map Loop.core).Perm (e.schedule.loops.map Loop.core)) :
    schedule.loops = [] := by
  rw [h] at hperm
  exact List.map_eq_nil_iff.mp (List.perm_nil.mp hperm)

theorem Solo.loops_ne (h : e.Solo id) : e.schedule.loops ≠ [] := by
  obtain ⟨phase, hloops⟩ := h.loops
  rw [hloops]
  exact List.cons_ne_nil _ _

/-- What holds of an engine with at most one loop, whatever its schedule does, and of what the loop
leaves in its turn, holds however many things happen. -/
theorem Passes.solo {P : Engine → Prop} (hf : Passes e f) (he : P e)
    (hloops : ∀ g, P g → g.schedule.loops = [] ∨ g.Solo id)
    (hshuffle : ∀ g schedule, P g →
      (schedule.loops.map Loop.core).Perm (g.schedule.loops.map Loop.core) →
      P { g with schedule })
    (hact : ∀ g phase, P g → g.Solo id → g.schedule.queue = [⟨id, false, false, phase⟩] →
      g.schedule.sleepers = [] → P (g.act ⟨id, false, false, phase⟩)) : P f := by
  induction hf with
  | refl => exact he
  | tail _ hstep ih =>
    cases hstep with
    | shuffle hc hb => exact hshuffle _ _ ih hc
    | act hq hphase =>
      rcases hloops _ ih with hnone | hsolo
      · rw [Schedule.loops, hq] at hnone
        cases hnone
      · obtain ⟨phase, rfl, hqueue, hasleep⟩ := hsolo.first hq
        exact hact _ phase ih hsolo hqueue hasleep

structure Lone (e : Engine) (id : String) (cancelled : Bool) : Prop where
  queue : ∃ phase, e.schedule.queue = [⟨id, cancelled, false, phase⟩]
  sleepers : e.schedule.sleepers = []

namespace Lone

theorem of_schedule (h : e.Lone id c) (hs : f.schedule = e.schedule) : f.Lone id c :=
  ⟨hs ▸ h.queue, hs ▸ h.sleepers⟩

theorem solo (h : e.Lone id false) : e.Solo id := by
  obtain ⟨phase, hq⟩ := h.queue
  refine @solo_of_loops e id phase ?_
  simp [Schedule.loops, hq, h.sleepers]

theorem find (h : e.Lone id c) : ∃ phase, e.schedule.find? id = some ⟨id, c, false, phase⟩ := by
  obtain ⟨phase, hq⟩ := h.queue
  exact ⟨phase, by simp [Schedule.find?, Schedule.loops, hq]⟩

theorem cancel (h : e.Lone id c) : (e.cancel id).Lone id true := by
  obtain ⟨phase, hq⟩ := h.queue
  have hcancel : ∃ next, (⟨id, c, false, phase⟩ : Loop).cancel = ⟨id, true, false, next⟩ := by
    cases phase <;> exact ⟨_, rfl⟩
  obtain ⟨next, hnext⟩ := hcancel
  have hschedule : (e.cancel id).schedule = { e.schedule with
      queue := [⟨id, true, false, next⟩] } := by
    simp [Engine.cancel, reschedule, Schedule.cancel, Schedule.alter, Schedule.rouse, hq,
      h.sleepers, hnext]
  exact ⟨⟨next, by rw [hschedule]⟩, by rw [hschedule]; exact h.sleepers⟩

theorem loops_remove (h : e.Lone id c) : (e.schedule.remove id).loops = [] := by
  obtain ⟨phase, hq⟩ := h.queue
  simp [Schedule.remove, Schedule.loops, hq, h.sleepers]

theorem loops_leave (h : e.Lone id c) : (e.leave id).schedule.loops = [] := by
  rw [schedule_leave]
  exact h.loops_remove

theorem loops_breakOff (h : e.Lone id c) (message : String) :
    (e.breakOff id message).schedule.loops = [] := by
  rw [schedule_breakOff]
  exact h.loops_remove

theorem rest (h : e.Lone id false) (hid : t.id = id) :
    ∃ schedule, e.rest t = { e with schedule } ∧ ({ e with schedule } : Engine).Lone id false := by
  obtain ⟨phase, hq⟩ := h.queue
  obtain ⟨_, hfind⟩ := h.find
  have hrotate (next : LoopPhase) :
      ({ e with schedule := e.schedule.rotate next } : Engine).Lone id false :=
    ⟨⟨next, by simp [Schedule.rotate, hq]⟩, by simp [Schedule.rotate, hq, h.sleepers]⟩
  unfold Engine.rest
  rw [hid, hfind, Option.any_some, if_neg Bool.false_ne_true]
  split
  · exact ⟨_, rfl, hrotate _⟩
  · exact ⟨_, rfl, hrotate _⟩

theorem rest_cancelled (h : e.Lone id true) (hid : t.id = id) : e.rest t = e.leave id := by
  obtain ⟨_, hfind⟩ := h.find
  unfold Engine.rest
  rw [hid, hfind]
  rfl

end Lone

theorem conclude_over (hid : s.id = id) (hσ : σ.terminal = true) (world : World) :
    ∃ message, e.conclude s σ world = (e.print .info message).leave id := by
  unfold conclude
  rw [if_pos hσ, hid]
  exact ⟨_, rfl⟩

theorem conclude_archives (hid : s.id = id) (hσ : σ.terminal = false) (world : World) :
    e.conclude s σ world =
      match e.call (store (Archive.saveSnapshot id σ.step world)) with
      | (.ok (), e) => e.rest s
      | (.error error, e) => e.breakOff id error.message := by
  unfold conclude
  rw [hσ, hid]
  exact if_neg Bool.false_ne_true

end Engine

end StepWorld
