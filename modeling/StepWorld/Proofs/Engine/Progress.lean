import Mathlib.Algebra.Order.BigOperators.Group.List
import Mathlib.Algebra.Order.Ring.Nat
import StepWorld.Proofs.Engine.Course

/-! Every loop ends. Each thing that happens uses up some of the work that the loops have left,
so that the bound on the wait for a loop is never reached. -/

namespace StepWorld

namespace Schedule

variable {s : Schedule} {l : Loop} {rest : List Loop} (remaining : String → Nat)

/-- How many things can happen before all loops have ended, if every simulation may take so many
steps more. -/
def toll (s : Schedule) (remaining : String → Nat) : Nat :=
  (s.queue.map fun l => 3 * remaining l.simulation + l.phase.delay).sum +
    (s.sleepers.map fun k => 3 * remaining k.2.simulation + 2).sum

theorem toll_rotate (hq : s.queue = l :: rest) {phase : LoopPhase}
    (hd : phase.delay < l.phase.delay) : (s.rotate phase).toll remaining < s.toll remaining := by
  simp only [toll, rotate, hq, List.map_append, List.sum_append, List.map_cons, List.map_nil,
    List.sum_cons, List.sum_nil]
  omega

theorem toll_sleep (hq : s.queue = l :: rest) {due : Float} (hphase : l.phase = .drowsy due) :
    (s.sleep due).toll remaining < s.toll remaining := by
  have hsleepers := ((perm_insertSleeper due l s.sleepers).map
    fun k => 3 * remaining k.2.simulation + 2).sum_eq
  have hdelay : l.phase.delay = 3 := by
    rw [hphase]
    rfl
  simp only [toll, sleep, hq, hsleepers, List.map_cons, List.sum_cons, hdelay]
  omega

theorem toll_wake (hs : s.sleepers ≠ []) : s.wake.toll remaining < s.toll remaining := by
  obtain ⟨first, later, hs⟩ := List.exists_cons_of_ne_nil hs
  have hdelay : LoopPhase.awake.delay = 1 := rfl
  simp only [toll, wake, hs, List.map_append, List.sum_append, List.map_cons, List.map_nil,
    List.sum_cons, List.sum_nil, hdelay]
  omega

end Schedule

namespace Engine

variable {e f : Engine} {l : Loop} {rest : List Loop} {id : String}

def remaining (e : Engine) (id : String) : Nat :=
  ((e.runner? id).map fun s => (s.maxSteps - s.currentStep).toNat).getD 0

def toll (e : Engine) : Nat := e.schedule.toll e.remaining

theorem remaining_of_get? {s : Simulation} (h : e.simulations.get? id = some s) :
    e.remaining id = (s.maxSteps - s.currentStep).toNat := by
  simp [remaining, runner?, h]

theorem remaining_congr (hs : f.simulations.get? id = e.simulations.get? id)
    (he : e.detached = []) (hf : f.detached = []) : f.remaining id = e.remaining id := by
  simp only [remaining, runner?, hs, he, hf]

theorem work_eq (e : Engine) :
    e.work = (e.schedule.loops.map fun l => 3 * e.remaining l.simulation + 4).sum := by
  unfold work remaining
  generalize e.schedule.loops = loops
  induction loops with
  | nil => rfl
  | cons l loops ih =>
    rw [List.foldr_cons, List.map_cons, List.sum_cons, ih]

theorem Orderly.toll_le_work (h : e.Orderly) : e.toll ≤ e.work := by
  rw [work_eq, Schedule.loops, List.map_append, List.sum_append, List.map_map, toll, Schedule.toll]
  refine Nat.add_le_add ?_ ?_
  · refine List.sum_le_sum fun l hl => ?_
    have := h.brief l hl
    omega
  · refine List.sum_le_sum fun k _ => ?_
    simp only [Function.comp_apply]
    omega

/-- What a turn in which a loop acts uses up. -/
theorem Orderly.toll_act (h : e.Orderly) (hq : e.schedule.queue = l :: rest)
    (hphase : ∀ due, l.phase ≠ .drowsy due) : (e.act l).toll < e.toll := by
  obtain ⟨s, t, hmid, hd, htouch, ht⟩ := h.acted hq hphase
  have hsame : ∀ k ∈ rest ++ e.schedule.sleepers.map (·.2),
      (e.act l).remaining k.simulation = e.remaining k.simulation := fun k hk =>
    remaining_congr (htouch.others _ (hmid.apart k hk)) h.attached ht.attached
  have hrest : rest.map (fun k => 3 * (e.act l).remaining k.simulation + k.phase.delay) =
      rest.map fun k => 3 * e.remaining k.simulation + k.phase.delay := by
    refine List.map_congr_left fun k hk => ?_
    rw [hsame k (List.mem_append_left _ hk)]
  have hasleep : e.schedule.sleepers.map (fun k => 3 * (e.act l).remaining k.2.simulation + 2) =
      e.schedule.sleepers.map fun k => 3 * e.remaining k.2.simulation + 2 := by
    refine List.map_congr_left fun k hk => ?_
    rw [hsame k.2 (List.mem_append_right _ (List.mem_map_of_mem hk))]
  have hdelay : 1 ≤ l.phase.delay := by
    cases hl : l.phase with
    | fresh | awake => exact Nat.le_refl _
    | roused n => exact Nat.le_add_left _ _
    | drowsy due => exact absurd hl (hphase due)
  have hown : e.remaining l.simulation = (s.maxSteps - s.currentStep).toNat :=
    remaining_of_get? hmid.own
  have hown' : (e.act l).remaining l.simulation = (t.maxSteps - t.currentStep).toNat :=
    remaining_of_get? ht.own
  obtain ⟨t', ht', -, hmax⟩ := htouch.own s hmid.own
  obtain rfl : t' = t := Option.some.inj (ht'.symm.trans ht.own)
  unfold toll Schedule.toll
  rw [hq, ht.sleepers, hasleep]
  cases ht.placed with
  | gone hqueue =>
    rw [hqueue, hrest, List.map_cons, List.sum_cons]
    omega
  | back phase hqueue hphase' hl hrun =>
    rw [hqueue, List.map_append, List.sum_append, hrest]
    simp only [List.map_cons, List.map_nil, List.sum_cons, List.sum_nil, hown, hown']
    cases ht.noted with
    | nothing _ _ _ _ hgone => simp [hqueue] at hgone
    | failure _ _ _ _ _ hgone => simp [hqueue] at hgone
    | summary σ hc _ _ hσ hstep =>
      have hlt := (Loop.continues_iff.mp hc).2.2.2
      omega

theorem Orderly.toll_proceed (h : e.Orderly) (hne : e.schedule.loops ≠ []) :
    e.proceed.toll < e.toll := by
  unfold proceed
  cases hq : e.schedule.queue with
  | nil =>
    simp only [List.isEmpty_nil, if_true]
    refine Schedule.toll_wake e.remaining fun hs => hne ?_
    rw [Schedule.loops, hq, hs]
    rfl
  | cons l rest =>
    have hround : (e.reschedule (·.beginTurn)).Orderly :=
      h.happens (e.happens_round _ rfl rfl)
    have hq' : (e.reschedule (·.beginTurn)).schedule.queue = l :: rest := hq
    have htoll : (e.reschedule (·.beginTurn)).toll = e.toll := rfl
    simp only [List.isEmpty_cons, Bool.false_eq_true, if_false]
    unfold turn
    dsimp only
    rw [hq', ← htoll]
    dsimp only
    split
    · next hphase =>
      have hlocked : ((e.reschedule (·.beginTurn)).reschedule (·.lock l.simulation)).Orderly :=
        hround.happens (happens_round _ _ rfl rfl)
      exact hlocked.toll_act hq' (by simp [hphase])
    · next hphase => exact hround.toll_act hq' (by simp [hphase])
    · next hphase => exact hround.toll_act hq' (by simp [hphase])
    · next n hphase =>
      refine Schedule.toll_rotate _ hq' ?_
      rw [hphase]
      exact Nat.lt_succ_self _
    · next due hphase => exact Schedule.toll_sleep _ hq' hphase

theorem pending_iff : e.pending id = true ↔ ∃ l ∈ e.schedule.loops, l.simulation = id := by
  simp [pending, Schedule.pending, Schedule.find?, List.find?_isSome]

theorem Orderly.proceedUntilEnd (h : e.Orderly) {n : Nat} (hn : e.toll ≤ n) :
    (proceedUntilEnd id n e).pending id = false := by
  induction n generalizing e with
  | zero =>
    by_contra hp
    rw [Bool.not_eq_false, pending_iff] at hp
    obtain ⟨l, hl, -⟩ := hp
    have hlt := h.toll_proceed (List.ne_nil_of_mem hl)
    omega
  | succ n ih =>
    unfold Engine.proceedUntilEnd
    split
    · next hp =>
      obtain ⟨l, hl, -⟩ := pending_iff.mp hp
      have hlt := h.toll_proceed (List.ne_nil_of_mem hl)
      exact ih (h.passes (passes_proceed e)) (by omega)
    · next hp => exact Bool.eq_false_iff.mpr hp

theorem Orderly.pending_passes (h : e.Orderly) (hf : Passes e f) (hp : e.pending id = false) :
    f.pending id = false := by
  rw [Bool.eq_false_iff]
  intro hpending
  obtain ⟨k, hk, hid⟩ := pending_iff.mp hpending
  obtain ⟨l, hl, hcore⟩ := h.loops_passes hf k hk
  have hsim : l.simulation = id := (congrArg Prod.fst hcore).trans hid
  exact absurd (pending_iff.mpr ⟨l, hl, hsim⟩) (by simp [hp])

theorem Orderly.awaitLoop_ends (h : e.Orderly) (id : String) :
    (e.awaitLoop id).pending id = false := by
  unfold awaitLoop
  split
  · have huntil := h.passes (passes_proceedUntilEnd id e.work e)
    exact huntil.pending_passes (passes_queueUp _) (h.proceedUntilEnd h.toll_le_work)
  · next hp => exact Bool.eq_false_iff.mpr hp

end Engine

end StepWorld
