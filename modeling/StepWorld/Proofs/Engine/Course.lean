import Mathlib.Logic.Relation
import StepWorld.Proofs.Engine.Turn

/-! What happens while a caller waits. The loops of the schedule change places, and the first of
them acts; nothing else does. -/

namespace StepWorld

def Loop.core (l : Loop) : String × Bool × Bool := (l.simulation, l.cancelled, l.stopping)

theorem Schedule.perm_insertSleeper (due : Float) (l : Loop) (sleepers : List (Float × Loop)) :
    (insertSleeper due l sleepers).Perm ((due, l) :: sleepers) := by
  induction sleepers with
  | nil => exact List.Perm.refl _
  | cons first remaining ih =>
    unfold insertSleeper
    split
    · exact List.Perm.refl _
    · exact (ih.cons first).trans (List.Perm.swap _ _ _)

namespace Engine

/-- One thing that may happen. The loops change places and phases, or the first one acts. -/
inductive Happens (e : Engine) : Engine → Prop
  | shuffle {f : Schedule → Schedule}
      (hc : ((f e.schedule).loops.map Loop.core).Perm (e.schedule.loops.map Loop.core))
      (hb : (∀ l ∈ e.schedule.queue, l.phase.delay ≤ 3) →
        ∀ l ∈ (f e.schedule).queue, l.phase.delay ≤ 3) : Happens e (e.reschedule f)
  | act {l : Loop} {rest : List Loop} (hq : e.schedule.queue = l :: rest)
      (hphase : ∀ due, l.phase ≠ .drowsy due) : Happens e (e.act l)

abbrev Passes := Relation.ReflTransGen Happens

variable (e : Engine)

theorem happens_round (f : Schedule → Schedule) (hq : (f e.schedule).queue = e.schedule.queue)
    (hs : (f e.schedule).sleepers = e.schedule.sleepers) : e.Happens (e.reschedule f) := by
  refine .shuffle ?_ fun hb => ?_
  · rw [Schedule.loops, hq, hs]
    exact List.Perm.refl _
  · rw [hq]
    exact hb

variable {e}

theorem happens_rotate {l : Loop} {rest : List Loop} (hq : e.schedule.queue = l :: rest)
    {phase : LoopPhase} (hd : l.phase.delay ≤ 3 → phase.delay ≤ 3) :
    e.Happens (e.reschedule (·.rotate phase)) := by
  refine .shuffle ?_ fun hb => ?_
  · simp only [Schedule.rotate, hq, Schedule.loops, List.map_append, List.map_cons,
      List.append_assoc, List.cons_append, List.nil_append]
    exact List.perm_middle
  · simp only [Schedule.rotate, hq, List.mem_append, List.mem_singleton]
    rintro k (hk | rfl)
    · exact hb k (by simp [hq, hk])
    · exact hd (hb l (by simp [hq]))

theorem happens_sleep {l : Loop} {rest : List Loop} (hq : e.schedule.queue = l :: rest)
    (due : Float) : e.Happens (e.reschedule (·.sleep due)) := by
  refine .shuffle ?_ fun hb => ?_
  · simp only [Schedule.sleep, hq, Schedule.loops, List.map_append, List.map_cons, List.cons_append]
    exact (((Schedule.perm_insertSleeper due l _).map _).map _).append_left _ |>.trans List.perm_middle
  · simp only [Schedule.sleep, hq]
    exact fun k hk => hb k (by simp [hq, hk])

theorem happens_wake : e.Happens (e.reschedule (·.wake)) := by
  cases hs : e.schedule.sleepers with
  | nil =>
    refine e.happens_round _ ?_ ?_ <;> simp only [Schedule.wake, hs]
  | cons first remaining =>
    refine .shuffle ?_ fun hb => ?_
    · simp only [Schedule.wake, hs, Schedule.loops, List.map_append, List.map_cons,
        List.append_assoc, List.cons_append, List.nil_append]
      exact List.Perm.refl _
    · simp only [Schedule.wake, hs, List.mem_append, List.mem_singleton]
      rintro k (hk | rfl)
      · exact hb k hk
      · exact (by decide : LoopPhase.delay .awake ≤ 3)

theorem passes_turn (e : Engine) : Passes e e.turn := by
  have hround : e.Happens (e.reschedule (·.beginTurn)) := e.happens_round _ rfl rfl
  refine (Relation.ReflTransGen.single hround).trans ?_
  unfold turn
  dsimp only
  generalize e.reschedule (·.beginTurn) = f
  cases hq : f.schedule.queue with
  | nil => exact .refl
  | cons l rest =>
    dsimp only
    split
    · next hphase =>
      have hlock : f.Happens (f.reschedule (·.lock l.simulation)) := f.happens_round _ rfl rfl
      exact .tail (.single hlock) (.act hq (by simp [hphase]))
    · next hphase => exact .single (.act hq (by simp [hphase]))
    · next hphase => exact .single (.act hq (by simp [hphase]))
    · next n hphase =>
      refine .single (happens_rotate hq fun hd => ?_)
      rw [hphase] at hd
      exact Nat.le_of_succ_le hd
    · next due hphase => exact .single (happens_sleep hq due)

theorem passes_turns (n : Nat) (e : Engine) : Passes e (turns n e) := by
  induction n generalizing e with
  | zero => exact .refl
  | succ n ih => exact (passes_turn e).trans (ih _)

theorem passes_proceed (e : Engine) : Passes e e.proceed := by
  unfold proceed
  split
  · exact .single happens_wake
  · exact passes_turn e

theorem passes_proceedUntilEnd (id : String) (n : Nat) (e : Engine) :
    Passes e (proceedUntilEnd id n e) := by
  induction n generalizing e with
  | zero => exact .refl
  | succ n ih =>
    unfold proceedUntilEnd
    split
    · exact (passes_proceed e).trans (ih _)
    · exact .refl

theorem passes_queueUp (e : Engine) : Passes e e.queueUp := by
  have hturns := passes_turns e.schedule.queue.length e
  unfold queueUp
  dsimp only
  split
  · exact hturns.tail (happens_round _ _ rfl rfl)
  · exact hturns

theorem passes_awaitLoop (e : Engine) (id : String) : Passes e (e.awaitLoop id) := by
  unfold awaitLoop
  split
  · exact (passes_proceedUntilEnd id _ e).trans (passes_queueUp _)
  · exact .refl

/-- Order survives what touches one registered simulation, if its own loops keep it. -/
theorem Orderly.touched {e f : Engine} {id : String} {s : Simulation} (h : e.Orderly)
    (ht : Touches id e f) (hs : e.simulations.get? id = some s)
    (hsingle : (f.schedule.loops.map (·.simulation)).Nodup)
    (hothers : ∀ l ∈ f.schedule.loops, l.simulation ≠ id →
      ∃ k ∈ e.schedule.loops, k.core = l.core)
    (hown : ∀ l ∈ f.schedule.loops, l.simulation = id →
      ∃ t, f.simulations.get? id = some t ∧ l.Drives t.status)
    (hbrief : ∀ l ∈ f.schedule.queue, l.phase.delay ≤ 3) : f.Orderly where
  filed k t hk := by
    by_cases hid : k = id
    · subst hid
      obtain ⟨u, hu, huid, -⟩ := ht.own s hs
      rw [hu] at hk
      cases hk
      exact huid.trans (h.filed k s hs)
    · rw [ht.others k hid] at hk
      exact h.filed k t hk
  attached := ht.detached h.attached
  single := hsingle
  driven l hl := by
    by_cases hid : l.simulation = id
    · rw [hid]
      exact hown l hl hid
    · obtain ⟨k, hk, hcore⟩ := hothers l hl hid
      simp only [Loop.core, Prod.mk.injEq] at hcore
      obtain ⟨hsim, hcancel, hstop⟩ := hcore
      obtain ⟨u, hu, hd⟩ := h.driven k hk
      rw [hsim] at hu
      refine ⟨u, (ht.others _ hid).trans hu, ?_⟩
      simpa only [Loop.Drives, hcancel, hstop] using hd
  brief := hbrief
  known p hp := by
    obtain ⟨added, hadded, hall⟩ := ht.statuses
    rw [hadded] at hp
    obtain ⟨n, hn, heq⟩ : ∃ n ≤ e.arena.ambient.issued, p.1 = numberedId "sim" n := by
      rcases List.mem_append.mp hp with hp | hp
      · exact h.known p hp
      · obtain ⟨status, hst⟩ := h.noted id s hs
        rw [hall p hp]
        exact h.known _ hst
    exact ⟨n, Nat.le_trans hn ht.issued, heq⟩
  noted k t hk := by
    obtain ⟨added, hadded, -⟩ := ht.statuses
    obtain ⟨u, hu⟩ : ∃ u, e.simulations.get? k = some u := by
      by_cases hid : k = id
      · exact ⟨s, hid ▸ hs⟩
      · exact ⟨t, by rw [← ht.others k hid]; exact hk⟩
    obtain ⟨status, hst⟩ := h.noted k u hu
    exact ⟨status, hadded ▸ List.mem_append_left _ hst⟩

theorem Orderly.shuffle {e : Engine} {f : Schedule → Schedule} (h : e.Orderly)
    (hc : ((f e.schedule).loops.map Loop.core).Perm (e.schedule.loops.map Loop.core))
    (hb : (∀ l ∈ e.schedule.queue, l.phase.delay ≤ 3) →
      ∀ l ∈ (f e.schedule).queue, l.phase.delay ≤ 3) : (e.reschedule f).Orderly where
  filed := h.filed
  attached := h.attached
  single := by
    have hmap (loops : List Loop) : loops.map (·.simulation) = (loops.map Loop.core).map (·.1) := by
      rw [List.map_map]
      rfl
    have hsingle := h.single
    rw [hmap] at hsingle ⊢
    exact (hc.map _).nodup_iff.mpr hsingle
  driven l hl := by
    obtain ⟨k, hk, hcore⟩ := List.mem_map.mp (hc.mem_iff.mp (List.mem_map_of_mem hl))
    simp only [Loop.core, Prod.mk.injEq] at hcore
    obtain ⟨hsim, hcancel, hstop⟩ := hcore
    obtain ⟨u, hu, hd⟩ := h.driven k hk
    rw [hsim] at hu
    exact ⟨u, hu, by simpa only [Loop.Drives, hcancel, hstop] using hd⟩
  brief := hb h.brief
  known := h.known
  noted := h.noted

theorem Orderly.acted {e : Engine} {l : Loop} {rest : List Loop} (h : e.Orderly)
    (hq : e.schedule.queue = l :: rest) (hphase : ∀ due, l.phase ≠ .drowsy due) :
    ∃ s t, e.Midway l rest e.schedule.sleepers s ∧ l.Drives s.status ∧
      Touches l.simulation e (e.act l) ∧ Acted e (e.act l) l rest e.schedule.sleepers s t := by
  obtain ⟨s, hmid, hd⟩ := h.midway hq
  have hid := h.filed l.simulation s hmid.own
  obtain ⟨t, ht⟩ := act_spec hmid hid hd hphase
  refine ⟨s, t, hmid, hd, touches_act e l fun u hu => ?_, ht⟩
  rw [hmid.runner] at hu
  cases hu
  exact hid

theorem Orderly.act {e : Engine} {l : Loop} {rest : List Loop} (h : e.Orderly)
    (hq : e.schedule.queue = l :: rest) (hphase : ∀ due, l.phase ≠ .drowsy due) :
    (e.act l).Orderly := by
  obtain ⟨s, t, hmid, hd, htouch, ht⟩ := h.acted hq hphase
  have hloops : e.schedule.loops = l :: (rest ++ e.schedule.sleepers.map (·.2)) := by
    simp [Schedule.loops, hq]
  have hsingle := h.single
  rw [hloops, List.map_cons, List.nodup_cons] at hsingle
  have hstay : ∀ k ∈ rest ++ e.schedule.sleepers.map (·.2), k ∈ e.schedule.loops := by
    intro k hk
    rw [hloops]
    exact List.mem_cons_of_mem _ hk
  have hrest : ∀ k ∈ rest, k.phase.delay ≤ 3 := fun k hk => h.brief k (by simp [hq, hk])
  -- After its turn the loop is gone, or it stands at the end of the queue in another phase.
  cases ht.placed with
  | gone hqueue =>
    have hloops' : (e.act l).schedule.loops = rest ++ e.schedule.sleepers.map (·.2) := by
      rw [Schedule.loops, hqueue, ht.sleepers]
    refine h.touched htouch hmid.own ?_ ?_ ?_ (by rw [hqueue]; exact hrest)
    · rw [hloops']
      exact hsingle.2
    · intro k hk _
      exact ⟨k, hstay k (hloops' ▸ hk), rfl⟩
    · intro k hk hid
      exact absurd hid (hmid.apart k (hloops' ▸ hk))
  | back phase hqueue hdelay hl hrun =>
    have hloops' : (e.act l).schedule.loops =
        rest ++ { l with phase } :: e.schedule.sleepers.map (·.2) := by
      rw [Schedule.loops, hqueue, ht.sleepers]
      simp
    have hst : l.stopping = false := by
      rcases hd with ⟨-, hc⟩ | ⟨-, hc⟩
      · rw [← hc, hl]
      · rw [hl] at hc
        cases hc
    refine h.touched htouch hmid.own ?_ ?_ ?_ ?_
    · rw [hloops', (List.perm_middle.map _).nodup_iff]
      exact List.nodup_cons.mpr hsingle
    · intro k hk hid
      rw [hloops', List.perm_middle.mem_iff] at hk
      rcases List.mem_cons.mp hk with rfl | hk
      · exact absurd rfl hid
      · exact ⟨k, hstay k hk, rfl⟩
    · intro k hk hid
      rw [hloops', List.perm_middle.mem_iff] at hk
      rcases List.mem_cons.mp hk with rfl | hk
      · exact ⟨t, ht.own, .inl ⟨hrun, hl.trans hst.symm⟩⟩
      · exact absurd hid (hmid.apart k hk)
    · rw [hqueue]
      intro k hk
      rcases List.mem_append.mp hk with hk | hk
      · exact hrest k hk
      · rw [List.mem_singleton.mp hk]
        exact hdelay

theorem Orderly.happens {e f : Engine} (h : e.Orderly) (hf : e.Happens f) : f.Orderly := by
  cases hf with
  | shuffle hc hb => exact h.shuffle hc hb
  | act hq hphase => exact h.act hq hphase

theorem Orderly.passes {e f : Engine} (h : e.Orderly) (hf : Passes e f) : f.Orderly := by
  induction hf with
  | refl => exact h
  | tail _ hstep ih => exact ih.happens hstep

theorem Orderly.loops_happens (h : e.Orderly) (hf : e.Happens f) :
    ∀ k ∈ f.schedule.loops, ∃ l ∈ e.schedule.loops, l.core = k.core := by
  intro k hk
  cases hf with
  | shuffle hc hb => exact List.mem_map.mp (hc.mem_iff.mp (List.mem_map_of_mem hk))
  | @act l rest hq hphase =>
    obtain ⟨s, t, -, -, -, ht⟩ := h.acted hq hphase
    have hloops : e.schedule.loops = l :: (rest ++ e.schedule.sleepers.map (·.2)) := by
      simp [Schedule.loops, hq]
    rw [hloops]
    cases ht.placed with
    | gone hqueue =>
      rw [Schedule.loops, hqueue, ht.sleepers] at hk
      exact ⟨k, List.mem_cons_of_mem _ hk, rfl⟩
    | back phase hqueue _ _ _ =>
      rw [Schedule.loops, hqueue, ht.sleepers, List.append_assoc, List.singleton_append,
        List.perm_middle.mem_iff] at hk
      rcases List.mem_cons.mp hk with rfl | hk
      · exact ⟨l, List.mem_cons_self, rfl⟩
      · exact ⟨k, List.mem_cons_of_mem _ hk, rfl⟩

theorem Orderly.loops_passes (h : e.Orderly) (hf : Passes e f) :
    ∀ k ∈ f.schedule.loops, ∃ l ∈ e.schedule.loops, l.core = k.core := by
  induction hf with
  | refl => exact fun k hk => ⟨k, hk, rfl⟩
  | tail hpast hstep ih =>
    intro k hk
    obtain ⟨m, hm, hcore⟩ := (h.passes hpast).loops_happens hstep k hk
    obtain ⟨l, hl, hcore'⟩ := ih m hm
    exact ⟨l, hl, hcore'.trans hcore⟩

end Engine

end StepWorld
