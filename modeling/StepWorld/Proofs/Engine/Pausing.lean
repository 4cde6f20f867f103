import StepWorld.Proofs.Engine.Launch
import StepWorld.Proofs.Engine.Twins

/-! Pauses leave no trace. A run that its listener pauses and that is resumed each time stands, turn
for turn, where the run that nobody interrupts stands, and leaves the same in the end. -/

namespace StepWorld

namespace Engine

variable {e f g r : Engine} {id : String} {s t u v : Simulation} {c : Bool} {σ : StepSummary}
  {phase phase' : LoopPhase} {p : Prop} {k m n since : Nat}

theorem Twins.setStatus_here (h : Twins id e f) (hs : e.simulations.get? id = some s)
    (status : SimulationStatus) :
    ∃ archive, e.call (setStatus id status) = (.ok (), { e.enter id status with archive }) ∧
      Twins id { e.enter id status with archive } f := by
  obtain ⟨archive, hrun, harchive⟩ := h.archive.setStatus_here status
  obtain ⟨other, ht⟩ := h.symm_own hs
  refine ⟨archive, call_setStatus hrun, ⟨h.settings, h.specifications, h.arena⟩, ?_, h.outcome,
    h.failure, h.begun, h.summaries, harchive⟩
  exact ⟨{ s with status }, other, by simp [enter, alter, Table.get?_modify, hs], ht⟩

theorem Twins.pause_here (h : Twins id e f) (hs : e.simulations.get? id = some s)
    (hr : s.status = .running) (hlone : e.Lone id c) :
    ∃ g, e.call (pause id) = (.ok (), g) ∧ Twins id g f ∧ g.Lone id true ∧
      g.simulations.get? id = some { s with status := .paused } ∧ g.arena.realms = e.arena.realms ∧
      g.failures = e.failures := by
  have hcancelled : Twins id (e.cancel id) f := h.beside
  obtain ⟨archive, hcall, htwins⟩ := hcancelled.setStatus_here hs .paused
  unfold pause
  rw [call_of_get? hs (by rw [hr]; rfl), call_bind, call_modify]
  dsimp only
  rw [call_bind, hcall]
  refine ⟨_, rfl, ?_, ⟨hlone.cancel.queue, hlone.cancel.sleepers⟩, ?_, rfl, rfl⟩
  · exact htwins.print_here _ _
  · have hs' : (e.cancel id).simulations.get? id = some s := hs
    simp [Engine.print, enter, alter, Table.get?_modify, hs']

theorem Twins.saveSnapshot (h : Twins id e f) (n : Nat) (w : World) :
    (∃ archive archive',
      e.call (store (Archive.saveSnapshot id n w)) = (.ok (), { e with archive }) ∧
      f.call (store (Archive.saveSnapshot id n w)) = (.ok (), { f with archive := archive' }) ∧
      Twins id { e with archive } { f with archive := archive' }) ∨
    ∃ error archive archive' refusals refusals',
      e.call (store (Archive.saveSnapshot id n w)) = (.error error, { e with archive, refusals }) ∧
      f.call (store (Archive.saveSnapshot id n w)) =
        (.error error, { f with archive := archive', refusals := refusals' }) ∧
      Twins id { e with archive, refusals }
        { f with archive := archive', refusals := refusals' } := by
  obtain ⟨hresult, hafter⟩ := agrees_store (Archive.agrees_saveSnapshot n w) e f h
  change (e.call _).1 = (f.call _).1 at hresult
  change Twins id (e.call _).2 (f.call _).2 at hafter
  rcases @call_store e (Archive.saveSnapshot id n w) with
    ⟨archive, hstore, -⟩ | ⟨error, archive, hstore⟩
  · rcases @call_store f (Archive.saveSnapshot id n w) with
      ⟨archive', hstore', -⟩ | ⟨error', archive', hstore'⟩
    · rw [hstore, hstore'] at hafter
      exact .inl ⟨archive, archive', hstore, hstore', hafter⟩
    · rw [hstore, hstore'] at hresult
      cases hresult
  · rcases @call_store f (Archive.saveSnapshot id n w) with
      ⟨archive', hstore', -⟩ | ⟨error', archive', hstore'⟩
    · rw [hstore, hstore'] at hresult
      cases hresult
    · rw [hstore, hstore'] at hresult hafter
      cases hresult
      exact .inr ⟨_, _, _, _, _, hstore, hstore', hafter⟩

structure Ongoing (e : Engine) (id : String) (s : Simulation) : Prop where
  own : e.simulations.get? id = some s
  named : s.id = id
  status : s.status = .running
  failure : e.failures.get? id = none

theorem Ongoing.ne_paused (h : e.Ongoing id s) : s.status ≠ .paused := by
  rw [h.status]
  decide

/-- Two runs of a simulation that stand at the same step. Both go on or have ended, or one of them
is paused there, if that is possible. -/
inductive Abreast (id : String) (possible : Prop) (e f : Engine) : Prop
  | ended {u : Simulation} (htwins : Twins id e f) (he : e.simulations.get? id = some u)
      (hf : f.simulations.get? id = some u) (hu : u.status.terminal = true)
      (hloops : e.schedule.loops = []) (hloops' : f.schedule.loops = [])
  | going {u v : Simulation} (htwins : Twins id e f) (he : e.Ongoing id u) (hf : f.Ongoing id v)
      (hlone : e.Lone id false) (hlone' : f.Lone id false)
  | paused {u v : Simulation} (hp : possible) (htwins : Twins id e f)
      (he : e.simulations.get? id = some u) (hu : u.status = .paused) (hfailure : e.failures.get? id = none)
      (hloops : e.schedule.loops = []) (hf : f.Ongoing id v) (hlone' : f.Lone id false)

/-- After a step that is not the last, both runs rest with what they stored, or their archives
failed and both have ended. -/
theorem Twins.conclude_stored (h : Twins id e f) (he : e.simulations.get? id = some u)
    (hlone : e.Lone id c) (hlone' : f.Lone id false) (hs : s.id = id) (ht : t.id = id)
    (hσ : σ.terminal = false) (w : World) :
    (∃ archive archive', Twins id { e with archive } { f with archive := archive' } ∧
      e.conclude s σ w = ({ e with archive } : Engine).rest s ∧
      f.conclude t σ w = ({ f with archive := archive' } : Engine).rest t) ∨
    Abreast id p (e.conclude s σ w) (f.conclude t σ w) := by
  rw [conclude_archives hs hσ, conclude_archives ht hσ]
  rcases h.saveSnapshot σ.step w with
    ⟨archive, archive', hstore, hstore', hkept⟩ |
      ⟨error, archive, archive', refusals, refusals', hstore, hstore', hkept⟩
  · rw [hstore, hstore']
    exact .inl ⟨archive, archive', hkept, rfl, rfl⟩
  · rw [hstore, hstore']
    dsimp only
    have hlone₂ : ({ e with archive, refusals } : Engine).Lone id c := hlone.of_schedule rfl
    have hlone₂' : ({ f with archive := archive', refusals := refusals' } : Engine).Lone id false :=
      hlone'.of_schedule rfl
    obtain ⟨hbroken, v, hv, hv', hstatus⟩ := hkept.breakOff he error.message
    have hterminal : v.status.terminal = true := by rw [hstatus]; rfl
    exact .inr (.ended hbroken hv hv' hterminal (hlone₂.loops_breakOff _)
      (hlone₂'.loops_breakOff _))

theorem Twins.conclude (h : Twins id e f) (he : e.Ongoing id u) (hf : f.Ongoing id u)
    (hlone : e.Lone id false) (hlone' : f.Lone id false) (hs : s.id = id) (ht : t.id = id)
    (w : World) : Abreast id p (e.conclude s σ w) (f.conclude t σ w) := by
  cases hσ : σ.terminal with
  | true =>
    obtain ⟨message, heq⟩ := @conclude_over e id s σ hs hσ w
    obtain ⟨message', heq'⟩ := @conclude_over f id t σ ht hσ w
    obtain ⟨hleft, v, hv, hv', hterminal⟩ := (h.print .info .info message message').leave he.own
      hf.own he.ne_paused hf.ne_paused
    rw [heq, heq']
    exact .ended hleft hv hv' hterminal (Lone.loops_leave (hlone.of_schedule rfl))
      (Lone.loops_leave (hlone'.of_schedule rfl))
  | false =>
    rcases h.conclude_stored he.own hlone hlone' hs ht hσ w with
      ⟨archive, archive', hkept, hrests, hrests'⟩ | hended
    · have hlone₂ : ({ e with archive } : Engine).Lone id false := hlone.of_schedule rfl
      have hlone₂' : ({ f with archive := archive' } : Engine).Lone id false :=
        hlone'.of_schedule rfl
      obtain ⟨schedule, hrest, hnext⟩ := hlone₂.rest hs
      obtain ⟨schedule', hrest', hnext'⟩ := hlone₂'.rest ht
      rw [hrests, hrests', hrest, hrest']
      exact .going hkept.beside ⟨he.own, he.named, he.status, he.failure⟩
        ⟨hf.own, hf.named, hf.status, hf.failure⟩ hnext hnext'
    · exact hended

theorem Twins.conclude_paused (h : Twins id e f) (hp : p) (he : e.simulations.get? id = some u)
    (hu : u.status = .paused) (hfailure : e.failures.get? id = none) (hf : f.Ongoing id v)
    (hlone : e.Lone id true) (hlone' : f.Lone id false) (hs : s.id = id) (ht : t.id = id)
    (hσ : σ.terminal = false) (w : World) :
    Abreast id p (e.conclude s σ w) (f.conclude t σ w) := by
  rcases h.conclude_stored he hlone hlone' hs ht hσ w with
    ⟨archive, archive', hkept, hrests, hrests'⟩ | hended
  · have hlone₂ : ({ e with archive } : Engine).Lone id true := hlone.of_schedule rfl
    obtain ⟨_, hfind⟩ := hlone₂.find
    have hrunner : ({ e with archive } : Engine).runner? id = some u := runner?_own he
    have hleave := leave_paused hrunner hu (by rw [hfind]; rfl)
    have hlone₂' : ({ f with archive := archive' } : Engine).Lone id false :=
      hlone'.of_schedule rfl
    obtain ⟨schedule', hrest', hnext'⟩ := hlone₂'.rest ht
    rw [hrests, hrests', hlone₂.rest_cancelled hs, hleave, hrest']
    exact .paused hp hkept.beside he hu hfailure hlone₂.loops_remove
      ⟨hf.own, hf.named, hf.status, hf.failure⟩ hnext'
  · exact hended

theorem Ongoing.step (h : e.Ongoing id s) :
    (∃ t, (e.step s).2.Ongoing id t) ∧ (e.step s).2.schedule = e.schedule ∧
      (e.step s).2.listener = e.listener := by
  obtain ⟨t, ht, htid, htstatus, -⟩ := step_own h.own h.named
  obtain ⟨arena, f, hstep, -⟩ := step_stepped e s
  refine ⟨⟨t, ht, htid, htstatus.trans h.status, ?_⟩, by rw [hstep]; rfl, by rw [hstep]; rfl⟩
  rw [hstep]
  exact h.failure

theorem Twins.same (h : Twins id e f) (he : e.Ongoing id s) (hf : f.Ongoing id t) : t = s := by
  obtain ⟨status, hother⟩ := h.symm_own he.own
  obtain rfl := Option.some.inj (hf.own.symm.trans hother)
  obtain rfl : status = s.status := hf.status.trans he.status.symm
  rfl

/-- What follows a step that returned is the same, whether or not the listener pauses one of the
simulations then. -/
theorem Twins.afterStep (h : Twins id e f) (he : e.Ongoing id u) (hf : f.Ongoing id u)
    (hlone : e.Lone id false) (hlone' : f.Lone id false) (hs : s.id = id)
    (hheard : e.listener id σ.step = [] ∨
      p ∧ e.listener id σ.step = [.pause] ∧ σ.terminal = false)
    (hsilent : f.listener id σ.step = []) :
    Abreast id p (e.afterStep s σ) (f.afterStep s σ) := by
  obtain rfl := hs
  let w := (e.arena.world? s.id).getD (.empty 0)
  let e' : Engine := { e with summaries := e.summaries ++ [(s.id, σ)] }
  let f' : Engine := { f with summaries := f.summaries ++ [(s.id, σ)] }
  have hseen : Twins s.id e' f' := by
    refine ⟨⟨h.settings, h.specifications, h.arena⟩, h.own, h.outcome, h.failure, h.begun, ?_,
      h.archive⟩
    change f.summaries ++ _ = e.summaries ++ _
    rw [h.summaries]
  have he' : e'.Ongoing s.id u := ⟨he.own, he.named, he.status, he.failure⟩
  have hf' : f'.Ongoing s.id u := ⟨hf.own, hf.named, hf.status, hf.failure⟩
  have hunheard : f'.reactAll s.id ((f.arena.world? s.id).getD (.empty 0))
      (f.listener s.id σ.step) = (w, f') := by
    rw [hsilent, h.arena.world?]
    rfl
  rw [afterStep_eq hunheard]
  -- The listener of the first run does nothing either, or pauses it.
  rcases hheard with hnone | ⟨hp, hpause, hσ⟩
  · have hunheard' : e'.reactAll s.id ((e.arena.world? s.id).getD (.empty 0))
        (e.listener s.id σ.step) = (w, e') := by
      rw [hnone]
      rfl
    rw [afterStep_eq hunheard']
    exact hseen.conclude he' hf' (hlone.of_schedule rfl) (hlone'.of_schedule rfl) rfl rfl w
  · have hlone₂ : e'.Lone s.id false := hlone.of_schedule rfl
    obtain ⟨g, hcall, htwins, hcancelled, hown, hrealms, hfailures⟩ :=
      hseen.pause_here he'.own he'.status hlone₂
    have hheard' : e'.reactAll s.id ((e.arena.world? s.id).getD (.empty 0))
        (e.listener s.id σ.step) = (w, g) := by
      have hworld : g.arena.world? s.id = e.arena.world? s.id := by
        rw [Arena.world?, hrealms]
        rfl
      rw [hpause]
      unfold reactAll react reactionCall
      rw [hcall]
      dsimp only [reactAll]
      rw [hworld]
      refine Prod.ext ?_ rfl
      cases hw : e.arena.world? s.id <;> simp [w, hw]
    rw [afterStep_eq hheard']
    exact htwins.conclude_paused hp hown rfl (by rw [hfailures]; exact he'.failure) hf' hcancelled
      (hlone'.of_schedule rfl) rfl rfl hσ w

theorem mem_afterStep (e : Engine) (s : Simulation) (σ : StepSummary) :
    (s.id, σ) ∈ (e.afterStep s σ).summaries := by
  obtain ⟨added, hadded, -⟩ := (touches_heard e s σ).summaries
  rw [hadded]
  exact List.mem_append_left _ (List.mem_append_right _ (List.mem_singleton_self _))

/-- Two runs that stand at the same step stand so after the next turn of their loops, unless the
listener pauses one of them after its last step. -/
theorem Twins.act (h : Twins id e f) (he : e.Ongoing id s) (hf : f.Ongoing id t)
    (hlone : e.Lone id false) (hlone' : f.Lone id false)
    (hheard : ∀ n, e.listener id n = [] ∨ p ∧ e.listener id n = [.pause])
    (hsilent : ∀ n, f.listener id n = [])
    (hover : ∀ σ, (id, σ) ∈ (f.act ⟨id, false, false, phase'⟩).summaries → σ.terminal = true →
      e.listener id σ.step = []) :
    Abreast id p (e.act ⟨id, false, false, phase⟩) (f.act ⟨id, false, false, phase'⟩) := by
  -- Both loops find the same simulation, so that both take a step or neither does.
  obtain rfl := h.same he hf
  have hrunner : e.runner? id = some t := runner?_own he.own
  have hrunner' : f.runner? id = some t := runner?_own hf.own
  have hsame : Loop.continues ⟨id, false, false, phase'⟩ t =
      Loop.continues ⟨id, false, false, phase⟩ t := rfl
  unfold Engine.act at hover ⊢
  dsimp only at hover ⊢
  rw [hrunner'] at hover ⊢
  rw [hrunner]
  dsimp only at hover ⊢
  rw [hsame] at hover ⊢
  rw [he.named]
  split
  · next hcontinues =>
    rw [if_pos hcontinues] at hover
    obtain ⟨⟨u, hu⟩, hschedule, hlistener⟩ := he.step
    obtain ⟨⟨v, hv⟩, hschedule', hlistener'⟩ := hf.step
    obtain ⟨hresult, hafter⟩ := h.step he.own hf.own he.named
    have hstepped := hlone.of_schedule hschedule
    have hstepped' := hlone'.of_schedule hschedule'
    obtain rfl := hafter.same hu hv
    generalize e.step t = first at *
    generalize f.step t = second at *
    obtain ⟨_, e'⟩ := first
    obtain ⟨result, f'⟩ := second
    obtain rfl := hresult
    cases result with
    | ok σ =>
      refine hafter.afterStep hu hv hstepped hstepped' he.named ?_ ?_
      · rw [hlistener]
        rcases hheard σ.step with hnone | ⟨hp, hpause⟩
        · exact .inl hnone
        · refine .inr ⟨hp, hpause, Bool.eq_false_iff.mpr fun hσ => ?_⟩
          have hmem := mem_afterStep f' t σ
          rw [he.named] at hmem
          rw [hover σ hmem hσ] at hpause
          cases hpause
      · rw [hlistener']
        exact hsilent σ.step
    | error error =>
      obtain ⟨hbroken, w, hw, hw', hstatus⟩ := hafter.breakOff hu.own error.message
      have hterminal : w.status.terminal = true := by rw [hstatus]; rfl
      exact .ended hbroken hw hw' hterminal (hstepped.loops_breakOff _)
        (hstepped'.loops_breakOff _)
  · obtain ⟨hleft, u, hu, hu', hterminal⟩ :=
      h.leave he.own hf.own he.ne_paused hf.ne_paused
    exact .ended hleft hu hu' hterminal hlone.loops_leave hlone'.loops_leave

def afterTurns (e : Engine) (id : String) : Nat → Engine
  | 0 => e
  | n + 1 => (afterTurns e id n).act ⟨id, false, false, .awake⟩

def Underway (e : Engine) (id : String) (n : Nat) : Prop :=
  ∀ k < n, (∃ s, (e.afterTurns id k).Ongoing id s) ∧ (e.afterTurns id k).Lone id false

theorem Underway.mono (h : e.Underway id n) (hkn : k ≤ n) : e.Underway id k :=
  fun j hj => h j (Nat.lt_of_lt_of_le hj hkn)

theorem Underway.succ (h : e.Underway id n) (hgoing : (e.afterTurns id n).Ongoing id s)
    (hlone : (e.afterTurns id n).Lone id false) : e.Underway id (n + 1) := by
  intro k hk
  rcases Nat.lt_succ_iff_lt_or_eq.mp hk with hlt | rfl
  · exact h k hlt
  · exact ⟨⟨s, hgoing⟩, hlone⟩

theorem Ongoing.touches (h : e.Ongoing id s) (phase : LoopPhase) :
    Touches id e (e.act ⟨id, false, false, phase⟩) := by
  refine touches_act e ⟨id, false, false, phase⟩ fun t ht => ?_
  have hrunner : e.runner? id = some s := runner?_own h.own
  obtain rfl : t = s := Option.some.inj (ht.symm.trans hrunner)
  exact h.named

theorem Underway.touches (h : e.Underway id n) (hkn : k ≤ n) :
    Touches id (e.afterTurns id k) (e.afterTurns id n) := by
  induction n with
  | zero =>
    obtain rfl := Nat.le_zero.mp hkn
    exact .refl _
  | succ n ih =>
    rcases Nat.le_succ_iff.mp hkn with hle | rfl
    · obtain ⟨⟨s, hs⟩, -⟩ := h n (Nat.lt_succ_self n)
      exact (ih (h.mono (Nat.le_succ n)) hle).trans (hs.touches .awake)
    · exact .refl _

/-- How far a run has come beside the turns of a run that nobody interrupts, since it was started
or resumed at one of them. -/
inductive Pace (r : Engine) (id : String) (possible : Prop) (since : Nat) (g : Engine) : Prop
  | going {n : Nat} {s : Simulation} (hn : since ≤ n) (hbefore : r.Underway id (n + 1))
      (htwins : Twins id g (r.afterTurns id n)) (hg : g.Ongoing id s) (hsolo : g.Solo id)
  | paused {n : Nat} {s : Simulation} (hp : possible) (hn : since < n)
      (hbefore : r.Underway id (n + 1)) (htwins : Twins id g (r.afterTurns id n))
      (hg : g.simulations.get? id = some s) (hs : s.status = .paused)
      (hfailure : g.failures.get? id = none) (hloops : g.schedule.loops = [])
  | ended {n : Nat} {s : Simulation} (hbefore : r.Underway id n)
      (hend : (r.afterTurns id n).schedule.loops = []) (htwins : Twins id g (r.afterTurns id n))
      (hg : g.simulations.get? id = some s)
      (hr : (r.afterTurns id n).simulations.get? id = some s) (hs : s.status.terminal = true)
      (hloops : g.schedule.loops = [])

theorem Pace.loops (h : Pace r id p since g) : g.schedule.loops = [] ∨ g.Solo id := by
  cases h with
  | going hn hbefore htwins hg hsolo => exact .inr hsolo
  | paused hp hn hbefore htwins hg hs hfailure hloops => exact .inl hloops
  | ended hbefore hend htwins hg hr hs hloops => exact .inl hloops

theorem Pace.shuffle {schedule : Schedule} (h : Pace r id p since g)
    (hperm : (schedule.loops.map Loop.core).Perm (g.schedule.loops.map Loop.core)) :
    Pace r id p since { g with schedule } := by
  cases h with
  | going hn hbefore htwins hg hsolo =>
    exact .going hn hbefore htwins.beside ⟨hg.own, hg.named, hg.status, hg.failure⟩
      (hsolo.shuffle hperm)
  | paused hp hn hbefore htwins hg hs hfailure hloops =>
    exact .paused hp hn hbefore htwins.beside hg hs hfailure (loops_shuffle hloops hperm)
  | ended hbefore hend htwins hg hr hs hloops =>
    exact .ended hbefore hend htwins.beside hg hr hs (loops_shuffle hloops hperm)

/-- A run keeps pace with the run that nobody interrupts, however many things happen. -/
theorem Pace.passes (h : Pace r id p since e) (hf : Passes e f)
    (hheard : ∀ n, e.listener id n = [] ∨ p ∧ e.listener id n = [.pause])
    (hsilent : ∀ n, r.listener id n = [])
    (hover : ∀ n, r.Underway id n → ∀ σ, (id, σ) ∈ (r.afterTurns id n).summaries →
      σ.terminal = true → e.listener id σ.step = []) :
    Pace r id p since f ∧ f.listener = e.listener := by
  refine @Passes.solo e f id (fun g => Pace r id p since g ∧ g.listener = e.listener) hf
    ⟨h, rfl⟩ (fun g hg => hg.1.loops) (fun g schedule hg hperm => ⟨hg.1.shuffle hperm, hg.2⟩) ?_
  rintro g phase ⟨hpace, hlistener⟩ hsolo hq hasleep
  cases hpace with
  | @going n s hn hbefore htwins hg _ =>
    obtain ⟨⟨t, ht⟩, hlone'⟩ := hbefore n (Nat.lt_succ_self n)
    have hquiet := ((hbefore.mono (Nat.le_succ n)).touches (Nat.zero_le n)).listener
    refine ⟨?_, (hg.touches phase).listener.trans hlistener⟩
    cases htwins.act hg ht ⟨⟨phase, hq⟩, hasleep⟩ hlone' (fun k => hlistener ▸ hheard k)
      (fun k => (congrFun (congrFun hquiet id) k).trans (hsilent k))
      (fun σ hmem hσ => hlistener ▸ hover (n + 1) hbefore σ hmem hσ) with
    | ended hnext he hf hu hloops hloops' =>
      exact .ended hbefore hloops' hnext he hf hu hloops
    | going hnext he hf hlone hlone' =>
      exact .going (Nat.le_succ_of_le hn) (hbefore.succ hf hlone') hnext he hlone.solo
    | paused hp hnext he hu hfailure hloops hf hlone' =>
      exact .paused hp (Nat.lt_succ_of_le hn) (hbefore.succ hf hlone') hnext he hu hfailure hloops
  | paused hp hn hbefore htwins hg hs hfailure hloops => exact absurd hloops hsolo.loops_ne
  | ended hbefore hend htwins hg hr hs hloops => exact absurd hloops hsolo.loops_ne

theorem Underway.end_unique (hn : r.Underway id n) (hend : (r.afterTurns id n).schedule.loops = [])
    (hk : r.Underway id k) (hend' : (r.afterTurns id k).schedule.loops = []) : k = n := by
  rcases Nat.lt_trichotomy k n with hlt | heq | hgt
  · exact absurd hend' (hn k hlt).2.solo.loops_ne
  · exact heq
  · exact absurd hend (hk n hgt).2.solo.loops_ne

theorem Pace.await (h : Pace r id p since e) (ho : e.Orderly)
    (hheard : ∀ n, e.listener id n = [] ∨ p ∧ e.listener id n = [.pause])
    (hsilent : ∀ n, r.listener id n = [])
    (hover : ∀ n, r.Underway id n → ∀ σ, (id, σ) ∈ (r.afterTurns id n).summaries →
      σ.terminal = true → e.listener id σ.step = []) :
    Pace r id p since (e.awaitLoop id) ∧ (e.awaitLoop id).schedule.loops = [] ∧
      (e.awaitLoop id).listener = e.listener := by
  have hpasses := passes_awaitLoop e id
  obtain ⟨hpace, hlistener⟩ := h.passes hpasses hheard hsilent hover
  have hended := ho.awaitLoop_ends id
  refine ⟨hpace, ?_, hlistener⟩
  rcases hpace.loops with hnone | hsolo
  · exact hnone
  · rw [solo_of_pending hsolo] at hended
    cases hended

/-- A simulation that was created and has a record, while no loop is there. -/
structure Created (e : Engine) (id : String) (s : Simulation) : Prop where
  orderly : e.Orderly
  idle : e.schedule.loops = []
  own : e.simulations.get? id = some s
  status : s.status = .created
  recorded : e.archive.Recorded id

/-- The engine after a simulation was started and waited for. -/
def ran (e : Engine) (id : String) : Engine := ((e.perform (.start id)).2.perform (.wait id)).2

theorem ran_eq (hstart : e.perform (.start id) = (.ok (), f))
    (hs : f.simulations.get? id = some s) : e.ran id = f.awaitLoop id := by
  rw [ran, hstart, perform_wait_awaits hs]

/-- The engine after a simulation was resumed and waited for so many times. -/
def resumed (e : Engine) (id : String) : Nat → Engine
  | 0 => e
  | n + 1 => resumed ((e.perform (.resume id)).2.perform (.wait id)).2 id n

/-- Two engines with the same simulation, the same world, the same result and the same in the
archive, in which the same steps were seen. -/
structure SameOutcome (id : String) (e f : Engine) : Prop where
  own : e.simulations.get? id = f.simulations.get? id
  world : e.arena.world? id = f.arena.world? id
  result : e.results.get? id = f.results.get? id
  steps : e.archive.steps id = f.archive.steps id
  snapshots : ∀ n : Nat, e.archive.snapshot? id n = f.archive.snapshot? id n
  archived : e.archive.result? id = f.archive.result? id
  summaries : e.summaries = f.summaries

theorem Twins.sameOutcome (h : Twins id e r) (h' : Twins id f r)
    (hown : e.simulations.get? id = f.simulations.get? id) : SameOutcome id e f where
  own := hown
  world := (h.arena.world? id).symm.trans (h'.arena.world? id)
  result := h.outcome.symm.trans h'.outcome
  steps := h.archive.steps.symm.trans h'.archive.steps
  snapshots n := (h.archive.snapshot? n).symm.trans (h'.archive.snapshot? n)
  archived := h.archive.result?.symm.trans h'.archive.result?
  summaries := h.summaries.symm.trans h'.summaries

theorem Twins.resume_here (h : Twins id e f) (he : e.simulations.get? id = some u)
    (hid : u.id = id) (hu : u.status = .paused) (hfailure : e.failures.get? id = none)
    (hloops : e.schedule.loops = []) :
    ∃ g, e.perform (.resume id) = (.ok (), g) ∧ Twins id g f ∧
      g.Ongoing id { u with status := .running } ∧ g.Lone id false ∧ g.listener = e.listener := by
  obtain rfl := hid
  obtain ⟨archive, hrun, harchive⟩ := h.archive.setStatus_here .running
  have hidle : e.pending u.id = false := by
    simp [pending, Schedule.pending, Schedule.find?, hloops]
  let entered : Engine := { e.enter u.id .running with archive }
  have hown : (entered.spawn u.id).simulations.get? u.id = some { u with status := .running } := by
    simp [entered, spawn, enter, alter, Table.get?_modify, he]
  have hfailure' : (entered.spawn u.id).failures.get? u.id = none :=
    (Table.get?_remove _ _ _).trans (if_pos rfl)
  have hlone : (entered.spawn u.id).Lone u.id false := lone_spawn hloops
  have hspawned : Twins u.id (entered.spawn u.id) f := by
    obtain ⟨status, ht⟩ := h.symm_own he
    exact ⟨⟨h.settings, h.specifications, h.arena⟩, ⟨_, status, hown, ht⟩, h.outcome,
      (h.failure.trans hfailure).trans hfailure'.symm, h.begun, h.summaries, harchive⟩
  exact ⟨_, perform_resume he rfl hu hidle hfailure hrun, hspawned.print_here _ _,
    ⟨hown, rfl, rfl, hfailure'⟩, hlone.of_schedule rfl, rfl⟩

/-- A run that is resumed whenever it is paused comes to the end of the run that nobody
interrupts. -/
theorem Pace.resumes (h : Pace r id p since g) (ho : g.Orderly) (hloops : g.schedule.loops = [])
    (hbefore : r.Underway id m) (hend : (r.afterTurns id m).schedule.loops = [])
    (hheard : ∀ n, g.listener id n = [] ∨ p ∧ g.listener id n = [.pause])
    (hsilent : ∀ n, r.listener id n = [])
    (hover : ∀ n, r.Underway id n → ∀ σ, (id, σ) ∈ (r.afterTurns id n).summaries →
      σ.terminal = true → g.listener id σ.step = []) :
    ∃ n s, (∀ k < n, (g.resumed id k).statusOf? id = some .paused ∧
        ((g.resumed id k).perform (.resume id)).1 = .ok ()) ∧
      Twins id (g.resumed id n) (r.afterTurns id m) ∧
      (g.resumed id n).simulations.get? id = some s ∧
      (r.afterTurns id m).simulations.get? id = some s ∧ s.status.terminal = true := by
  induction hd : m - since using Nat.strong_induction_on generalizing since g with
  | _ d ih =>
    cases h with
    | going hn hunder htwins hg hsolo => exact absurd hloops hsolo.loops_ne
    | @ended n s hunder hover' htwins hg hr hs _ =>
      obtain rfl := Underway.end_unique hbefore hend hunder hover'
      exact ⟨0, s, fun k hk => absurd hk (Nat.not_lt_zero k), htwins, hg, hr, hs⟩
    | @paused n u hp hn hunder htwins hg hu hfailure _ =>
      have hnm : n < m := by
        refine Nat.lt_of_not_le fun hle => ?_
        exact (hunder m (Nat.lt_succ_of_le hle)).2.solo.loops_ne hend
      obtain ⟨f, hresume, hnext, hgoing, hlone, hlistener⟩ :=
        htwins.resume_here hg (ho.filed id u hg) hu hfailure hloops
      have hf : f = (g.perform (.resume id)).2 := (congrArg Prod.snd hresume).symm
      have hof : f.Orderly := hf ▸ ho.follow (ho.course (.resume id))
      have hpace : Pace r id p n f := .going (Nat.le_refl n) hunder hnext hgoing hlone.solo
      rw [← hlistener] at hheard hover
      obtain ⟨hwaited, hloops', hlistener'⟩ := hpace.await hof hheard hsilent hover
      have howait : (f.awaitLoop id).Orderly := hof.passes (passes_awaitLoop f id)
      rw [← hlistener'] at hheard hover
      obtain ⟨k, s, hpaused, hlast⟩ := ih (m - n) (by omega) hwaited howait hloops' hheard hover rfl
      have hround : ∀ j, g.resumed id (j + 1) = (f.awaitLoop id).resumed id j := by
        intro j
        rw [resumed, ← hf, perform_wait_awaits hgoing.own]
      refine ⟨k + 1, s, fun j hj => ?_, by rw [hround]; exact hlast⟩
      cases j with
      | zero => exact ⟨by simp [resumed, statusOf?, hg, hu], congrArg Prod.fst hresume⟩
      | succ j =>
        rw [hround]
        exact hpaused j (Nat.lt_of_succ_lt_succ hj)

theorem Orderly.created (h : e.Orderly) (hidle : e.schedule.loops = [])
    {specification : String} {o : SimulationOptions}
    (hcall : e.call (createSimulation specification o) = (.ok id, f)) :
    ∃ s, f.Created id s ∧ f.listener = e.listener := by
  obtain ⟨k, hk⟩ := doings_create e specification o
  have horderly : f.Orderly := by
    rw [hcall] at hk
    exact h.doings hk
  obtain ⟨spec, archive, message, -, rfl, hrun, rfl⟩ := call_create_ok hcall
  exact ⟨(e.addSimulation specification spec.program o).1, ⟨horderly, hidle,
    (Table.get?_put _ _ _ _).trans (if_pos rfl), rfl, Archive.recorded_of_saveRecord hrun⟩, rfl⟩

namespace Created

theorem heard (h : e.Created id s) (listener : String → Nat → List Reaction) :
    ({ e with listener } : Engine).Created id s where
  orderly := ⟨h.orderly.filed, h.orderly.attached, h.orderly.single, h.orderly.driven,
    h.orderly.brief, h.orderly.known, h.orderly.noted⟩
  idle := h.idle
  own := h.own
  status := h.status
  recorded := h.recorded

theorem launch (h : e.Created id s) (listener : String → Nat → List Reaction) :
    ∃ archive, e.perform (.start id) = (.ok (), e.launched id archive) ∧
      ({ e with listener } : Engine).perform (.start id) =
        (.ok (), ({ e with listener } : Engine).launched id archive) ∧
      Twins id (({ e with listener } : Engine).launched id archive) (e.launched id archive) ∧
      (e.launched id archive).Ongoing id (s.launched e.tick.1) ∧
      (({ e with listener } : Engine).launched id archive).Ongoing id (s.launched e.tick.1) ∧
      (e.launched id archive).Lone id false ∧
      (({ e with listener } : Engine).launched id archive).Lone id false := by
  obtain ⟨archive, hrun, -⟩ := h.recorded.twins.setStatus_here .running
  have hown : (e.launched id archive).simulations.get? id = some (s.launched e.tick.1) := by
    simp [launched, spawn, print, enter, noteStart, alter, tick, Table.get?_modify, h.own,
      Simulation.launched]
  have hkept := (Archive.agrees_setStatus .running none _ _ h.recorded.twins).2
  rw [hrun] at hkept
  have hfailure : (e.launched id archive).failures.get? id = none :=
    (Table.get?_remove _ _ _).trans (if_pos rfl)
  have hlone : (e.launched id archive).Lone id false := by
    have hidle : ({ (e.noteStart id).enter id .running with archive } : Engine).schedule.loops =
        [] := h.idle
    exact (lone_spawn hidle).of_schedule rfl
  have hgoing : (e.launched id archive).Ongoing id (s.launched e.tick.1) :=
    ⟨hown, h.orderly.filed id s h.own, rfl, hfailure⟩
  refine ⟨archive, perform_start h.own h.status hrun, perform_start h.own h.status hrun,
    ⟨⟨rfl, rfl, .refl _⟩, ⟨_, .running, hown, hown⟩, rfl, rfl, rfl, rfl, hkept⟩, hgoing,
    ⟨hown, hgoing.named, rfl, hfailure⟩, hlone, ⟨hlone.queue, hlone.sleepers⟩⟩

theorem silent (h : e.Created id s) (hsilent : ∀ n, e.listener id n = []) {archive : Archive}
    (hstart : e.perform (.start id) = (.ok (), e.launched id archive)) :
    ∃ m t, (e.launched id archive).Underway id m ∧
      ((e.launched id archive).afterTurns id m).schedule.loops = [] ∧
      Twins id (e.ran id) ((e.launched id archive).afterTurns id m) ∧
      (e.ran id).simulations.get? id = some t ∧
      ((e.launched id archive).afterTurns id m).simulations.get? id = some t := by
  obtain ⟨archive', hstart', -, htwins, hgoing, -, hlone, -⟩ := h.launch e.listener
  have hsame : e.launched id archive' = e.launched id archive :=
    congrArg Prod.snd (hstart'.symm.trans hstart)
  rw [hsame] at htwins hgoing hlone
  have ho : (e.launched id archive).Orderly := by
    have hfollow := h.orderly.follow (h.orderly.course (.start id))
    rw [hstart] at hfollow
    exact hfollow
  have hbefore : (e.launched id archive).Underway id 1 := fun k hk => by
    obtain rfl := Nat.lt_one_iff.mp hk
    exact ⟨⟨_, hgoing⟩, hlone⟩
  have hpace : Pace (e.launched id archive) id False 0 (e.launched id archive) :=
    .going (Nat.le_refl 0) hbefore htwins hgoing hlone.solo
  obtain ⟨hwaited, hloops, -⟩ := hpace.await ho (fun n => .inl (hsilent n)) hsilent
    fun _ _ σ _ _ => hsilent σ.step
  rw [ran_eq hstart hgoing.own]
  cases hwaited with
  | going hn hunder htwins hg hsolo => exact absurd hloops hsolo.loops_ne
  | paused hp => exact hp.elim
  | @ended n t hunder hend htwins hg hr hs _ => exact ⟨n, t, hunder, hend, htwins, hg, hr⟩

end Created

/-- A simulation that its listener pauses after some of its steps, though not after the one that
ends its run, and that is resumed and waited for whenever it is paused, ends as the one that nobody
interrupts: with the same world, the same result and the same snapshots, or with the same error. -/
theorem pauses_leave_no_trace (h : e.Created id s) (hsilent : ∀ n, e.listener id n = [])
    {listener : String → Nat → List Reaction}
    (hpauses : ∀ n, listener id n = [] ∨ listener id n = [.pause])
    (hover : ∀ σ, (id, σ) ∈ (e.ran id).summaries → σ.terminal = true → listener id σ.step = []) :
    let g := ({ e with listener } : Engine).ran id
    ∃ n, (∀ k < n, (g.resumed id k).statusOf? id = some .paused ∧
        ((g.resumed id k).perform (.resume id)).1 = .ok ()) ∧
      (g.resumed id n).statusOf? id ≠ some .paused ∧
      SameOutcome id (g.resumed id n) (e.ran id) := by
  intro g
  obtain ⟨archive, hstart, hstart', htwins, hgoing, hgoing', hlone, hlone'⟩ := h.launch listener
  obtain ⟨m, t, hunder, hend, hran, hown, hown'⟩ := h.silent hsilent hstart
  have hg : g = (({ e with listener } : Engine).launched id archive).awaitLoop id :=
    ran_eq hstart' hgoing'.own
  have ho : (({ e with listener } : Engine).launched id archive).Orderly := by
    have hheard := (h.heard listener).orderly
    have hfollow := hheard.follow (hheard.course (.start id))
    rw [hstart'] at hfollow
    exact hfollow
  have hbefore : (e.launched id archive).Underway id 1 := fun k hk => by
    obtain rfl := Nat.lt_one_iff.mp hk
    exact ⟨⟨_, hgoing⟩, hlone⟩
  have hpace : Pace (e.launched id archive) id True 0
      (({ e with listener } : Engine).launched id archive) :=
    .going (Nat.le_refl 0) hbefore htwins hgoing' hlone'.solo
  have hheard (n : Nat) : listener id n = [] ∨ True ∧ listener id n = [.pause] :=
    (hpauses n).imp_right fun hpause => ⟨trivial, hpause⟩
  -- No pause falls on a summary that ends the run, as the run that nobody interrupts sees them all.
  have hquiet (n : Nat) (hn : (e.launched id archive).Underway id n) (σ : StepSummary)
      (hmem : (id, σ) ∈ ((e.launched id archive).afterTurns id n).summaries)
      (hσ : σ.terminal = true) : listener id σ.step = [] := by
    have hnm : n ≤ m := Nat.le_of_not_lt fun hlt => (hn m hlt).2.solo.loops_ne hend
    obtain ⟨added, hadded, -⟩ := (hunder.touches hnm).summaries
    refine hover σ ?_ hσ
    rw [← hran.summaries, hadded]
    exact List.mem_append_left _ hmem
  obtain ⟨hwaited, hloops, hlistener⟩ := hpace.await ho hheard hsilent hquiet
  have howait := ho.passes (passes_awaitLoop _ id)
  rw [← hg] at hwaited hloops hlistener howait
  have hlistener' : g.listener = listener := hlistener
  rw [← hlistener'] at hheard hquiet
  obtain ⟨n, u, hpaused, hlast, hu, hu', hterminal⟩ :=
    hwaited.resumes howait hloops hunder hend hheard hsilent hquiet
  refine ⟨n, hpaused, ?_, hlast.sameOutcome hran ?_⟩
  · intro hstatus
    obtain ⟨v, hv, hpaused⟩ := statusOf?_iff.mp hstatus
    obtain rfl : v = u := Option.some.inj (hv.symm.trans hu)
    rw [hpaused] at hterminal
    cases hterminal
  · rw [hu, hown, ← hu', hown']

/-- Entities that grow by chance, for as long as they are let. -/
def thriving : Program where
  entities := [⟨"A", [⟨"x", .scalar .int⟩], [⟨"grow", none, none, none,
    [⟨.assignment "+=" (.property "Self" "x") (.literal (.int 1)), 0.5⟩]⟩], 1⟩]
  rules := []
  warnings := []

/-- An engine that archives in files and is not listened to. -/
def chancy : Engine :=
  { create .default [] (.cyclic [0, 2 ^ 53 - 1] 0) (.files (.create ⟨0, ["runs"]⟩)) fun _ _ => [] with
    specifications := [("spec", .create "" thriving (some "A") none 0)] }

theorem unused_chancy : chancy.Unused := ⟨rfl, rfl, rfl, rfl, rfl, rfl, rfl⟩

def chancing (limit : Nat) : Except CallError String × Engine :=
  chancy.call (createSimulation "spec" ⟨none, none, some limit, some 0, none⟩)

theorem created_chancing {limit : Nat} (h : (chancing limit).1 = .ok "sim_000000000001") :
    ∃ s, (chancing limit).2.Created "sim_000000000001" s ∧
      ∀ n, (chancing limit).2.listener "sim_000000000001" n = [] := by
  have hcall : chancing limit = (.ok "sim_000000000001", (chancing limit).2) := by
    rw [← h]
  obtain ⟨s, hs, hlistener⟩ := unused_chancy.regular.orderly.created rfl hcall
  exact ⟨s, hs, fun n => by rw [hlistener]; rfl⟩

@[irreducible] def threeSteps : Engine := (chancing 3).2

/-- Pauses after the first step and after the last one that may be taken. -/
def firstAndLast : String → Nat → List Reaction :=
  fun _ n => if n = 1 ∨ n = 3 then [.pause] else []

/-- The simulation is resumed twice, the second time only to be completed. -/
theorem pauses_leave_no_trace_firstAndLast :
    let g := ({ threeSteps with listener := firstAndLast } : Engine).ran "sim_000000000001"
    g.statusOf? "sim_000000000001" = some .paused ∧
      (g.resumed "sim_000000000001" 1).statusOf? "sim_000000000001" = some .paused ∧
      (g.resumed "sim_000000000001" 2).statusOf? "sim_000000000001" = some .completed ∧
      SameOutcome "sim_000000000001" (g.resumed "sim_000000000001" 2)
        (threeSteps.ran "sim_000000000001") := by
  intro g
  have hfirst : g.statusOf? "sim_000000000001" = some .paused := by decide +kernel
  have hsecond : (g.resumed "sim_000000000001" 1).statusOf? "sim_000000000001" = some .paused := by
    decide +kernel
  have hlast : (g.resumed "sim_000000000001" 2).statusOf? "sim_000000000001" =
      some .completed := by decide +kernel
  have hgoes : (threeSteps.ran "sim_000000000001").summaries.all (fun p => !p.2.terminal) = true := by
    decide +kernel
  obtain ⟨s, hs, hsilent⟩ : ∃ s, threeSteps.Created "sim_000000000001" s ∧
      ∀ n, threeSteps.listener "sim_000000000001" n = [] := by
    unfold threeSteps
    exact created_chancing (by decide +kernel)
  have hpauses (n : Nat) : firstAndLast "sim_000000000001" n = [] ∨
      firstAndLast "sim_000000000001" n = [.pause] := by
    unfold firstAndLast
    split <;> simp
  obtain ⟨n, hpaused, hend, hsame⟩ := pauses_leave_no_trace hs hsilent hpauses
    fun σ hmem hσ => by
      have hgo := List.all_eq_true.mp hgoes _ hmem
      simp [hσ] at hgo
  match n with
  | 0 => exact absurd hfirst hend
  | 1 => exact absurd hsecond hend
  | 2 => exact ⟨hfirst, hsecond, hlast, hsame⟩
  | n + 3 =>
    have htwo := (hpaused 2 (by omega)).1
    rw [hlast] at htwo
    cases htwo

end Engine

end StepWorld
