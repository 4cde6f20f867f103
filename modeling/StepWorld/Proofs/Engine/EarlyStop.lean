import StepWorld.Proofs.Engine.Pausing
import StepWorld.Proofs.Engine.Refinement

/-! A run that its listener stops after a step, or pauses there and that is stopped later, leaves
what a run leaves that may take no more steps than these. -/

namespace StepWorld

namespace Engine

variable {e f g : Engine} {id : String} {s t : Simulation} {worlds : List World} {w : World}
  {result : Option SimulationResult} {limit : Int} {m n : Nat} {σ : StepSummary} {c : Bool}

/-- So many steps of a simulation go on, and the one after them returns. -/
def Reaches (e : Engine) (id : String) (n : Nat) : Prop :=
  (∀ k < n, e.GoesOn id k) ∧ ∃ σ, (e.afterSteps id n).nextStep? id = some (.ok σ)

/-- How many worlds are archived of a run that is completed after its next step. The world that
ends a run is not archived. -/
def archivedWith (e : Engine) (id : String) (n : Nat) : Nat :=
  if (e.afterSteps id (n + 1)).isOver id then n else n + 1

/-- A run stands where the iteration does after some steps, but for the status of its simulation and
the time of its end. -/
structure Stands (e g : Engine) (id : String) (n : Nat) (t : Simulation) : Prop where
  source : ∃ p, (e.afterSteps id n).simulations.get? id = some p ∧
    (∀ stamp, t.completed stamp = p.completed stamp) ∧ p.currentStep = n
  world : ∃ w, (e.afterSteps id n).arena.world? id = some w ∧ g.arena.world? id = some w

theorem Stands.completed (h : e.Stands g id n t) (hf : e.Finished g f id t worlds)
    (hcount : worlds.length = m) (hpassed : e.Passed id worlds) : e.Completed f id n m := by
  obtain ⟨p, hp, ht, hstep⟩ := h.source
  obtain ⟨w, hw, hworld⟩ := h.world
  exact hf.completed hp ht hstep hw hworld hcount hpassed

theorem Stands.of_realms (h : e.Stands g id n t) (hrealms : f.arena.realms = g.arena.realms)
    (ht : ∀ stamp, s.completed stamp = t.completed stamp) : e.Stands f id n s := by
  obtain ⟨p, hp, hsame, hstep⟩ := h.source
  obtain ⟨w, hw, hworld⟩ := h.world
  refine ⟨⟨p, hp, fun stamp => (ht stamp).trans (hsame stamp), hstep⟩, w, hw, ?_⟩
  rw [Arena.world?, hrealms]
  exact hworld

structure Parked (e g : Engine) (id : String) (n m : Nat) : Prop where
  own : ∃ t worlds, e.Kept g id t worlds none ∧ t.status = .paused ∧ e.Stands g id n t ∧
    worlds.length = m ∧ e.Passed id worlds

inductive Cuts : Reaction → SimulationStatus → Prop
  | stop : Cuts .stop .completed
  | pause : Cuts .pause .paused

structure Halted (e g : Engine) (id : String) (n : Nat) (status : SimulationStatus)
    (worlds : List World) : Prop where
  alone : ∃ t result, e.Alone g id t worlds result true ∧ e.Stands g id n t ∧ t.status = status ∧
    (status = .paused → result = none)
  passed : e.Passed id worlds

theorem Taken.stands (h : e.Taken f id limit n t worlds σ w) : e.Stands f id (n + 1) t :=
  ⟨⟨t, h.own, fun _ => rfl, h.step⟩, w, h.world, h.here⟩

theorem Alone.cancel (h : e.Alone g id t worlds result c) :
    e.Alone (g.cancel id) id t worlds result true := by
  obtain ⟨hqueue, hsleepers⟩ := h.toLone.cancel
  exact ⟨⟨h.own, h.outcome, h.failure, h.refusals, h.archive⟩, hqueue, hsleepers⟩

/-- A run is stopped or paused from within, or the archive refuses it. Its loop is cancelled in any
case. -/
theorem Taken.react {r : Reaction} {status : SimulationStatus} (hr : Cuts r status)
    (h : e.Taken f id limit n t worlds σ w) :
    (f.react id r).2.Lone id true ∧ (e.Refused (f.react id r).2 ∨
      (f.react id r).1.isOk ∧ e.Halted (f.react id r).2 id (n + 1) status worlds) := by
  have halone := h.alone.cancel
  cases hr with
  | stop =>
    have hallowed : LifecycleAction.stop.allows t.status = true := by
      rw [h.status]
      rfl
    have hschedule := (steady_complete (f.cancel id) id).schedule
    unfold Engine.react reactionCall stopWithin
    rw [call_of_get? h.alone.own hallowed, call_bind, call_modify]
    dsimp only
    rcases halone.toKept.complete with ⟨g, hcall, hfinished⟩ | ⟨error, g, hcall, hrefused⟩
    · rw [hcall] at hschedule ⊢
      have hlone : g.Lone id true := halone.toLone.of_schedule hschedule
      obtain ⟨stamp, hkept⟩ := hfinished.kept
      refine ⟨hlone, .inr ⟨rfl, ⟨_, _, ⟨hkept, hlone⟩, ?_, rfl, nofun⟩, h.passed⟩⟩
      exact h.stands.of_realms hfinished.realms fun _ => rfl
    · rw [hcall] at hschedule ⊢
      exact ⟨halone.toLone.of_schedule hschedule, .inl hrefused⟩
  | pause =>
    have hallowed : LifecycleAction.pause.allows t.status = true := by
      rw [h.status]
      rfl
    unfold Engine.react reactionCall Engine.pause
    rw [call_of_get? h.alone.own hallowed, call_bind, call_modify]
    dsimp only
    rw [call_bind]
    rcases (f.cancel id).setStatus_cases id .paused with
      ⟨archive, hcall, hrun⟩ | ⟨error, archive, hcall⟩
    · rw [hcall]
      refine ⟨⟨halone.queue, halone.sleepers⟩, .inr ⟨rfl, ⟨{ t with status := .paused }, none,
        ⟨⟨?_, halone.outcome, halone.failure, halone.refusals, ?_⟩, halone.queue,
          halone.sleepers⟩, ?_, rfl, fun _ => rfl⟩, h.passed⟩⟩
      · simp [Engine.print, enter, alter, Table.get?_modify, halone.own]
      · exact halone.archive.setStatus hrun
      · exact h.stands.of_realms rfl fun _ => rfl
    · rw [hcall]
      exact ⟨⟨halone.queue, halone.sleepers⟩, .inl (by simp [Refused, halone.refusals])⟩

inductive Cut (e g : Engine) (id : String) (n m : Nat) : SimulationStatus → Prop
  | stopped (h : e.Completed g id n m) : Cut e g id n m .completed
  | paused (h : e.Parked g id n m) : Cut e g id n m .paused

theorem Halted.leave {r : Reaction} {status : SimulationStatus} (hr : Cuts r status)
    (h : e.Halted g id n status worlds) : e.Refused (g.leave id) ∨
      e.Cut (g.leave id) id n worlds.length status := by
  obtain ⟨t, result, halone, hstands, hstatus, hresult⟩ := h.alone
  cases hr with
  | stop =>
    have hrunning : t.status ≠ .paused := by
      rw [hstatus]
      decide
    rcases halone.toKept.leave hrunning with hfinished | hrefused
    · exact .inr (.stopped (hstands.completed hfinished rfl h.passed))
    · exact .inl hrefused
  | pause =>
    obtain ⟨_, hfind⟩ := halone.toLone.find
    have hleave := leave_paused halone.toKept.runner hstatus (by rw [hfind]; rfl)
    obtain rfl := hresult rfl
    rw [hleave]
    refine .inr (.paused ⟨t, worlds, ?_, hstatus, hstands.of_realms rfl fun _ => rfl, rfl,
      h.passed⟩)
    exact ⟨halone.own, halone.outcome, halone.failure, halone.refusals, halone.archive⟩

theorem Halted.conclude {r : Reaction} {status : SimulationStatus} (hr : Cuts r status)
    (h : e.Halted g id (n + 1) status worlds) (hid : s.id = id)
    (hworld : (e.afterSteps id (n + 1)).arena.world? id = some w) (hcount : worlds.length = n)
    (hstep : σ.step = n + 1) (hover : σ.terminal = (e.afterSteps id (n + 1)).isOver id) :
    e.Refused (g.conclude s σ w) ∨
      e.Cut (g.conclude s σ w) id (n + 1) (e.archivedWith id n) status := by
  obtain ⟨t, result, halone, hstands, hstatus, hresult⟩ := h.alone
  unfold archivedWith
  rw [← hover]
  cases hσ : σ.terminal with
  | true =>
    obtain ⟨message, heq⟩ := conclude_over hid hσ w
    have hhalted : e.Halted (g.print .info message) id (n + 1) status worlds :=
      ⟨⟨t, result, halone.print .info message, hstands.of_realms rfl fun _ => rfl, hstatus, hresult⟩,
        h.passed⟩
    rw [heq, if_pos rfl, ← hcount]
    rw [← hcount] at hhalted
    exact hhalted.leave hr
  | false =>
    rw [if_neg Bool.false_ne_true]
    rcases halone.conclude hid hσ (by rw [hstep, hcount]) w with ⟨archive, heq, hkept⟩ | hrefused
    · have hhalted : e.Halted { g with archive } id (n + 1) status (worlds ++ [w]) :=
        ⟨⟨t, result, hkept, hstands.of_realms rfl fun _ => rfl, hstatus, hresult⟩,
          h.passed.snoc (by rw [hcount]; exact hworld)⟩
      have hleave := hhalted.leave hr
      rw [List.length_append, hcount] at hleave
      rw [heq, hkept.toLone.rest_cancelled hid]
      exact hleave
    · exact .inl hrefused.2

theorem Lone.loops_conclude (h : g.Lone id true) (hid : s.id = id) (σ : StepSummary) (w : World) :
    (g.conclude s σ w).schedule.loops = [] := by
  cases hσ : σ.terminal with
  | true =>
    obtain ⟨message, heq⟩ := conclude_over hid hσ w
    have hlone : (g.print .info message).Lone id true := h.of_schedule rfl
    rw [heq]
    exact hlone.loops_leave
  | false =>
    rw [conclude_archives hid hσ]
    rcases @call_store g (Archive.saveSnapshot id σ.step w) with
      ⟨archive, hstore, -⟩ | ⟨error, archive, hstore⟩
    · have hlone : ({ g with archive } : Engine).Lone id true := h.of_schedule rfl
      rw [hstore]
      dsimp only
      rw [hlone.rest_cancelled hid]
      exact hlone.loops_leave
    · have hlone : ({ g with archive, refusals := g.refusals ++ [error] } : Engine).Lone id true :=
        h.of_schedule rfl
      rw [hstore]
      exact hlone.loops_breakOff _

theorem Taken.seen (h : e.Taken f id limit n t worlds σ w) :
    e.Taken { f with summaries := f.summaries ++ [(id, σ)] } id limit n t worlds σ w := by
  refine ⟨?_, h.noted, h.named, h.status, h.step, h.limited, h.within, h.counted, h.ended, h.returns,
    h.goes, h.world, h.count, h.passed⟩
  obtain ⟨schedule, archive, summaries, hbeside⟩ := h.beside
  exact ⟨schedule, archive, _, by rw [hbeside]⟩

theorem reactAll_single (g : Engine) (id : String) (w : World) (r : Reaction) :
    (∃ f, g.react id r = (.ok (), f) ∧
      g.reactAll id w [r] = ((f.arena.world? id).getD w, f)) ∨
      ∃ error world f message, g.react id r = (.error error, f) ∧
        g.reactAll id w [r] = (world, f.print .error message) := by
  unfold reactAll
  generalize g.react id r = reacted
  obtain ⟨result, f⟩ := reacted
  cases result with
  | ok => exact .inl ⟨f, rfl, rfl⟩
  | error error => exact .inr ⟨error, _, f, _, rfl, rfl⟩

theorem Taken.cut {r : Reaction} {status : SimulationStatus} (hr : Cuts r status)
    (h : e.Taken f id limit n t worlds σ w) (hid : s.id = id)
    (hheard : f.listener id σ.step = [r]) : (f.afterStep s σ).schedule.loops = [] ∧
      (e.Refused (f.afterStep s σ) ∨
        e.Cut (f.afterStep s σ) id (n + 1) (e.archivedWith id n) status) := by
  obtain rfl := hid
  obtain ⟨hlone, hreact⟩ := h.seen.react hr
  have hhere : (f.arena.world? s.id).getD (.empty 0) = w := by
    rw [h.here]
    rfl
  rcases reactAll_single { f with summaries := f.summaries ++ [(s.id, σ)] } s.id w r with
    ⟨g, hcall, hall⟩ | ⟨error, world, g, message, hcall, hall⟩
  · rw [hcall] at hlone hreact
    dsimp only at hlone hreact
    rw [← hhere, ← hheard] at hall
    rw [afterStep_eq hall, hhere]
    refine ⟨hlone.loops_conclude rfl _ _, ?_⟩
    rcases hreact with hrefused | ⟨-, hhalted⟩
    · exact .inl (hrefused.trans (touches_conclude _ s σ _).refusals)
    · have hworld : g.arena.world? s.id = some w := by
        obtain ⟨_, _, -, ⟨-, v, hv, hhere⟩, -⟩ := hhalted.alone
        exact hhere.trans (hv.symm.trans h.world)
      rw [hworld]
      exact hhalted.conclude hr rfl h.world h.count h.counted h.ended
  · rw [hcall] at hlone hreact
    have hprinted : (g.print .error message).Lone s.id true := hlone.of_schedule rfl
    rw [← hhere, ← hheard] at hall
    rw [afterStep_eq hall]
    refine ⟨hprinted.loops_conclude rfl _ _, .inl ?_⟩
    rcases hreact with hrefused | ⟨hok, -⟩
    · have hsame : e.Refused (g.print .error message) := hrefused
      exact hsame.trans (touches_conclude _ s σ _).refusals
    · cases hok

/-- How far a run has come whose listener heeds one step only. -/
inductive Early (e : Engine) (id : String) (limit : Int) (n : Nat) (status : SimulationStatus)
    (g : Engine) : Prop
  | running {k : Nat} {s : Simulation} {worlds : List World} (hk : k ≤ n)
      (h : e.Running g id limit k s worlds) (hsolo : g.Solo id)
  | cut (hloops : g.schedule.loops = [])
      (h : e.Cut g id (n + 1) (e.archivedWith id n) status)
  | refused (hloops : g.schedule.loops = []) (h : e.Refused g)

theorem Cut.shuffle {status : SimulationStatus} {schedule : Schedule} (h : e.Cut g id n m status) :
    e.Cut { g with schedule } id n m status := by
  cases h with
  | stopped h => exact .stopped ⟨h.own, h.steps, h.snapshots⟩
  | paused h =>
    obtain ⟨t, worlds, hkept, hstatus, hstands, hcount, hpassed⟩ := h.own
    refine .paused ⟨t, worlds, ?_, hstatus, hstands.of_realms rfl fun _ => rfl, hcount, hpassed⟩
    exact ⟨hkept.own, hkept.outcome, hkept.failure, hkept.refusals, hkept.archive⟩

variable {s₀ : Simulation} {r : Reaction} {status : SimulationStatus} {phase : LoopPhase}

theorem Running.act_early (hready : e.Ready id s₀) (hr : Cuts r status)
    (hquiet : ∀ k ≠ n + 1, e.listener id k = []) (hheard : e.listener id (n + 1) = [r])
    (hreach : e.Reaches id n) (hn : (n : Int) < limit) (hm : m ≤ n)
    (h : e.Running g id limit m s worlds)
    (hq : g.schedule.queue = [⟨id, false, false, phase⟩]) (hasleep : g.schedule.sleepers = []) :
    e.Early id limit n status (g.act ⟨id, false, false, phase⟩) := by
  obtain ⟨hgoes, hlast⟩ := hreach
  obtain ⟨τ, hreturns⟩ : ∃ τ, (e.afterSteps id m).nextStep? id = some (.ok τ) := by
    rcases Nat.lt_or_eq_of_le hm with hlt | rfl
    · exact (hgoes m hlt).1
    · exact hlast
  rcases h.act_cases hready hq hasleep with
    ⟨hlimit, hact⟩ | ⟨error, f, t, hc, herror, hact, halone, hstep⟩ | ⟨σ, f, t, w, hact, htaken⟩
  · omega
  · rw [hreturns] at herror
    cases herror
  · have hlistener : f.listener id σ.step = e.listener id (m + 1) := by
      obtain ⟨schedule, archive, summaries, rfl⟩ := htaken.beside
      obtain ⟨hlistener, -⟩ := e.afterSteps_kept id (m + 1)
      rw [htaken.counted]
      exact congrFun (congrFun hlistener id) (m + 1)
    rw [hact]
    rcases Nat.lt_or_eq_of_le hm with hlt | rfl
    · have hσ : σ.terminal = false := htaken.ended.trans (hgoes m hlt).2
      rcases htaken.next h.named (hlistener.trans (hquiet _ (by omega))) hσ with
        ⟨hnext, hsolo⟩ | ⟨hloops, hrefused⟩
      · exact .running hlt hnext hsolo
      · exact .refused hloops hrefused
    · obtain ⟨hloops, hrefused | hcut⟩ := htaken.cut hr h.named (hlistener.trans hheard)
      · exact .refused hloops hrefused
      · exact .cut hloops hcut

theorem Ready.passes_early (hready : e.Ready id s₀) (hsolo : e.Solo id) (hr : Cuts r status)
    (hquiet : ∀ k ≠ n + 1, e.listener id k = []) (hheard : e.listener id (n + 1) = [r])
    (hreach : e.Reaches id n) (hn : (n : Int) < s₀.maxSteps) (hf : Passes e f) :
    e.Early id s₀.maxSteps n status f := by
  refine @Passes.solo e f id (e.Early id s₀.maxSteps n status) hf
    (.running (Nat.zero_le n) hready.running hsolo) (fun g hg => ?_)
    (fun g schedule hg hperm => ?_) fun g phase hg hone hq hasleep => ?_
  · cases hg with
    | running hk h hsolo => exact .inr hsolo
    | cut hloops h => exact .inl hloops
    | refused hloops h => exact .inl hloops
  · cases hg with
    | running hk h hsolo => exact .running hk (h.shuffle schedule) (hsolo.shuffle hperm)
    | cut hloops h => exact .cut (loops_shuffle hloops hperm) h.shuffle
    | refused hloops h => exact .refused (loops_shuffle hloops hperm) h
  · cases hg with
    | running hk h => exact h.act_early hready hr hquiet hheard hreach hn hk hq hasleep
    | cut hloops h => exact absurd hloops hone.loops_ne
    | refused hloops h => exact absurd hloops hone.loops_ne

theorem Ready.await_early (hready : e.Ready id s₀) (ho : e.Orderly) (hsolo : e.Solo id)
    (hr : Cuts r status) (hquiet : ∀ k ≠ n + 1, e.listener id k = [])
    (hheard : e.listener id (n + 1) = [r]) (hreach : e.Reaches id n)
    (hn : (n : Int) < s₀.maxSteps) :
    e.Refused (e.awaitLoop id) ∨ (e.awaitLoop id).schedule.loops = [] ∧
      e.Cut (e.awaitLoop id) id (n + 1) (e.archivedWith id n) status := by
  have hended := ho.awaitLoop_ends id
  cases hready.passes_early hsolo hr hquiet hheard hreach hn (passes_awaitLoop e id) with
  | running hk h hsolo =>
    rw [solo_of_pending hsolo] at hended
    cases hended
  | cut hloops h => exact .inr ⟨hloops, h⟩
  | refused hloops h => exact .inl h

/-- A paused run without a loop that is stopped is completed. -/
theorem Parked.stop (h : e.Parked g id n m) (hloops : g.schedule.loops = []) :
    e.Refused (g.perform (.stop id)).2 ∨ (g.perform (.stop id)).1 = .ok () ∧
      e.Completed (g.perform (.stop id)).2 id n m := by
  obtain ⟨t, worlds, hkept, hstatus, hstands, hcount, hpassed⟩ := h.own
  have hallowed : LifecycleAction.stop.allows t.status = true := by
    rw [hstatus]
    rfl
  let marked := g.markStopping id
  have hmarked : e.Kept marked id t worlds none :=
    ⟨hkept.own, hkept.outcome, hkept.failure, hkept.refusals, hkept.archive⟩
  have hidle : marked.awaitLoop id = marked := by
    have hnone : marked.schedule.loops = [] := by
      obtain ⟨hq, hs⟩ := List.append_eq_nil_iff.mp hloops
      have hs' := List.map_eq_nil_iff.mp hs
      simp [marked, markStopping, reschedule, Schedule.alter, Schedule.cancel, Schedule.rouse,
        Schedule.loops, hq, hs']
    unfold awaitLoop
    rw [pending, Schedule.pending, Schedule.find?, hnone]
    rfl
  have hlive : marked.isLive id = true := by
    rw [isLive, hmarked.own, Option.any_some, hstatus]
    rfl
  have hstop : g.perform (.stop id) = marked.call (complete id) := by
    unfold perform LifecycleCall.task Engine.stop
    dsimp only
    rw [call_of_get? hkept.own hallowed, call_bind, call_modify]
    dsimp only
    rw [call_bind, call_await, hidle, hmarked.failure]
    dsimp only
    rw [call_bind, call_get]
    dsimp only
    rw [hlive]
    rfl
  rw [hstop]
  rcases hmarked.complete with ⟨f, hcall, hfinished⟩ | ⟨error, f, hcall, hrefused⟩
  · rw [hcall]
    refine .inr ⟨rfl, ?_⟩
    have hstands' : e.Stands marked id n t := hstands.of_realms rfl fun _ => rfl
    exact hstands'.completed hfinished hcount hpassed
  · rw [hcall]
    exact .inl hrefused

theorem Reaches.completed (h : e.Reaches id n) {ending : Ending}
    (hholds : ending.Holds e id (n + 1 : Nat)) (houtcome : ending.Outcome e g id (n + 1 : Nat)) :
    e.Completed g id (n + 1) (e.archivedWith id n) := by
  obtain ⟨hgoes, hlast⟩ := h
  unfold archivedWith
  cases hover : (e.afterSteps id (n + 1)).isOver id with
  | true =>
    have hterminal : (Ending.terminal n).Holds e id (n + 1 : Nat) :=
      ⟨by omega, hgoes, hlast, hover⟩
    obtain rfl := hholds.unique hterminal
    exact houtcome
  | false =>
    have hbudget : Ending.budget.Holds e id (n + 1 : Nat) := by
      intro k hk
      rcases Nat.lt_succ_iff_lt_or_eq.mp (Int.ofNat_lt.mp hk) with hlt | rfl
      · exact hgoes k hlt
      · exact ⟨hlast, hover⟩
    obtain rfl := hholds.unique hbudget
    exact houtcome

structure Beside (id : String) (e f : Engine) : Prop extends e.Alike f where
  own : ∃ s t, e.simulations.get? id = some s ∧ f.simulations.get? id = some t ∧ s.Alike t ∧
    s.id = id

namespace Beside

theorem nextStep? (h : Beside id e f) : f.nextStep? id = e.nextStep? id := by
  obtain ⟨s, t, hs, ht, hst, -⟩ := h.own
  obtain ⟨arena, arena', g, -, -, -, hstep⟩ := h.toAlike.step hst
  rw [nextStep?_eq hs, nextStep?_eq ht, hstep]

theorem afterSteps (h : Beside id e f) (n : Nat) :
    Beside id (e.afterSteps id n) (f.afterSteps id n) := by
  induction n with
  | zero => exact h
  | succ n ih =>
    obtain ⟨s, t, hs, ht, hst, hid⟩ := ih.own
    obtain ⟨arena, arena', g, harena, hg, hstep, hstep'⟩ := ih.toAlike.step hst
    rw [afterSteps_succ hs, afterSteps_succ ht, hstep, hstep', hid]
    refine ⟨⟨ih.settings, ih.specifications, harena⟩, g s, g t, ?_, ?_, hg s t hst, ?_⟩
    · simp [stepped, alter, Table.get?_modify, hs]
    · simp [stepped, alter, Table.get?_modify, ht]
    · obtain ⟨u, hu, huid, -⟩ := step_own hs hid
      have hown : ((e.afterSteps id n).stepped id arena g).simulations.get? id = some (g s) := by
        simp [stepped, alter, Table.get?_modify, hs]
      rw [hstep, hid, hown] at hu
      rw [Option.some.inj hu]
      exact huid

theorem world? (h : Beside id e f) : f.arena.world? id = e.arena.world? id := h.arena.world? id

theorem isOver (h : Beside id e f) : f.isOver id = e.isOver id := by
  rw [Engine.isOver, h.world?]
  rfl

theorem goesOn (h : Beside id e f) {k : Nat} (hk : e.GoesOn id k) : f.GoesOn id k := by
  obtain ⟨hreturns, hover⟩ := hk
  rw [← (h.afterSteps k).nextStep?] at hreturns
  rw [← (h.afterSteps (k + 1)).isOver] at hover
  exact ⟨hreturns, hover⟩

theorem reaches (h : Beside id e f) (hreach : e.Reaches id n) : f.Reaches id n := by
  obtain ⟨hgoes, hlast⟩ := hreach
  rw [← (h.afterSteps n).nextStep?] at hlast
  exact ⟨fun k hk => h.goesOn (hgoes k hk), hlast⟩

theorem archivedWith (h : Beside id e f) (n : Nat) : f.archivedWith id n = e.archivedWith id n := by
  rw [Engine.archivedWith, (h.afterSteps (n + 1)).isOver]
  rfl

end Beside

/-- Two runs of a simulation were completed after the same steps, with the same world, the same
result and the same snapshots. How many steps it might take and the time of its end may differ. -/
structure SameEnd (id : String) (n : Nat) (e f : Engine) : Prop where
  outcome : ∃ s t w, e.simulations.get? id = some s ∧ f.simulations.get? id = some t ∧
    s.status = .completed ∧ s.currentStep = n ∧
    t = { s with maxSteps := t.maxSteps, completedAt := t.completedAt } ∧
    e.arena.world? id = some w ∧ f.arena.world? id = some w ∧
    e.results.get? id = some (s.result w) ∧
    f.results.get? id = some { s.result w with simulation := t } ∧
    e.archive.result? id = .ok (some (e.archive.keptResult (s.result w))) ∧
    f.archive.result? id = .ok (some (f.archive.keptResult { s.result w with simulation := t }))
  archived : ∃ m, e.archive.steps id = .ok (firstSteps m) ∧
    f.archive.steps id = .ok (firstSteps m) ∧ ∀ k < m, ∃ w,
      e.archive.snapshot? id (k + 1 : Nat) = .ok (some (e.archive.kept w)) ∧
      f.archive.snapshot? id (k + 1 : Nat) = .ok (some (f.archive.kept w))

theorem Beside.sameEnd {e' g' : Engine} (h : Beside id e e') (hg : e.Completed g id n m)
    (hg' : e'.Completed g' id n m) : SameEnd id n g g' := by
  obtain ⟨s, p, w, stamp, hs, hw, hp, hpw, hsp, hstep, hresult, harchived⟩ := hg.own
  obtain ⟨t, q, v, stamp', ht, hv, hq, hqv, htq, hstep', hresult', harchived'⟩ := hg'.own
  obtain ⟨u, u', hu, hu', halike, -⟩ := (h.afterSteps n).own
  obtain rfl : u = p := Option.some.inj (hu.symm.trans hp)
  obtain rfl : u' = q := Option.some.inj (hu'.symm.trans hq)
  obtain rfl : v = w := by
    have hworld := (h.afterSteps n).world?
    rw [hpw, hqv] at hworld
    exact Option.some.inj hworld
  have hsame : t = { s with maxSteps := t.maxSteps, completedAt := t.completedAt } := by
    obtain ⟨status, maxSteps, rfl⟩ := halike
    rw [hsp, htq]
    rfl
  have hdone : t.result v = { s.result v with simulation := t } := by
    rw [hsame]
    rfl
  rw [hdone] at hresult' harchived'
  refine ⟨⟨s, t, v, hs, ht, by rw [hsp]; rfl, hstep, hsame, hw, hv, hresult, hresult', harchived,
    harchived'⟩, m, hg.steps, hg'.steps, fun k hk => ?_⟩
  obtain ⟨x, hx, hsnapshot⟩ := hg.snapshots k hk
  obtain ⟨y, hy, hsnapshot'⟩ := hg'.snapshots k hk
  obtain rfl : y = x := by
    have hworld := (h.afterSteps (k + 1)).world?
    rw [hx, hy] at hworld
    exact Option.some.inj hworld
  exact ⟨y, hsnapshot, hsnapshot'⟩

/-- A created simulation, and the same in another engine in which it may take so many steps. -/
structure Capped (e e' : Engine) (id : String) (s : Simulation) (limit : Nat) : Prop where
  fresh : e.Fresh id s
  capped : e'.Fresh id { s with maxSteps := limit }
  alike : e.Alike e'

theorem Capped.launched {e' : Engine} (h : e.Capped e' id s n) (archive archive' : Archive) :
    Beside id (e.launched id archive) (e'.launched id archive') := by
  have hclock : e'.tick.1 = e.tick.1 := by
    obtain ⟨_, ⟨lines, rfl⟩, harena⟩ := h.alike.arena
    rw [tick, harena]
    rfl
  refine ⟨⟨h.alike.settings, h.alike.specifications, ?_⟩, _, _, h.fresh.own_launched archive,
    h.capped.own_launched archive', ?_, h.fresh.named⟩
  · obtain ⟨_, ⟨lines, rfl⟩, harena⟩ := h.alike.arena
    simp only [Engine.launched, Engine.print, spawn, enter, noteStart, alter, tick, harena]
    exact ⟨_, ⟨_, rfl⟩, rfl⟩
  · rw [hclock]
    exact ⟨_, _, rfl⟩

theorem Capped.ran {e' : Engine} (h : e.Capped e' id s (n + 1)) {archive : Archive}
    (hrecord : e'.archive.OnlyRecord id) (hreach : (e.launched id archive).Reaches id n) (hsilent : ∀ k, e'.listener id k = []) :
    e'.Refused (e'.ran id) ∨ ∃ archive', (e'.launched id archive').Completed (e'.ran id) id (n + 1)
      ((e.launched id archive).archivedWith id n) := by
  have hrun := run_refines_iteration h.capped hsilent hrecord
  rcases start_cases h.capped.own h.capped.status with
    ⟨archive', hstart, -⟩ | ⟨error, archive', hstart⟩
  · have hbeside := h.launched archive archive'
    rcases hrun with hrefused | ⟨-, -, ending, hholds, houtcome, -⟩
    · exact .inl hrefused
    · rw [hstart] at hholds houtcome
      have hcompleted := (hbeside.reaches hreach).completed hholds houtcome
      rw [hbeside.archivedWith] at hcompleted
      have hran : e'.ran id = ((e'.launched id archive').perform (.wait id)).2 := by
        rw [Engine.ran, hstart]
      rw [hran]
      exact .inr ⟨archive', hcompleted⟩
  · rcases hrun with hrefused | ⟨hok, -⟩
    · exact .inl hrefused
    · rw [hstart] at hok
      cases hok

theorem Fresh.ran_cut {r : Reaction} {status : SimulationStatus} (h : e.Fresh id s)
    (hrecord : e.archive.OnlyRecord id) (hr : Cuts r status) (hn : (n : Int) < s.maxSteps)
    (hreach : (e.perform (.start id)).2.Reaches id n) (hquiet : ∀ k ≠ n + 1, e.listener id k = [])
    (hheard : e.listener id (n + 1) = [r]) :
    e.Refused (e.ran id) ∨ ∃ archive, e.perform (.start id) = (.ok (), e.launched id archive) ∧
      (e.ran id).schedule.loops = [] ∧
      (e.launched id archive).Cut (e.ran id) id (n + 1)
        ((e.launched id archive).archivedWith id n) status := by
  have ho : (e.perform (.start id)).2.Orderly := h.orderly.follow (h.orderly.course (.start id))
  rcases start_cases h.own h.status with ⟨archive, hstart, hrun⟩ | ⟨error, archive, hstart⟩
  · rw [hstart] at ho hreach
    rw [ran_eq hstart (h.own_launched archive)]
    rcases (h.ready_launched hrecord hrun).await_early ho (h.solo_launched archive) hr hquiet hheard
      hreach hn with hrefused | ⟨hloops, hcut⟩
    · exact .inl hrefused
    · exact .inr ⟨archive, hstart, hloops, hcut⟩
  · left
    have hrefused : e.Refused (e.perform (.start id)).2 := by
      rw [hstart]
      simp [Refused]
    exact hrefused.trans (ho.extends (ho.course (.wait id))).refusals

/-- A run that its listener stops after a step, or pauses there and that is stopped once its loop
has ended, ends as the run that may take no more steps, unless the archive refuses something. -/
theorem stop_is_smaller_budget {e' : Engine} (h : e.Capped e' id s (n + 1))
    (hrecord : e.archive.OnlyRecord id) (hrecord' : e'.archive.OnlyRecord id)
    (hn : (n : Int) < s.maxSteps) (hreach : (e.perform (.start id)).2.Reaches id n)
    (hquiet : ∀ k ≠ n + 1, e.listener id k = []) (hsilent : ∀ k, e'.listener id k = []) :
    (e.listener id (n + 1) = [.stop] →
      e.Refused (e.ran id) ∨ e'.Refused (e'.ran id) ∨ SameEnd id (n + 1) (e.ran id) (e'.ran id)) ∧
    (e.listener id (n + 1) = [.pause] →
      let stopped := (e.ran id).perform (.stop id)
      e.Refused stopped.2 ∨ e'.Refused (e'.ran id) ∨
        stopped.1 = .ok () ∧ SameEnd id (n + 1) stopped.2 (e'.ran id)) := by
  constructor
  · intro hstop
    rcases h.fresh.ran_cut hrecord .stop hn hreach hquiet hstop with
      hrefused | ⟨archive, hstart, -, hcut⟩
    · exact .inl hrefused
    · rw [hstart] at hreach
      cases hcut with
      | stopped hcompleted =>
        rcases h.ran hrecord' hreach hsilent with hrefused | ⟨archive', hcompleted'⟩
        · exact .inr (.inl hrefused)
        · exact .inr (.inr ((h.launched archive archive').sameEnd hcompleted hcompleted'))
  · intro hpause stopped
    have ho : (e.ran id).Orderly := by
      have hstarted := h.fresh.orderly.follow (h.fresh.orderly.course (.start id))
      exact hstarted.follow (hstarted.course (.wait id))
    rcases h.fresh.ran_cut hrecord .pause hn hreach hquiet hpause with
      hrefused | ⟨archive, hstart, hloops, hcut⟩
    · exact .inl (hrefused.trans (ho.extends (ho.course (.stop id))).refusals)
    · rw [hstart] at hreach
      cases hcut with
      | paused hparked =>
        rcases hparked.stop hloops with hrefused | ⟨hok, hcompleted⟩
        · exact .inl hrefused
        · rcases h.ran hrecord' hreach hsilent with hrefused | ⟨archive', hcompleted'⟩
          · exact .inr (.inl hrefused)
          · exact .inr (.inr ⟨hok, (h.launched archive archive').sameEnd hcompleted hcompleted'⟩)

def withListener (e : Engine) (listener : String → Nat → List Reaction) : Engine :=
  { e with listener }

theorem Orderly.capped_created (h : e.Orderly) (hidle : e.schedule.loops = [])
    {listener : String → Nat → List Reaction} {specification : String} {o : SimulationOptions}
    {limit : Nat} (hcall : (e.withListener listener).call (createSimulation specification o) =
      (.ok id, f))
    (hcall' : e.call (createSimulation specification { o with maxSteps := some limit }) =
      (.ok id, g))
    (hresult : e.results.get? id = none) :
    ∃ s, f.Capped g id s limit ∧ s.maxSteps = o.maxSteps.elim e.settings.maxSteps Int.ofNat ∧
      f.listener = listener ∧ g.listener = e.listener := by
  have hheard : (e.withListener listener).Orderly :=
    ⟨h.filed, h.attached, h.single, h.driven, h.brief, h.known, h.noted⟩
  obtain ⟨s, hs, hmax, hlistener⟩ := hheard.fresh_created hidle hcall hresult
  obtain ⟨t, ht, -, hlistener'⟩ := h.fresh_created hidle hcall' hresult
  obtain ⟨spec, archive, message, hspec, rfl, -, rfl⟩ := call_create_ok hcall
  obtain ⟨spec', archive', message', hspec', hid, -, rfl⟩ := call_create_ok hcall'
  obtain rfl : spec' = spec := Option.some.inj (hspec'.symm.trans hspec)
  let named := (e.addSimulation specification spec'.program o).1
  have hown : s = named := by
    have hput : (e.simulations.put named.id named).get? named.id = some named :=
      (Table.get?_put _ _ _ _).trans (if_pos rfl)
    exact Option.some.inj (hs.own.symm.trans hput)
  have hown' : t = { named with maxSteps := limit } := by
    have hput : (e.simulations.put named.id { named with maxSteps := limit }).get? named.id =
        some { named with maxSteps := limit } := (Table.get?_put _ _ _ _).trans (if_pos rfl)
    exact Option.some.inj (ht.own.symm.trans hput)
  subst hown hown'
  refine ⟨named, ⟨hs, ht, ⟨rfl, rfl, ?_⟩⟩, hmax, hlistener, hlistener'⟩
  have hprinted (arena : Arena) (kind : LineKind) (message message' : String) :
      (arena.print kind message).Alike (arena.print kind message') := ⟨_, ⟨_, rfl⟩, rfl⟩
  exact hprinted _ _ _ _

def reactingTo (n : Nat) (r : Reaction) : String → Nat → List Reaction :=
  fun _ k => if k = n then [r] else []

def creating (e : Engine) (o : SimulationOptions) (limit : Nat) : Except CallError String × Engine :=
  e.call (createSimulation "spec" { o with maxSteps := some limit })

theorem capped_creating (listener : String → Nat → List Reaction) {o : SimulationOptions}
    {limit cap : Nat} (h : e.Orderly) (hidle : e.schedule.loops = [])
    (hnone : e.results.get? id = none)
    (hcall : (creating (e.withListener listener) o limit).1 = .ok id)
    (hcall' : (creating e o cap).1 = .ok id) :
    ∃ s, (creating (e.withListener listener) o limit).2.Capped (creating e o cap).2 id s cap ∧
      s.maxSteps = limit ∧ (creating (e.withListener listener) o limit).2.listener = listener ∧
      (creating e o cap).2.listener = e.listener :=
  h.capped_created hidle (Prod.fst_eq_iff.mp hcall) (Prod.fst_eq_iff.mp hcall') hnone

theorem returns_of_isOk (h : (e.nextStep? id).map (·.isOk) = some true) :
    ∃ σ, e.nextStep? id = some (.ok σ) := by
  obtain ⟨result, hresult, hok⟩ := Option.map_eq_some_iff.mp h
  cases result with
  | ok σ => exact ⟨σ, hresult⟩
  | error error => cases hok

theorem reaches_second (hfirst : (e.nextStep? id).map (·.isOk) = some true)
    (hgoes : (e.afterSteps id 1).isOver id = false)
    (hsecond : ((e.afterSteps id 1).nextStep? id).map (·.isOk) = some true) : e.Reaches id 1 := by
  refine ⟨fun k hk => ?_, returns_of_isOk hsecond⟩
  obtain rfl := Nat.lt_one_iff.mp hk
  exact ⟨returns_of_isOk hfirst, hgoes⟩

/-- Nothing is asked of a simulation but that it rests between its steps for no time. -/
def plain : SimulationOptions := ⟨none, none, none, some 0, none⟩

/-- A simulation of five steps whose second step is reacted to. -/
@[irreducible] def reacting (r : Reaction) : Engine :=
  (creating (chancy.withListener (reactingTo 2 r)) plain 5).2

@[irreducible] def twoSteps : Engine := (creating chancy plain 2).2

theorem capped_reacting {r : Reaction}
    (hcall : (creating (chancy.withListener (reactingTo 2 r)) plain 5).1 =
      .ok "sim_000000000001") :
    ∃ s, (reacting r).Capped twoSteps "sim_000000000001" s 2 ∧ s.maxSteps = 5 ∧
      (reacting r).listener = reactingTo 2 r ∧ twoSteps.listener = chancy.listener := by
  unfold reacting twoSteps
  have hcall' : (creating chancy plain 2).1 = .ok "sim_000000000001" := by decide +kernel
  obtain ⟨s, hs, hmax, hlistener⟩ :=
    capped_creating _ unused_chancy.regular.orderly rfl rfl hcall hcall'
  exact ⟨s, hs, hmax, hlistener⟩

/-- The simulation of five steps is stopped after two, or paused and then stopped. -/
theorem stop_is_smaller_budget_second :
    SameEnd "sim_000000000001" 2 ((reacting .stop).ran "sim_000000000001")
      (twoSteps.ran "sim_000000000001") ∧
    (((reacting .pause).ran "sim_000000000001").perform (.stop "sim_000000000001")).1 = .ok () ∧
    SameEnd "sim_000000000001" 2
      (((reacting .pause).ran "sim_000000000001").perform (.stop "sim_000000000001")).2
      (twoSteps.ran "sim_000000000001") := by
  have hnone : (twoSteps.ran "sim_000000000001").refusals = [] := by decide +kernel
  have hrecord' : twoSteps.archive.holdsOnlyRecord "sim_000000000001" = true := by decide +kernel
  constructor
  · obtain ⟨s, hs, hmax, hlistener, hsilent⟩ := @capped_reacting .stop (by decide +kernel)
    have hrecord : (reacting .stop).archive.holdsOnlyRecord "sim_000000000001" = true := by
      decide +kernel
    have hreach : ((reacting .stop).perform (.start "sim_000000000001")).2.Reaches
        "sim_000000000001" 1 :=
      reaches_second (by decide +kernel) (by decide +kernel) (by decide +kernel)
    have hkept : ((reacting .stop).ran "sim_000000000001").refusals = [] := by decide +kernel
    have hsame := (stop_is_smaller_budget hs (Archive.onlyRecord_of_holds hrecord)
      (Archive.onlyRecord_of_holds hrecord') (by rw [hmax]; decide) hreach
      (fun k hk => by rw [hlistener]; exact if_neg hk) fun k => by rw [hsilent]; rfl).1 (by rw [hlistener]; rfl)
    simpa [Refused, hnone, hkept] using hsame
  · obtain ⟨s, hs, hmax, hlistener, hsilent⟩ := @capped_reacting .pause (by decide +kernel)
    have hrecord : (reacting .pause).archive.holdsOnlyRecord "sim_000000000001" = true := by
      decide +kernel
    have hreach : ((reacting .pause).perform (.start "sim_000000000001")).2.Reaches
        "sim_000000000001" 1 :=
      reaches_second (by decide +kernel) (by decide +kernel) (by decide +kernel)
    have hkept : (((reacting .pause).ran "sim_000000000001").perform
        (.stop "sim_000000000001")).2.refusals = [] := by decide +kernel
    have hsame := (stop_is_smaller_budget hs (Archive.onlyRecord_of_holds hrecord)
      (Archive.onlyRecord_of_holds hrecord') (by rw [hmax]; decide) hreach
      (fun k hk => by rw [hlistener]; exact if_neg hk) fun k => by rw [hsilent]; rfl).2 (by rw [hlistener]; rfl)
    simpa [Refused, hnone, hkept] using hsame

/-- The largest number that can be written but for one digit. -/
def large : SimulationOptions :=
  { plain with initialState := some ⟨[], [("A", [("x", .int (10 ^ 4299))])]⟩ }

/-- A simulation of two steps that is stopped after the first, when its number has more digits than
can be written. -/
@[irreducible] def overgrowing : Engine :=
  (creating (filing.withListener (reactingTo 1 .stop)) large 2).2

@[irreducible] def overgrownOnce : Engine := (creating filing large 1).2

/-- A simulation that is stopped has a result even if that cannot be archived, but then its run ends
with an error, as the run of fewer steps does, which leaves no result. -/
theorem stop_is_not_smaller_budget :
    (∃ s, overgrowing.Capped overgrownOnce "sim_000000000001" s 1 ∧ s.maxSteps = 2 ∧
        overgrowing.listener = reactingTo 1 .stop ∧ overgrownOnce.listener = filing.listener) ∧
      overgrowing.archive.OnlyRecord "sim_000000000001" ∧
      overgrownOnce.archive.OnlyRecord "sim_000000000001" ∧
      (overgrowing.perform (.start "sim_000000000001")).2.Reaches "sim_000000000001" 0 ∧
      (overgrowing.ran "sim_000000000001").statusOf? "sim_000000000001" = some .error ∧
      ((overgrowing.ran "sim_000000000001").results.get? "sim_000000000001").isSome ∧
      (overgrownOnce.ran "sim_000000000001").statusOf? "sim_000000000001" = some .error ∧
      (overgrownOnce.ran "sim_000000000001").results.get? "sim_000000000001" = none := by
  have hcapped : ∃ s, overgrowing.Capped overgrownOnce "sim_000000000001" s 1 ∧ s.maxSteps = 2 ∧
      overgrowing.listener = reactingTo 1 .stop ∧ overgrownOnce.listener = filing.listener := by
    unfold overgrowing overgrownOnce
    have hcall : (creating (filing.withListener (reactingTo 1 .stop)) large 2).1 =
        .ok "sim_000000000001" := by decide +kernel
    have hcall' : (creating filing large 1).1 = .ok "sim_000000000001" := by decide +kernel
    obtain ⟨s, hs, hmax, hlistener⟩ :=
      capped_creating _ unused_filing.regular.orderly rfl rfl hcall hcall'
    exact ⟨s, hs, hmax, hlistener⟩
  have hrecord : overgrowing.archive.holdsOnlyRecord "sim_000000000001" = true := by decide +kernel
  have hrecord' : overgrownOnce.archive.holdsOnlyRecord "sim_000000000001" = true := by
    decide +kernel
  have hreturns : ((overgrowing.perform (.start "sim_000000000001")).2.nextStep?
      "sim_000000000001").map (·.isOk) = some true := by decide +kernel
  have hnone : ((overgrownOnce.ran "sim_000000000001").results.get?
      "sim_000000000001").isNone = true := by decide +kernel
  refine ⟨hcapped, Archive.onlyRecord_of_holds hrecord, Archive.onlyRecord_of_holds hrecord', ?_,
    by decide +kernel, by decide +kernel, by decide +kernel, Option.isNone_iff_eq_none.mp hnone⟩
  exact ⟨fun k hk => absurd hk (Nat.not_lt_zero k), returns_of_isOk hreturns⟩

end Engine

end StepWorld
