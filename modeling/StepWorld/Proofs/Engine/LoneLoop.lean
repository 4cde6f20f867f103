import StepWorld.Proofs.Engine.Iteration
import StepWorld.Proofs.Engine.Lone

/-! A loop that runs alone. As long as nobody interferes and the archive refuses nothing it takes the
steps of the plain iteration, archives the world after each of them, and ends as the iteration
does. -/

namespace StepWorld

namespace Engine

/-- A run was completed after `n` steps, and the first `m` of them were archived. It leaves what
the iteration leaves, and a result that says so. -/
structure Completed (e f : Engine) (id : String) (n m : Nat) : Prop where
  own : ∃ s p w stamp, f.simulations.get? id = some s ∧ f.arena.world? id = some w ∧
    (e.afterSteps id n).simulations.get? id = some p ∧
    (e.afterSteps id n).arena.world? id = some w ∧ s = p.completed stamp ∧ s.currentStep = n ∧
    f.results.get? id = some (s.result w) ∧
    f.archive.result? id = .ok (some (f.archive.keptResult (s.result w)))
  steps : f.archive.steps id = .ok (firstSteps m)
  snapshots : ∀ k < m, ∃ w, (e.afterSteps id (k + 1)).arena.world? id = some w ∧
    f.archive.snapshot? id (k + 1 : Nat) = .ok (some (f.archive.kept w))

/-- A run broke off with an error after some steps, and has no result. -/
structure Failed (e f : Engine) (id : String) (n : Nat) (error : StepError) : Prop where
  own : ∃ s, f.simulations.get? id = some s ∧ s.status = .error ∧ s.error = some error.message ∧
    (s.currentStep = n ∨
      s.currentStep = n + 1 ∧ error = .fault .longInteger ∧ (e.afterSteps id n).ShowsLongTime id)
  result : f.results.get? id = none
  archived : f.archive.result? id = .ok none

end Engine

def Ending.Outcome (e f : Engine) (id : String) (limit : Int) : Ending → Prop
  | .terminal n => e.Completed f id (n + 1) n
  | .budget => e.Completed f id limit.toNat limit.toNat
  | .failure n error => e.Failed f id n error

namespace Engine

variable {e f g : Engine} {id : String} {s t : Simulation} {worlds : List World}
  {result : Option SimulationResult} {limit : Int} {n m : Nat} {σ : StepSummary} {c : Bool}

/-- A simulation with a world, a record and a new loop. -/
structure Ready (e : Engine) (id : String) (s : Simulation) : Prop where
  kept : e.Kept e id s [] none
  named : s.id = id
  status : s.status = .running
  step : s.currentStep = 0
  world : (e.arena.world? id).isSome

def Passed (e : Engine) (id : String) (worlds : List World) : Prop :=
  ∀ k w, worlds[k]? = some w → (e.afterSteps id (k + 1)).arena.world? id = some w

theorem Passed.snoc {w : World} (h : e.Passed id worlds)
    (hw : (e.afterSteps id (worlds.length + 1)).arena.world? id = some w) :
    e.Passed id (worlds ++ [w]) := by
  intro k v hv
  by_cases hlt : k < worlds.length
  · rw [List.getElem?_append_left hlt] at hv
    exact h k v hv
  · rw [List.getElem?_append_right (Nat.not_lt.mp hlt), List.getElem?_singleton] at hv
    split at hv
    · obtain rfl : k = worlds.length := by omega
      cases hv
      exact hw
    · cases hv

/-- A run after some steps, none of which ended it. It stands where the iteration does, and the
worlds so far are archived. -/
structure Running (e g : Engine) (id : String) (limit : Int) (n : Nat) (s : Simulation)
    (worlds : List World) : Prop where
  beside : ∃ schedule archive summaries,
    g = { e.afterSteps id n with schedule, archive, summaries }
  kept : e.Kept g id s worlds none
  named : s.id = id
  status : s.status = .running
  step : s.currentStep = n
  limited : s.maxSteps = limit
  within : n ≤ limit.toNat
  goes : ∀ k < n, e.GoesOn id k
  count : worlds.length = n
  passed : e.Passed id worlds

theorem Running.own (h : e.Running g id limit n s worlds) :
    (e.afterSteps id n).simulations.get? id = some s := by
  obtain ⟨schedule, archive, summaries, rfl⟩ := h.beside
  exact h.kept.own

theorem Ready.running (h : e.Ready id s) : e.Running e id s.maxSteps 0 s [] :=
  ⟨⟨_, _, _, rfl⟩, h.kept, h.named, h.status, h.step, rfl, Nat.zero_le _, by simp, rfl,
    fun k w hw => by simp at hw⟩

/-- How far a run has come: it goes on, it has ended, or the archive has refused something. -/
inductive Stage (e : Engine) (id : String) (limit : Int) (g : Engine) : Prop
  | running {n : Nat} {s : Simulation} {worlds : List World}
      (h : e.Running g id limit n s worlds) (hsolo : g.Solo id)
  | ended (ending : Ending) (hloops : g.schedule.loops = []) (hfailure : g.failures.get? id = none)
      (hholds : ending.Holds e id limit) (houtcome : ending.Outcome e g id limit)
  | refused (hloops : g.schedule.loops = []) (h : e.Refused g)

theorem Finished.completed {p : Simulation} {w : World} (h : e.Finished g f id t worlds)
    (hp : (e.afterSteps id n).simulations.get? id = some p)
    (ht : ∀ stamp, t.completed stamp = p.completed stamp) (hstep : p.currentStep = n)
    (hw : (e.afterSteps id n).arena.world? id = some w) (hworld : g.arena.world? id = some w)
    (hcount : worlds.length = m) (hpassed : e.Passed id worlds) : e.Completed f id n m := by
  obtain ⟨stamp, hkept⟩ := h.kept
  have hoverall := hkept.outcome
  have harchived := hkept.archive.result?
  rw [hworld, Option.getD_some] at hoverall harchived
  refine ⟨⟨t.completed stamp, p, w, stamp, hkept.own, h.world.trans hworld, hp, hw, ht stamp, ?_,
    hoverall, harchived⟩, ?_, fun k hk => ?_⟩
  · rw [ht]
    exact hstep
  · rw [hkept.archive.steps, hcount]
  · have hget : worlds[k]? = some worlds[k] := List.getElem?_eq_getElem (hcount ▸ hk)
    exact ⟨worlds[k], hpassed k _ hget, hkept.archive.snapshot? hget⟩

structure Alone (e g : Engine) (id : String) (s : Simulation) (worlds : List World)
    (result : Option SimulationResult) (cancelled : Bool) : Prop
    extends e.Kept g id s worlds result, g.Lone id cancelled

namespace Alone

theorem breakOff (h : e.Alone g id s worlds none c) {error : StepError}
    (hholds : (Ending.failure n error).Holds e id limit)
    (hstep : s.currentStep = n ∨ s.currentStep = n + 1 ∧ error = .fault .longInteger ∧
      (e.afterSteps id n).ShowsLongTime id) :
    e.Stage id limit (g.breakOff id error.message) := by
  rcases h.toKept.breakOff error.message with ⟨stamp, hkept⟩ | hrefused
  · refine .ended (.failure n error) (h.loops_breakOff _) hkept.failure hholds ?_
    exact ⟨⟨_, hkept.own, rfl, rfl, hstep⟩, hkept.outcome, hkept.archive.result?⟩
  · exact .refused (h.loops_breakOff _) hrefused

theorem print (h : e.Alone g id t worlds result c) (kind : LineKind) (message : String) :
    e.Alone (g.print kind message) id t worlds result c :=
  ⟨⟨h.own, h.outcome, h.failure, h.refusals, h.archive⟩, h.queue, h.sleepers⟩

theorem conclude (h : e.Alone g id t worlds result c) (hid : s.id = id)
    (hσ : σ.terminal = false) (hstep : σ.step = worlds.length + 1) (world : World) :
    (∃ archive, g.conclude s σ world = { g with archive }.rest s ∧
      e.Alone { g with archive } id t (worlds ++ [world]) result c) ∨
      (g.conclude s σ world).schedule.loops = [] ∧ e.Refused (g.conclude s σ world) := by
  rw [conclude_archives hid hσ, hstep]
  rcases h.toKept.saveSnapshot world with ⟨archive, hstore, hkept⟩ | ⟨error, f, hstore, hs, hrefused⟩
  · rw [hstore]
    exact .inl ⟨archive, rfl, hkept, h.queue, h.sleepers⟩
  · rw [hstore]
    refine .inr ⟨?_, hrefused.trans (touches_breakOff f error.message).refusals⟩
    rw [schedule_breakOff, hs]
    exact h.loops_remove

end Alone

/-- A run whose next step has returned, before anybody hears of it. -/
structure Taken (e f : Engine) (id : String) (limit : Int) (n : Nat) (t : Simulation)
    (worlds : List World) (σ : StepSummary) (w : World) : Prop where
  beside : ∃ schedule archive summaries,
    f = { e.afterSteps id (n + 1) with schedule, archive, summaries }
  alone : e.Alone f id t worlds none false
  named : t.id = id
  status : t.status = .running
  step : t.currentStep = n + 1
  limited : t.maxSteps = limit
  within : (n : Int) < limit
  counted : σ.step = n + 1
  ended : σ.terminal = (e.afterSteps id (n + 1)).isOver id
  returns : ∃ σ, (e.afterSteps id n).nextStep? id = some (.ok σ)
  goes : ∀ k < n, e.GoesOn id k
  world : (e.afterSteps id (n + 1)).arena.world? id = some w
  count : worlds.length = n
  passed : e.Passed id worlds

theorem Taken.own {w : World} (h : e.Taken f id limit n t worlds σ w) :
    (e.afterSteps id (n + 1)).simulations.get? id = some t := by
  obtain ⟨schedule, archive, summaries, rfl⟩ := h.beside
  exact h.alone.own

theorem Taken.here {w : World} (h : e.Taken f id limit n t worlds σ w) :
    f.arena.world? id = some w := by
  obtain ⟨schedule, archive, summaries, rfl⟩ := h.beside
  exact h.world

theorem Taken.noted {w : World} (h : e.Taken f id limit n t worlds σ w) :
    e.Alone { f with summaries := f.summaries ++ [(id, σ)] } id t worlds none false :=
  ⟨⟨h.alone.own, h.alone.outcome, h.alone.failure, h.alone.refusals, h.alone.archive⟩,
    h.alone.queue, h.alone.sleepers⟩

theorem Taken.running {w : World} (h : e.Taken f id limit n t worlds σ w) : t.status ≠ .paused := by
  rw [h.status]
  decide

theorem Taken.unheard {w : World} (h : e.Taken f id limit n t worlds σ w) (hid : s.id = id)
    (hsilent : f.listener id σ.step = []) : f.afterStep s σ =
      { f with summaries := f.summaries ++ [(id, σ)] }.conclude s σ w := by
  obtain rfl := hid
  refine afterStep_eq ?_
  rw [hsilent, h.here]
  rfl

theorem Taken.next {w : World} (h : e.Taken f id limit n t worlds σ w) (hid : s.id = id)
    (hsilent : f.listener id σ.step = []) (hσ : σ.terminal = false) :
    (e.Running (f.afterStep s σ) id limit (n + 1) t (worlds ++ [w]) ∧
        (f.afterStep s σ).Solo id) ∨
      (f.afterStep s σ).schedule.loops = [] ∧ e.Refused (f.afterStep s σ) := by
  rw [h.unheard hid hsilent]
  have hstep : σ.step = worlds.length + 1 := h.counted.trans (by rw [h.count])
  rcases h.noted.conclude hid hσ hstep w with ⟨archive, heq, halone⟩ | hrefused
  · obtain ⟨schedule, hrest, hlone⟩ := halone.rest hid
    rw [heq, hrest]
    refine .inl ⟨⟨?_, ?_, h.named, h.status, h.step, h.limited, ?_, ?_, ?_, ?_⟩, hlone.solo⟩
    · obtain ⟨old, archived, summaries, hbeside⟩ := h.beside
      exact ⟨schedule, archive, f.summaries ++ [(id, σ)], by rw [hbeside]⟩
    · exact ⟨halone.own, halone.outcome, halone.failure, halone.refusals, halone.archive⟩
    · have hwithin := h.within
      omega
    · intro k hk
      rcases Nat.lt_succ_iff_lt_or_eq.mp hk with hlt | rfl
      · exact h.goes k hlt
      · exact ⟨h.returns, by rw [← h.ended, hσ]⟩
    · rw [List.length_append, h.count]
      rfl
    · refine h.passed.snoc ?_
      rw [h.count]
      exact h.world
  · exact .inr hrefused

theorem Taken.afterStep {w : World} (h : e.Taken f id limit n t worlds σ w) (hid : s.id = id)
    (hsilent : f.listener id σ.step = []) : e.Stage id limit (f.afterStep s σ) := by
  cases hσ : σ.terminal with
  | true =>
    obtain ⟨message, heq⟩ := conclude_over hid hσ w
    have halone := h.noted.print .info message
    rw [h.unheard hid hsilent, heq]
    rcases halone.toKept.leave h.running with hfinished | hrefused
    · obtain ⟨stamp, hkept⟩ := hfinished.kept
      refine .ended (.terminal n) halone.loops_leave hkept.failure ⟨h.within, h.goes, h.returns, ?_⟩ ?_
      · rw [← h.ended, hσ]
      · exact hfinished.completed h.own (fun _ => rfl) h.step h.world h.here h.count h.passed
    · exact .refused halone.loops_leave hrefused
  | false =>
    rcases h.next hid hsilent hσ with ⟨hnext, hsolo⟩ | ⟨hloops, hrefused⟩
    · exact .running hnext hsolo
    · exact .refused hloops hrefused

variable {phase : LoopPhase} {s₀ : Simulation}

theorem Running.alone (h : e.Running g id limit n s worlds)
    (hloops : g.schedule.queue = [⟨id, c, false, phase⟩]) (hasleep : g.schedule.sleepers = []) :
    e.Alone g id s worlds none c := ⟨h.kept, ⟨phase, hloops⟩, hasleep⟩

/-- In its turn the loop of a run takes a step, which breaks off or returns, or it is over. -/
theorem Running.act_cases (hready : e.Ready id s₀) (h : e.Running g id limit n s worlds)
    (hq : g.schedule.queue = [⟨id, false, false, phase⟩]) (hasleep : g.schedule.sleepers = []) :
    (limit ≤ n ∧ g.act ⟨id, false, false, phase⟩ = g.leave id) ∨
    (∃ error f t, (n : Int) < limit ∧ (e.afterSteps id n).nextStep? id = some (.error error) ∧
      g.act ⟨id, false, false, phase⟩ = f.breakOff id error.message ∧
      e.Alone f id t worlds none false ∧ (t.currentStep = n ∨ t.currentStep = n + 1 ∧
        error = .fault .longInteger ∧ (e.afterSteps id n).ShowsLongTime id)) ∨
    ∃ σ f t w, g.act ⟨id, false, false, phase⟩ = f.afterStep s σ ∧
      e.Taken f id limit n t worlds σ w := by
  have hkept := h.kept
  obtain ⟨schedule, archive, summaries, rfl⟩ := h.beside
  have hown := h.own
  unfold act
  dsimp only
  rw [hkept.runner]
  dsimp only
  by_cases hc : (n : Int) < limit
  · right
    have hcontinues : Loop.continues ⟨id, false, false, phase⟩ s = true :=
      Loop.continues_iff.mpr ⟨h.status, rfl, rfl, by rw [h.step, h.limited]; exact hc⟩
    rw [if_pos hcontinues, step_beside]
    obtain ⟨t, ht, htid, htstatus, htmax, hok, herr⟩ := step_own hown h.named
    rw [← afterSteps_succ hown] at ht
    -- The step leaves what is kept, and the loop where it stands.
    have halone : e.Alone { e.afterSteps id (n + 1) with schedule, archive, summaries } id t worlds
        none false := by
      obtain ⟨-, hresults, hfailures, hrefusals, -, -⟩ := e.afterSteps_kept id (n + 1)
      exact ⟨⟨ht, hresults ▸ hready.kept.outcome, hfailures ▸ hready.kept.failure, hrefusals,
        hkept.archive⟩, ⟨phase, hq⟩, hasleep⟩
    cases hresult : ((e.afterSteps id n).step s).1 with
    | error error =>
      have hcases := herr error hresult
      rw [h.step] at hcases
      refine .inl ⟨error, _, t, hc, by rw [nextStep?_eq hown, hresult], ?_, halone, hcases⟩
      rw [h.named, afterSteps_succ hown]
    | ok σ =>
      obtain ⟨hcount, hσ, hover⟩ := hok σ hresult
      obtain ⟨-, -, -, -, -, hworld⟩ := e.afterSteps_kept id (n + 1)
      obtain ⟨w, hw⟩ := Option.isSome_iff_exists.mp (hworld.trans hready.world)
      rw [← afterSteps_succ hown] at hover
      refine .inr ⟨σ, _, t, w, ?_, ⟨_, _, _, rfl⟩, halone, htid, htstatus.trans h.status, ?_,
        htmax.trans h.limited, hc, ?_, hover, ⟨σ, by rw [nextStep?_eq hown, hresult]⟩, h.goes, hw,
        h.count, h.passed⟩
      · rw [afterSteps_succ hown]
      · rw [hcount, h.step]
      · rw [hσ, h.step]
  · left
    refine ⟨Int.not_lt.mp hc, ?_⟩
    rw [if_neg, h.named]
    intro hcontinues
    have hlt := (Loop.continues_iff.mp hcontinues).2.2.2
    rw [h.step, h.limited] at hlt
    exact hc hlt

/-- One turn of the loop is one step of the iteration, or the end of the run. -/
theorem Running.act (hready : e.Ready id s₀) (h : e.Running g id limit n s worlds)
    (hsilent : e.listener id (n + 1) = [])
    (hq : g.schedule.queue = [⟨id, false, false, phase⟩]) (hasleep : g.schedule.sleepers = []) :
    e.Stage id limit (g.act ⟨id, false, false, phase⟩) := by
  rcases h.act_cases hready hq hasleep with
    ⟨hlimit, hact⟩ | ⟨error, f, t, hc, herror, hact, halone, hstep⟩ | ⟨σ, f, t, w, hact, htaken⟩
  · have hn : n = limit.toNat := by
      have hwithin := h.within
      omega
    have hrunning : s.status ≠ .paused := by
      rw [h.status]
      decide
    rw [hact]
    have hloops := (h.alone hq hasleep).loops_leave
    rcases h.kept.leave hrunning with hfinished | hrefused
    · obtain ⟨stamp, hkept⟩ := hfinished.kept
      obtain ⟨-, -, -, -, -, hworld⟩ := e.afterSteps_kept id n
      obtain ⟨w, hw⟩ := Option.isSome_iff_exists.mp (hworld.trans hready.world)
      have hhere : g.arena.world? id = some w := by
        obtain ⟨schedule, archive, summaries, rfl⟩ := h.beside
        exact hw
      refine .ended .budget hloops hkept.failure (fun k hk => h.goes k (by omega)) ?_
      change e.Completed _ id limit.toNat limit.toNat
      rw [← hn]
      exact hfinished.completed h.own (fun _ => rfl) h.step hw hhere h.count h.passed
    · exact .refused hloops hrefused
  · rw [hact]
    exact halone.breakOff ⟨hc, h.goes, herror⟩ hstep
  · rw [hact]
    refine htaken.afterStep h.named ?_
    obtain ⟨schedule, archive, summaries, rfl⟩ := htaken.beside
    obtain ⟨hlistener, -⟩ := e.afterSteps_kept id (n + 1)
    rw [htaken.counted]
    exact (congrFun (congrFun hlistener id) (n + 1)).trans hsilent

theorem Running.shuffle (h : e.Running g id limit n s worlds) (schedule : Schedule) :
    e.Running { g with schedule } id limit n s worlds := by
  obtain ⟨_, archive, summaries, rfl⟩ := h.beside
  refine ⟨⟨schedule, archive, summaries, rfl⟩, ?_, h.named, h.status, h.step, h.limited, h.within,
    h.goes, h.count, h.passed⟩
  exact ⟨h.kept.own, h.kept.outcome, h.kept.failure, h.kept.refusals, h.kept.archive⟩

theorem Stage.shuffle {schedule : Schedule} (h : e.Stage id limit g)
    (hperm : (schedule.loops.map Loop.core).Perm (g.schedule.loops.map Loop.core)) :
    e.Stage id limit { g with schedule } := by
  cases h with
  | running h hsolo => exact .running (h.shuffle schedule) (hsolo.shuffle hperm)
  | ended ending hloops hfailure hholds houtcome =>
    refine .ended ending (loops_shuffle hloops hperm) hfailure hholds ?_
    cases ending with
    | failure n error => exact ⟨houtcome.own, houtcome.result, houtcome.archived⟩
    | _ => exact ⟨houtcome.own, houtcome.steps, houtcome.snapshots⟩
  | refused hloops h => exact .refused (loops_shuffle hloops hperm) h

theorem Stage.loops (h : e.Stage id limit g) : g.schedule.loops = [] ∨ g.Solo id := by
  cases h with
  | running h hsolo => exact .inr hsolo
  | ended ending hloops => exact .inl hloops
  | refused hloops => exact .inl hloops

theorem Ready.passes {s₀ : Simulation} (hready : e.Ready id s₀) (hsolo : e.Solo id)
    (hsilent : ∀ n, e.listener id n = []) (hf : Passes e f) : e.Stage id s₀.maxSteps f := by
  refine hf.solo (.running hready.running hsolo) (fun g hg => hg.loops)
    (fun g schedule hg hperm => hg.shuffle hperm) fun g phase hg hone hq hasleep => ?_
  cases hg with
  | running h => exact h.act hready (hsilent _) hq hasleep
  | ended ending hloops => exact absurd hloops hone.loops_ne
  | refused hloops => exact absurd hloops hone.loops_ne

end Engine

end StepWorld
