import StepWorld.Proofs.Engine.Launch
import StepWorld.Proofs.Engine.LoneLoop

/-! A created simulation that is started and waited for. Its loop does what the plain iteration of
its steps does. -/

namespace StepWorld

namespace Engine

variable {e f g : Engine} {id : String} {s t : Simulation}

/-- A simulation that was created and has taken no step, while no loop is there. -/
structure Fresh (e : Engine) (id : String) (s : Simulation) : Prop where
  orderly : e.Orderly
  idle : e.schedule.loops = []
  own : e.simulations.get? id = some s
  status : s.status = .created
  step : s.currentStep = 0
  world : (e.arena.world? id).isSome
  result : e.results.get? id = none

theorem world_addSimulation (e : Engine) (specification : String) (program : Program)
    (o : SimulationOptions) : ((e.addSimulation specification program o).2.arena.world?
      (e.addSimulation specification program o).1.id).isSome := by
  let issued := e.tick.2.issue "sim"
  have hnew : ((issued.2.arena.create issued.1 program.entities).realms.get? issued.1).isSome := by
    rw [Arena.create, Table.get?_put, if_pos rfl]
    rfl
  unfold addSimulation
  simp only [Arena.world?, Option.isSome_map]
  cases o.initialState with
  | none => exact hnew
  | some initial =>
    exact ((advances_override (issued.2.arena.create issued.1 program.entities) issued.1
      initial).realms issued.1).trans hnew

theorem Orderly.fresh_created (h : e.Orderly) (hidle : e.schedule.loops = [])
    {specification : String} {o : SimulationOptions}
    (hcall : e.call (createSimulation specification o) = (.ok id, f))
    (hresult : e.results.get? id = none) :
    ∃ s, f.Fresh id s ∧ s.maxSteps = o.maxSteps.elim e.settings.maxSteps Int.ofNat ∧
      f.listener = e.listener := by
  obtain ⟨k, hk⟩ := doings_create e specification o
  have horderly : f.Orderly := by
    rw [hcall] at hk
    exact h.doings hk
  obtain ⟨spec, archive, message, -, rfl, -, rfl⟩ := call_create_ok hcall
  refine ⟨(e.addSimulation specification spec.program o).1, ⟨horderly, hidle, ?_, rfl, rfl, ?_,
    hresult⟩, rfl, rfl⟩
  · exact (Table.get?_put _ _ _ _).trans (if_pos rfl)
  · exact e.world_addSimulation specification spec.program o

namespace Fresh

theorem named (h : e.Fresh id s) : s.id = id := h.orderly.filed id s h.own

theorem own_launched (h : e.Fresh id s) (archive : Archive) :
    (e.launched id archive).simulations.get? id = some (s.launched e.tick.1) := by
  simp [launched, spawn, print, enter, noteStart, alter, tick, Table.get?_modify, h.own,
    Simulation.launched]

theorem solo_launched (h : e.Fresh id s) (archive : Archive) : (e.launched id archive).Solo id := by
  have hidle : ({ (e.noteStart id).enter id .running with archive } : Engine).schedule.loops = [] :=
    h.idle
  exact (lone_spawn hidle).solo

theorem ready_launched (h : e.Fresh id s) {archive : Archive}
    (hrecord : e.archive.OnlyRecord id)
    (hrun : (Archive.setStatus id .running none).run.run e.archive = (.ok (), archive)) :
    (e.launched id archive).Ready id (s.launched e.tick.1) where
  kept := by
    refine ⟨h.own_launched archive, h.result, ?_, rfl, ?_⟩
    · exact (Table.get?_remove _ _ _).trans (if_pos rfl)
    · exact (Archive.keeps_of_onlyRecord hrecord).setStatus hrun
  named := h.named
  status := rfl
  step := h.step
  world := h.world

end Fresh

theorem Ready.await (h : e.Ready id s) (ho : e.Orderly) (hsolo : e.Solo id)
    (hsilent : ∀ n, e.listener id n = []) :
    e.Refused (e.awaitLoop id) ∨ (e.awaitLoop id).failures.get? id = none ∧
      ∃ ending : Ending, ending.Holds e id s.maxSteps ∧
        ending.Outcome e (e.awaitLoop id) id s.maxSteps := by
  have hended := ho.awaitLoop_ends id
  cases h.passes hsolo hsilent (passes_awaitLoop e id) with
  | running _ hsolo =>
    rw [solo_of_pending hsolo] at hended
    cases hended
  | ended ending _ hfailure hholds houtcome => exact .inr ⟨hfailure, ending, hholds, houtcome⟩
  | refused _ hrefused => exact .inl hrefused

/-- A start and a wait that nobody interferes with refine the plain iteration of steps. Unless the
archive refuses something, the run ends in exactly one of three ways and leaves what the iteration
leaves. -/
theorem run_refines_iteration (h : e.Fresh id s) (hsilent : ∀ n, e.listener id n = [])
    (hrecord : e.archive.OnlyRecord id) :
    let f := (e.perform (.start id)).2
    let g := (f.perform (.wait id)).2
    e.Refused g ∨ (e.perform (.start id)).1 = .ok () ∧ (f.perform (.wait id)).1 = .ok () ∧
      ∃ ending : Ending, ending.Holds f id s.maxSteps ∧ ending.Outcome f g id s.maxSteps ∧
        ∀ other : Ending, other.Holds f id s.maxSteps → other = ending := by
  intro f g
  have hg : g = (f.perform (.wait id)).2 := rfl
  have ho : f.Orderly := h.orderly.follow (h.orderly.course (.start id))
  clear_value g
  rcases start_cases h.own h.status with ⟨archive, hstart, hrun⟩ | ⟨error, archive, hstart⟩
  · have hf : f = e.launched id archive := congrArg Prod.snd hstart
    clear_value f
    subst hf
    have hwait := perform_wait (h.own_launched archive)
    have hready := h.ready_launched hrecord hrun
    rcases hready.await ho (h.solo_launched archive) hsilent with
      hrefused | ⟨hfailure, ending, hholds, houtcome⟩
    · left
      rw [hg, hwait]
      split <;> exact hrefused
    · right
      rw [hfailure] at hwait
      rw [hwait] at hg ⊢
      subst hg
      refine ⟨congrArg Prod.fst hstart, rfl, ending, hholds, houtcome, ?_⟩
      exact fun other hother => hother.unique hholds
  · left
    have hrefused : e.Refused f := by
      have hf : f.refusals = e.refusals ++ [error] := congrArg (fun r => r.2.refusals) hstart
      simp [Refused, hf]
    rw [hg]
    exact hrefused.trans (ho.extends (ho.course (.wait id))).refusals

/-- Entities that multiply a number in every step, for two steps. -/
def growing : Program where
  entities := [⟨"A", [⟨"x", .scalar .int⟩], [⟨"grow", none, none,
    some (.assignment "*=" (.property "Self" "x") (.literal (.int 10))), []⟩], 1⟩]
  rules := [⟨"end", none, some (.binary "->"
    (.binary ">=" (.identifier "time") (.literal (.int 2))) (.identifier "GameOver")), [], []⟩]
  warnings := []

/-- An engine that archives in files and is not listened to. -/
def filing : Engine :=
  { create .default [] (.cyclic [0] 0) (.files (.create ⟨0, ["runs"]⟩)) fun _ _ => [] with
    specifications := [("spec", .create "" growing (some "A") none 0)] }

theorem unused_filing : filing.Unused := ⟨rfl, rfl, rfl, rfl, rfl, rfl, rfl⟩

/-- The engine with a simulation of so many steps, whose number begins with a value. -/
def beginning (value : Int) (limit : Nat) : Except CallError String × Engine :=
  filing.call (createSimulation "spec"
    ⟨none, none, some limit, some 0, some ⟨[], [("A", [("x", .int value)])]⟩⟩)

theorem fresh_beginning {value : Int} {limit : Nat}
    (h : (beginning value limit).1 = .ok "sim_000000000001") :
    ∃ s, (beginning value limit).2.Fresh "sim_000000000001" s ∧ s.maxSteps = limit ∧
      ∀ n, (beginning value limit).2.listener "sim_000000000001" n = [] := by
  have hcall : beginning value limit = (.ok "sim_000000000001", (beginning value limit).2) := by
    rw [← h]
  obtain ⟨s, hs, hmax, hlistener⟩ := unused_filing.regular.orderly.fresh_created rfl hcall rfl
  exact ⟨s, hs, hmax, fun n => by rw [hlistener]; rfl⟩

@[irreducible] def grown : Engine := (beginning 7 5).2

/-- The number is multiplied twice, and then the run is over. -/
theorem run_refines_iteration_growing :
    (Ending.terminal 1).Holds (grown.perform (.start "sim_000000000001")).2 "sim_000000000001" 5 ∧
      (Ending.terminal 1).Outcome (grown.perform (.start "sim_000000000001")).2
        ((grown.perform (.start "sim_000000000001")).2.perform (.wait "sim_000000000001")).2
        "sim_000000000001" 5 := by
  obtain ⟨s, hs, hmax, hsilent⟩ : ∃ s, grown.Fresh "sim_000000000001" s ∧ s.maxSteps = 5 ∧
      ∀ n, grown.listener "sim_000000000001" n = [] := by
    unfold grown
    exact fresh_beginning (by decide +kernel)
  have hcheck : grown.archive.holdsOnlyRecord "sim_000000000001" = true := by decide +kernel
  have hrun := run_refines_iteration hs hsilent (Archive.onlyRecord_of_holds hcheck)
  have hstep : (((grown.perform (.start "sim_000000000001")).2.perform
      (.wait "sim_000000000001")).2.simulations.get? "sim_000000000001").map
        (fun s => (s.status, s.currentStep)) = some (.completed, 2) := by decide +kernel
  have hrefusals : ((grown.perform (.start "sim_000000000001")).2.perform
      (.wait "sim_000000000001")).2.refusals = [] := by decide +kernel
  rw [hmax] at hrun
  rcases hrun with hrefused | ⟨-, -, ending, hholds, houtcome, -⟩
  · rw [Refused, hrefusals] at hrefused
    exact absurd hrefused (Nat.not_lt_zero _)
  · cases ending with
    | terminal n =>
      obtain ⟨s, p, w, stamp, hs, -, -, -, -, hn, -⟩ := houtcome.own
      rw [hs] at hstep
      obtain rfl : n = 1 := by
        have htwo := congrArg Prod.snd (Option.some.inj hstep)
        exact Nat.succ.inj (hn.symm.trans htwo)
      exact ⟨hholds, houtcome⟩
    | budget =>
      obtain ⟨s, p, w, stamp, hs, -, -, -, -, hn, -⟩ := houtcome.own
      rw [hs] at hstep
      have htwo := congrArg Prod.snd (Option.some.inj hstep)
      exact absurd (hn.symm.trans htwo) (by decide)
    | failure n error =>
      obtain ⟨s, hs, hstatus, -⟩ := houtcome.own
      rw [hs] at hstep
      have hcompleted := congrArg Prod.fst (Option.some.inj hstep)
      exact absurd (hstatus.symm.trans hcompleted) (by decide)

/-- A simulation of one step, after which its number has more digits than can be written. -/
@[irreducible] def overgrown : Engine := (beginning (10 ^ 4299) 1).2

/-- An engine that shows every step. Its specification declares nothing. -/
def showing : Engine :=
  { pausing with
    listener := fun _ _ => []
    arena := ⟨[], ⟨[("GAMESPEC_VERBOSE", "1")], .cyclic [0] 0, 0, 0, []⟩⟩ }

theorem unused_showing : showing.Unused := ⟨rfl, rfl, rfl, rfl, rfl, rfl, rfl⟩

def oneStep : SimulationOptions := ⟨none, none, some 1, some 0, none⟩

/-- A simulation of one step is given the longest time that can be written. -/
@[irreducible] def tardy : Engine :=
  let e := (showing.call (createSimulation "spec" oneStep)).2
  { e with arena := e.arena.setClock "sim_000000000001" (10 ^ 4300 - 1) 0 }

theorem fresh_tardy : ∃ s, tardy.Fresh "sim_000000000001" s ∧ s.maxSteps = 1 ∧
    ∀ n, tardy.listener "sim_000000000001" n = [] := by
  have hcall : (showing.call (createSimulation "spec" oneStep)).1 = .ok "sim_000000000001" := by
    decide +kernel
  unfold tardy
  generalize hshowing : showing.call (createSimulation "spec" oneStep) = result at hcall ⊢
  obtain ⟨_, g⟩ := result
  subst hcall
  obtain ⟨s, hs, hmax, hlistener⟩ := unused_showing.regular.orderly.fresh_created rfl hshowing rfl
  have hadvances := g.arena.advances_update "sim_000000000001"
    fun w => { w with time := 10 ^ 4300 - 1, step := 0 }
  refine ⟨s, ⟨?_, hs.idle, hs.own, hs.status, hs.step, ?_, hs.result⟩, hmax, fun n => ?_⟩
  · exact hs.orderly.steady (.unseen _ _ _ _ _ hadvances.ambient.issued)
  · have hworld := hs.world
    simp only [Arena.world?, Option.isSome_map] at hworld ⊢
    exact (hadvances.realms _).trans hworld
  · change g.listener _ n = []
    rw [hlistener]
    rfl

/-- A run that the iteration completes ends with an error where the world cannot be archived, and a
step that breaks off only when it is shown is counted. -/
theorem run_not_refined :
    ((∃ s, overgrown.Fresh "sim_000000000001" s ∧ s.maxSteps = 1 ∧
        ∀ n, overgrown.listener "sim_000000000001" n = []) ∧
      overgrown.archive.OnlyRecord "sim_000000000001" ∧
      Ending.budget.Holds (overgrown.perform (.start "sim_000000000001")).2
        "sim_000000000001" 1 ∧
      ((overgrown.perform (.start "sim_000000000001")).2.perform
        (.wait "sim_000000000001")).2.statusOf? "sim_000000000001" = some .error) ∧
    (∃ s, tardy.Fresh "sim_000000000001" s ∧ s.maxSteps = 1 ∧
        ∀ n, tardy.listener "sim_000000000001" n = []) ∧
      (∃ error, (tardy.perform (.start "sim_000000000001")).2.nextStep? "sim_000000000001" =
        some (.error error)) ∧
      (((tardy.perform (.start "sim_000000000001")).2.perform
        (.wait "sim_000000000001")).2.simulations.get? "sim_000000000001").map (·.currentStep) =
          some 1 := by
  have hfresh : ∃ s, overgrown.Fresh "sim_000000000001" s ∧ s.maxSteps = 1 ∧
      ∀ n, overgrown.listener "sim_000000000001" n = [] := by
    unfold overgrown
    exact fresh_beginning (by decide +kernel)
  have hcheck : overgrown.archive.holdsOnlyRecord "sim_000000000001" = true := by decide +kernel
  have hreturns : ((overgrown.perform (.start "sim_000000000001")).2.nextStep?
      "sim_000000000001").map (·.isOk) = some true := by decide +kernel
  have hover : ((overgrown.perform (.start "sim_000000000001")).2.afterSteps
      "sim_000000000001" 1).isOver "sim_000000000001" = false := by decide +kernel
  have hbreaks : ((tardy.perform (.start "sim_000000000001")).2.nextStep?
      "sim_000000000001").map (·.isOk) = some false := by decide +kernel
  refine ⟨⟨hfresh, Archive.onlyRecord_of_holds hcheck, fun k hk => ?_, by decide +kernel⟩,
    fresh_tardy, ?_, by decide +kernel⟩
  · obtain rfl : k = 0 := by omega
    obtain ⟨result, hresult, hok⟩ := Option.map_eq_some_iff.mp hreturns
    cases result with
    | ok σ => exact ⟨⟨σ, hresult⟩, hover⟩
    | error error => cases hok
  · obtain ⟨result, hresult, hok⟩ := Option.map_eq_some_iff.mp hbreaks
    cases result with
    | ok σ => cases hok
    | error error => exact ⟨error, hresult⟩

end Engine

end StepWorld
