import StepWorld.Proofs.Engine.Steady

/-! Steps of a simulation taken one after another, without a loop. Such an iteration comes to one
of three ends: a step ends the run, no step that may be taken does, or a step breaks off. -/

namespace StepWorld

namespace Engine

variable {e f : Engine} {id : String}

def nextStep? (e : Engine) (id : String) : Option (Except StepError StepSummary) :=
  (e.simulations.get? id).map fun s => (e.step s).1

def afterSteps (e : Engine) (id : String) : Nat → Engine
  | 0 => e
  | n + 1 =>
    ((afterSteps e id n).simulations.get? id).elim (afterSteps e id n) fun s =>
      ((afterSteps e id n).step s).2

def isOver (e : Engine) (id : String) : Bool := (e.arena.world? id).any (·.terminal)

theorem afterSteps_succ {n : Nat} {s : Simulation}
    (hs : (e.afterSteps id n).simulations.get? id = some s) :
    e.afterSteps id (n + 1) = ((e.afterSteps id n).step s).2 := by
  simp [afterSteps, hs]

theorem nextStep?_eq {s : Simulation} (hs : e.simulations.get? id = some s) :
    e.nextStep? id = some (e.step s).1 := by
  simp [nextStep?, hs]

theorem announce_beside (e : Engine) (s : Simulation) (summary : StepSummary)
    (schedule : Schedule) (archive : Archive) (summaries : List (String × StepSummary)) :
    ({ e with schedule, archive, summaries } : Engine).announce s summary =
      { e.announce s summary with schedule, archive, summaries } := by
  unfold announce
  dsimp only
  split <;> rfl

/-- A step does not look at loops, the archive and what was noted of steps. -/
theorem step_beside (e : Engine) (s : Simulation) (schedule : Schedule) (archive : Archive)
    (summaries : List (String × StepSummary)) :
    ({ e with schedule, archive, summaries } : Engine).step s =
      ((e.step s).1, { (e.step s).2 with schedule, archive, summaries }) := by
  cases hp : e.programs s.specification with
  | none =>
    have hp' : ({ e with schedule, archive, summaries } : Engine).programs s.specification =
        none := hp
    rw [step_of_no_program hp, step_of_no_program hp']
  | some program =>
    have hp' : ({ e with schedule, archive, summaries } : Engine).programs s.specification =
        some program := hp
    cases hw : e.arena.world? s.id with
    | none =>
      have hw' : ({ e with schedule, archive, summaries } : Engine).arena.world? s.id = none := hw
      rw [step_of_no_world hp hw, step_of_no_world hp' hw']
    | some world =>
      have hw' : ({ e with schedule, archive, summaries } : Engine).arena.world? s.id =
          some world := hw
      obtain ⟨⟨result, p⟩, hrun⟩ : ∃ result, e.runOf s program world = result := ⟨_, rfl⟩
      have hrun' : ({ e with schedule, archive, summaries } : Engine).runOf s program world =
          (result, p) := hrun
      cases result with
      | error fault =>
        rw [step_of_fault hp hw hrun, step_of_fault hp' hw' hrun']
        rfl
      | ok =>
        have hstep := step_of_run hp hw hrun
        have hstep' := step_of_run hp' hw' hrun'
        obtain ⟨⟨summary, g⟩, hcounted⟩ : ∃ counted,
          { e with begun := e.begun ++ [s.id] }.finishStep s (world.time + 1) p = counted := ⟨_, rfl⟩
        have hcounted' : { ({ e with schedule, archive, summaries } : Engine) with
            begun := e.begun ++ [s.id] }.finishStep s (world.time + 1) p =
              (summary, { g with schedule, archive, summaries }) := by
          obtain ⟨rfl, rfl⟩ := Prod.mk.inj hcounted
          rfl
        rw [hcounted] at hstep
        rw [hcounted'] at hstep'
        dsimp only at hstep hstep'
        rw [hstep, hstep']
        split
        · rfl
        · rw [announce_beside]

theorem afterSteps_kept (e : Engine) (id : String) (n : Nat) :
    (e.afterSteps id n).listener = e.listener ∧ (e.afterSteps id n).results = e.results ∧
      (e.afterSteps id n).failures = e.failures ∧ (e.afterSteps id n).refusals = e.refusals ∧
      (e.detached = [] → (e.afterSteps id n).detached = []) ∧
      ((e.afterSteps id n).arena.world? id).isSome = (e.arena.world? id).isSome := by
  induction n with
  | zero => exact ⟨rfl, rfl, rfl, rfl, fun h => h, rfl⟩
  | succ n ih =>
    obtain ⟨hl, hr, hf, href, hd, hw⟩ := ih
    cases hs : (e.afterSteps id n).simulations.get? id with
    | none =>
      simp only [afterSteps, hs, Option.elim_none]
      exact ⟨hl, hr, hf, href, hd, hw⟩
    | some s =>
      obtain ⟨arena, f, hstep, hadvances, -⟩ := step_stepped (e.afterSteps id n) s
      rw [afterSteps_succ hs, hstep]
      refine ⟨hl, hr, hf, href, fun h => ?_, ?_⟩
      · simp [stepped, alter, hd h, Table.modify]
      · have hrealms := hadvances.realms id
        simp only [stepped, alter, Arena.world?, Option.isSome_map] at hw ⊢
        rw [hrealms]
        exact hw

/-- A step that is shown in full has a time that is too long for it. -/
def ShowsLongTime (e : Engine) (id : String) : Prop :=
  e.arena.ambient.environment.verbose = true ∧
    ∃ world, e.arena.world? id = some world ∧ isWritable (world.time + 1) = false

theorem step_own {s : Simulation} (hs : e.simulations.get? id = some s) (hid : s.id = id) :
    ∃ t, (e.step s).2.simulations.get? id = some t ∧ t.id = id ∧ t.status = s.status ∧
      t.maxSteps = s.maxSteps ∧
      (∀ σ, (e.step s).1 = .ok σ → t.currentStep = s.currentStep + 1 ∧
        σ.step = s.currentStep + 1 ∧ σ.terminal = (e.step s).2.isOver id) ∧
      ∀ error, (e.step s).1 = .error error → t.currentStep = s.currentStep ∨
        t.currentStep = s.currentStep + 1 ∧ error = .fault .longInteger ∧ e.ShowsLongTime id := by
  have hown (arena : Arena) (f : Simulation → Simulation) :
      (e.stepped s.id arena f).simulations.get? id = some (f s) := by
    simp [stepped, alter, Table.get?_modify, hid, hs]
  rcases e.step_cases s with ⟨error, arena, f, h, -, hf⟩ | ⟨σ, arena, st, h, -, hσ, hover, hr⟩
  · obtain ⟨statistics, hft⟩ := hf s
    rw [h]
    refine ⟨f s, hown arena f, by rw [hft]; exact hid, by rw [hft], by rw [hft], ?_, ?_⟩
    · intro σ hσ
      cases hσ
    · intro _ _
      exact .inl (by rw [hft])
  · rw [h]
    refine ⟨_, hown arena _, hid, rfl, rfl, fun τ hτ => ?_, fun error herror => ?_⟩
    · rcases hr with hr | ⟨hr, -⟩
      · rw [hr] at hτ
        cases hτ
        exact ⟨rfl, hσ, by rw [hover, hid]; rfl⟩
      · rw [hr] at hτ
        cases hτ
    · rcases hr with hr | ⟨hr, hverbose, world, hworld, hlong⟩
      · rw [hr] at herror
        cases herror
      · rw [hr] at herror
        cases herror
        exact .inr ⟨rfl, rfl, hverbose, world, hid ▸ hworld, hlong⟩

/-- Whether the step after some steps returns and does not end the run. -/
def GoesOn (e : Engine) (id : String) (n : Nat) : Prop :=
  (∃ σ, (e.afterSteps id n).nextStep? id = some (.ok σ)) ∧
    (e.afterSteps id (n + 1)).isOver id = false

theorem le_of_goesOn {m n : Nat} (hm : ∀ k < m, e.GoesOn id k) (hn : ¬ e.GoesOn id n) : m ≤ n :=
  Nat.not_lt.mp fun hlt => hn (hm n hlt)

theorem eq_of_goesOn {m n : Nat} (hm : ∀ k < m, e.GoesOn id k) (hm' : ¬ e.GoesOn id m)
    (hn : ∀ k < n, e.GoesOn id k) (hn' : ¬ e.GoesOn id n) : m = n :=
  Nat.le_antisymm (le_of_goesOn hm hn') (le_of_goesOn hn hm')

end Engine

/-- How an iteration may end. So many steps went on before the one that ended it. -/
inductive Ending where
  | terminal (before : Nat)
  | budget
  | failure (before : Nat) (error : StepError)

namespace Ending

variable {e : Engine} {id : String} {limit : Int} {a b : Ending} {n : Nat} {error : StepError}

/-- Whether an iteration of so many steps at most ends so. -/
def Holds (e : Engine) (id : String) (limit : Int) : Ending → Prop
  | terminal n =>
    (n : Int) < limit ∧ (∀ k < n, e.GoesOn id k) ∧
      (∃ σ, (e.afterSteps id n).nextStep? id = some (.ok σ)) ∧
      (e.afterSteps id (n + 1)).isOver id = true
  | budget => ∀ k : Nat, (k : Int) < limit → e.GoesOn id k
  | failure n error =>
    (n : Int) < limit ∧ (∀ k < n, e.GoesOn id k) ∧
      (e.afterSteps id n).nextStep? id = some (.error error)

theorem Holds.terminal_stops (h : (terminal n).Holds e id limit) : ¬ e.GoesOn id n := by
  intro hgoes
  obtain ⟨-, -, -, hover⟩ := h
  rw [hgoes.2] at hover
  cases hover

theorem Holds.failure_stops (h : (failure n error).Holds e id limit) : ¬ e.GoesOn id n := by
  intro hgoes
  obtain ⟨-, -, herror⟩ := h
  obtain ⟨σ, hσ⟩ := hgoes.1
  rw [herror] at hσ
  cases hσ

/-- An iteration ends in one way only. -/
theorem Holds.unique (ha : a.Holds e id limit) (hb : b.Holds e id limit) : a = b := by
  cases a with
  | terminal m =>
    have hstop := ha.terminal_stops
    obtain ⟨hm, hgoes, ⟨σ, hσ⟩, -⟩ := ha
    cases b with
    | terminal n =>
      obtain rfl := Engine.eq_of_goesOn hgoes hstop hb.2.1 hb.terminal_stops
      rfl
    | budget => exact absurd (hb m hm) hstop
    | failure n error =>
      obtain rfl := Engine.eq_of_goesOn hgoes hstop hb.2.1 hb.failure_stops
      rw [hb.2.2] at hσ
      cases hσ
  | budget =>
    cases b with
    | terminal n => exact absurd (ha n hb.1) hb.terminal_stops
    | budget => rfl
    | failure n error => exact absurd (ha n hb.1) hb.failure_stops
  | failure m error =>
    have hstop := ha.failure_stops
    obtain ⟨hm, hgoes, herror⟩ := ha
    cases b with
    | terminal n =>
      obtain rfl := Engine.eq_of_goesOn hgoes hstop hb.2.1 hb.terminal_stops
      obtain ⟨-, -, ⟨σ, hσ⟩, -⟩ := hb
      rw [herror] at hσ
      cases hσ
    | budget => exact absurd (hb m hm) hstop
    | failure n other =>
      obtain rfl := Engine.eq_of_goesOn hgoes hstop hb.2.1 hb.failure_stops
      rw [hb.2.2] at herror
      cases herror
      rfl

end Ending

end StepWorld
