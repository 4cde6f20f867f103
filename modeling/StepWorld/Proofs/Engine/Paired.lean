import StepWorld.Proofs.World.Blind
import StepWorld.Proofs.World.Frame

/-! One step in two engines. Where the two do not differ in what a step looks at, it comes to the
same in both, and they do not differ in that afterwards. -/

namespace StepWorld

/-- What a step of a simulation looks at is the same in two arenas, but for the stamp of its
world. -/
structure Arena.Matches (id : String) (R : Arena → Arena → Prop) : Prop where
  gone {a b : Arena} (h : R a b) (hw : a.world? id = none) : b.world? id = none
  there {a b : Arena} {w : World} (h : R a b) (hw : a.world? id = some w) :
    ∃ stamp, b.world? id = some (w.touch stamp)
  environment {a b : Arena} (h : R a b) : b.ambient.environment = a.ambient.environment
  shown {a b : Arena} (h : R a b) (lines lines' : List String) :
    R { a with ambient := { a.ambient with lines } }
      { b with ambient := { b.ambient with lines := lines' } }
  finished {a b : Arena} (h : R a b) (step : Nat) (limit : Int) (events rules : List String) :
    R (a.update id (·.finishStep step limit events rules))
      (b.update id (·.finishStep step limit events rules))

theorem Arena.Matches.terminal {id : String} {R : Arena → Arena → Prop} (hR : Matches id R)
    {a b : Arena} (h : R a b) :
    (b.world? id).any (·.terminal) = (a.world? id).any (·.terminal) := by
  cases ha : a.world? id with
  | none => rw [hR.gone h ha]
  | some w =>
    obtain ⟨stamp, hb⟩ := hR.there h ha
    rw [hb]
    rfl

def Simulation.Alike (s t : Simulation) : Prop :=
  ∃ status maxSteps, t = { s with status, maxSteps }

namespace Engine

variable {e f : Engine} {s t : Simulation} {R : Arena → Arena → Prop}

/-- A step comes to the same in two engines of the same settings and programs if all that runs in it
does. -/
theorem step_paired (hR : Arena.Matches s.id R) (hsettings : f.settings = e.settings)
    (hprograms : f.programs = e.programs) (harena : R e.arena f.arena) (hs : s.Alike t)
    (hrun : ∀ p w stamp, e.programs s.specification = some p → e.arena.world? s.id = some w →
      f.arena.world? s.id = some (w.touch stamp) →
      (f.runOf t p (w.touch stamp)).1 = (e.runOf s p w).1 ∧
        (e.runOf s p w).2.Beside R (f.runOf t p (w.touch stamp)).2) :
    ∃ arena arena' g, R arena arena' ∧ (∀ u v : Simulation, u.Alike v → (g u).Alike (g v)) ∧
      (e.step s).2 = e.stepped s.id arena g ∧
      f.step t = ((e.step s).1, f.stepped s.id arena' g) := by
  have hid : t.id = s.id := by
    obtain ⟨_, _, rfl⟩ := hs
    rfl
  have hspecification : t.specification = s.specification := by
    obtain ⟨_, _, rfl⟩ := hs
    rfl
  -- Both engines miss the program or the world, or both steps run.
  cases hp : e.programs s.specification with
  | none =>
    have hp' : f.programs t.specification = none := by rw [hprograms, hspecification, hp]
    refine ⟨_, _, fun u => u, harena, fun _ _ huv => huv, ?_, ?_⟩
    · rw [step_of_no_program hp, stepped_same]
    · rw [step_of_no_program hp, step_of_no_program hp', stepped_same, hid, hspecification]
  | some p =>
    have hp' : f.programs t.specification = some p := by rw [hprograms, hspecification, hp]
    cases hw : e.arena.world? s.id with
    | none =>
      have hw' : f.arena.world? t.id = none := hid ▸ hR.gone harena hw
      refine ⟨_, _, fun u => u, harena, fun _ _ huv => huv, ?_, ?_⟩
      · rw [step_of_no_world hp hw, stepped_same]
      · rw [step_of_no_world hp hw, step_of_no_world hp' hw', stepped_same, hid]
    | some w =>
      obtain ⟨stamp, hthere⟩ := hR.there harena hw
      have hw' : f.arena.world? t.id = some (w.touch stamp) := hid ▸ hthere
      obtain ⟨hresult, hprogress⟩ := hrun p w stamp hp hw hthere
      obtain ⟨⟨result, q⟩, hran⟩ : ∃ result, e.runOf s p w = result := ⟨_, rfl⟩
      obtain ⟨⟨result', q'⟩, hran'⟩ : ∃ result, f.runOf t p (w.touch stamp) = result := ⟨_, rfl⟩
      rw [hran, hran'] at hresult hprogress
      obtain rfl : result' = result := hresult
      obtain ⟨arena, ha, rfl⟩ := hprogress
      cases result' with
      | error fault =>
        refine ⟨_, _, fun u => { u with statistics := q.statistics }, ha, ?_, ?_, ?_⟩
        · rintro u _ ⟨status, maxSteps, rfl⟩
          exact ⟨status, maxSteps, rfl⟩
        · rw [step_of_fault hp hw hran]
        · rw [step_of_fault hp hw hran, step_of_fault hp' hw' hran', hid]
      | ok =>
        obtain ⟨lines, hsummary, hstate⟩ := step_ran hp hw hran
        obtain ⟨lines', hsummary', hstate'⟩ := step_ran hp' hw' hran'
        obtain ⟨status, maxSteps, rfl⟩ := hs
        have hafter : R (e.ranArena s q)
            (f.ranArena { s with status, maxSteps } { q with arena }) := by
          unfold ranArena
          rw [hsettings]
          exact hR.finished ha _ _ _ _
        have hsame : f.ranSummary { s with status, maxSteps } (w.time + 1) { q with arena } =
            e.ranSummary s (w.time + 1) q := by
          unfold ranSummary
          rw [hR.terminal hafter]
        refine ⟨_, _, _, hR.shown hafter lines lines', ?_, hstate, Prod.ext ?_ hstate'⟩
        · rintro u _ ⟨status, maxSteps, rfl⟩
          exact ⟨status, maxSteps, rfl⟩
        · change _ = (e.step s).1
          rw [hsummary, hsummary', hR.environment harena, ← hsame]
          rfl

end Engine

end StepWorld
