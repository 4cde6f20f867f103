import StepWorld.Proofs.Engine.Undisturbed

/-! The track of the variables through a run. Rules lead from the variables of one step to those of
the next, and the variables alone tell where the run ends. A simulation that nobody stops stays on
its track, whatever else is done in its engine. -/

namespace StepWorld

def endsRun (vars : Record) : Bool := World.terminal { World.empty 0 with vars }

/-- The variables after so many steps of a run that begins at a time. No step but the last ends
it. -/
inductive Track (limit : Int) (rules : List RuleDecl) (time : Int) (vars : Record) :
    Nat → Record → Prop
  | start : Track limit rules time vars 0 vars
  | next {n : Nat} {before after : Record} (h : Track limit rules time vars n before)
      (hn : n < limit) (hgo : 0 < n → endsRun before = false)
      (hrules : Leads rules (before.put "time" (.int (time + n + 1))) after) :
      Track limit rules time vars (n + 1) (after.put "step" (.int (n + 1)))

def EndsAt (limit : Int) (n : Nat) (vars : Record) : Prop :=
  0 < n ∧ endsRun vars = true ∨ limit ≤ n

namespace Track

variable {limit time : Int} {rules : List RuleDecl} {vars v u : Record} {n m : Nat}

theorem unique (hrules : ∀ rule ∈ rules, rule.Drawless) (h : Track limit rules time vars n v)
    (h' : Track limit rules time vars n u) : v = u := by
  induction h generalizing u with
  | start =>
    cases h'
    rfl
  | next h hn hgo hlead ih =>
    cases h' with
    | next h' hn' hgo' hlead' =>
      obtain rfl := ih h'
      rw [hlead.unique hrules hlead']

theorem goes_on (h : Track limit rules time vars m v) (hn : n < m) :
    ∃ u, Track limit rules time vars n u ∧ ¬EndsAt limit n u := by
  induction h with
  | start => exact absurd hn (Nat.not_lt_zero n)
  | @next k before after h hk hgo hlead ih =>
    rcases Nat.lt_succ_iff_lt_or_eq.mp hn with hlt | rfl
    · exact ih hlt
    · refine ⟨before, h, ?_⟩
      rintro (⟨hpos, hends⟩ | hlimit)
      · rw [hgo hpos] at hends
        cases hends
      · omega

/-- Two runs on one track end after the same number of steps with the same variables. -/
theorem end_unique (hrules : ∀ rule ∈ rules, rule.Drawless) (h : Track limit rules time vars n v)
    (hv : EndsAt limit n v) (h' : Track limit rules time vars m u) (hu : EndsAt limit m u) :
    n = m ∧ v = u := by
  have not_before {n m : Nat} {v u : Record} (h : Track limit rules time vars n v)
      (hv : EndsAt limit n v) (h' : Track limit rules time vars m u) : ¬n < m := by
    intro hlt
    obtain ⟨v', h'', hgo⟩ := h'.goes_on hlt
    obtain rfl := h.unique hrules h''
    exact hgo hv
  obtain rfl : n = m :=
    Nat.le_antisymm (Nat.not_lt.mp (not_before h' hu h)) (Nat.not_lt.mp (not_before h hv h'))
  exact ⟨rfl, h.unique hrules h'⟩

end Track

namespace Engine

variable {e f g : Engine} {id k : String} {s t : Simulation} {p : Program} {w : World}

/-- What a step that returns makes of the variables of its simulation. -/
theorem step_leads {σ : StepSummary} (hid : s.id ≠ "")
    (hp : e.programs s.specification = some p) (hw : e.arena.world? s.id = some w)
    (h : e.step s = (.ok σ, f)) :
    ∃ v after, f.arena.world? s.id = some v ∧ v.time = w.time + 1 ∧
      Leads p.rules (w.vars.put "time" (.int (w.time + 1))) after ∧
      v.vars = after.put "step" (.int (s.currentStep + 1)) ∧ σ.terminal = endsRun v.vars := by
  have hleads := (StepTarget.program_leads (t := ⟨e.programs, s.specification, s.id⟩)
    (s := ⟨e.arena.keep s.id w.advance, [], [], 0, [], s.statistics⟩) hid hp
    (Arena.world?_keep hw _)).2
  change (e.runOf s p w).1 = .ok () → ∃ v, (e.runOf s p w).2.arena.world? s.id = some v ∧
    v.time = w.advance.time ∧ Leads p.rules w.advance.vars v.vars at hleads
  obtain ⟨p', w', q, lines, hp', hw', hrun, rfl, hstate⟩ := step_eq_ok (congrArg Prod.fst h)
  obtain rfl : p' = p := Option.some.inj (hp'.symm.trans hp)
  obtain rfl : w' = w := Option.some.inj (hw'.symm.trans hw)
  obtain rfl : _ = f := hstate.symm.trans (congrArg Prod.snd h)
  rw [hrun] at hleads
  obtain ⟨v, hv, htime, hlead⟩ := hleads rfl
  have hafter := world?_ranArena (e := e) hv
  -- The world that the step leaves is recorded or not; its variables are the same.
  let last := v.finishStep (s.currentStep + 1) e.settings.historyLimit q.events q.rules
  have hlast : last.time = v.time ∧
      last.vars = v.vars.put "step" (.int (s.currentStep + 1)) := by
    simp only [last, World.finishStep]
    split <;> exact ⟨rfl, rfl⟩
  refine ⟨_, v.vars, hafter, hlast.1.trans htime, hlead, hlast.2, ?_⟩
  unfold ranSummary
  rw [hafter]
  rfl

variable {limit time : Int} {rules : List RuleDecl} {vars : Record}

/-- How a simulation stands whose run follows a track: it goes on, it has come to the end, or it has
failed. -/
inductive OnTrack (limit : Int) (rules : List RuleDecl) (time : Int) (vars : Record) (e : Engine)
    (id : String) (s : Simulation) : Prop
  | going {w : World} {p : Program} (hs : s.status.terminal = false)
      (hw : e.arena.world? id = some w) (htime : w.time = time + s.currentStep)
      (ht : Track limit rules time vars s.currentStep w.vars)
      (hgo : 0 < s.currentStep → endsRun w.vars = false) (hlimit : s.maxSteps = limit)
      (hp : e.programs s.specification = some p) (hrules : p.rules = rules)
  | ended {w : World} (hs : s.status = .completed) (hw : e.arena.world? id = some w)
      (ht : Track limit rules time vars s.currentStep w.vars)
      (hend : EndsAt limit s.currentStep w.vars)
  | failed (hs : s.status = .error)

structure Tracked (limit : Int) (rules : List RuleDecl) (time : Int) (vars : Record) (e : Engine)
    (id : String) : Prop where
  silent : ∀ n, e.listener id n = []
  calm : e.CalmAt id
  own : ∃ s, e.simulations.get? id = some s ∧ OnTrack limit rules time vars e id s

theorem OnTrack.undisturbed (h : OnTrack limit rules time vars e id s)
    (hf : Undisturbed id e f) : OnTrack limit rules time vars f id s := by
  cases h with
  | going hs hw htime ht hgo hlimit hp hrules =>
    exact .going hs (hf.world?.trans hw) htime ht hgo hlimit (by rw [hf.programs]; exact hp) hrules
  | ended hs hw ht hend => exact .ended hs (hf.world?.trans hw) ht hend
  | failed hs => exact .failed hs

theorem OnTrack.relabel (h : OnTrack limit rules time vars e id s)
    (hs : s.status.terminal = false) (ht : t.status.terminal = false)
    (hstep : t.currentStep = s.currentStep) (hmax : t.maxSteps = s.maxSteps)
    (hspec : t.specification = s.specification) : OnTrack limit rules time vars e id t := by
  cases h with
  | going _ hw htime htrack hgo hlimit hp hrules =>
    rw [← hstep] at htime htrack hgo
    exact .going ht hw htime htrack hgo (hmax.trans hlimit) (hspec ▸ hp) hrules
  | ended hc =>
    rw [hc] at hs
    cases hs
  | failed he =>
    rw [he] at hs
    cases hs

namespace Tracked

theorem undisturbed (h : Tracked limit rules time vars e id) (hf : Undisturbed id e f)
    (hown : f.simulations.get? id = e.simulations.get? id) :
    Tracked limit rules time vars f id where
  silent := by
    rw [hf.listener]
    exact h.silent
  calm := hf.calm h.calm
  own := by
    obtain ⟨s, hs, htrack⟩ := h.own
    exact ⟨s, hown.trans hs, htrack.undisturbed hf⟩

theorem steady (h : Tracked limit rules time vars e id) (hf : Undisturbed id e f)
    (hs : Steady e f) : Tracked limit rules time vars f id :=
  h.undisturbed hf (by rw [hs.simulations])

theorem touched (h : Tracked limit rules time vars e id) (hf : Undisturbed id e f)
    (ht : Touches k e f) (hk : id ≠ k) : Tracked limit rules time vars f id :=
  h.undisturbed hf (ht.others id hk)

theorem call {α : Type} {task : Task α} (h : Tracked limit rules time vars e id)
    (hf : Moves (Undisturbed id) task) (ht : Moves (Touches k) task) (hk : id ≠ k) :
    Tracked limit rules time vars (e.call task).2 id :=
  h.touched (hf e) (ht e) hk

theorem relabel (h : Tracked limit rules time vars e id) (hf : Undisturbed id e f)
    (hs : e.simulations.get? id = some s) (ht : f.simulations.get? id = some t)
    (hlive : s.status.terminal = false) (hlive' : t.status.terminal = false)
    (hstep : t.currentStep = s.currentStep) (hmax : t.maxSteps = s.maxSteps)
    (hspec : t.specification = s.specification) : Tracked limit rules time vars f id where
  silent := by
    rw [hf.listener]
    exact h.silent
  calm := hf.calm h.calm
  own := by
    obtain ⟨s', hs', htrack⟩ := h.own
    obtain rfl := Option.some.inj (hs'.symm.trans hs)
    exact ⟨t, ht, (htrack.relabel hlive hlive' hstep hmax hspec).undisturbed hf⟩

end Tracked

/-! ### The turn of its own loop -/

section

variable {l : Loop} {rest : List Loop} {asleep : List (Float × Loop)}

theorem Midway.leave_ended (h : e.Midway l rest asleep s) (hs : s.status ≠ .paused)
    (hw : e.arena.world? l.simulation = some w)
    (ht : Track limit rules time vars s.currentStep w.vars)
    (hend : EndsAt limit s.currentStep w.vars) :
    ∃ t, (e.leave l.simulation).simulations.get? l.simulation = some t ∧
      OnTrack limit rules time vars (e.leave l.simulation) l.simulation t := by
  obtain ⟨t, hended, hcases, -⟩ := leave_spec h
  refine ⟨t, hended.own, ?_⟩
  rcases hcases with ⟨hp, -⟩ | ⟨-, hterminal⟩
  · exact absurd hp hs
  · have hworld := (@undisturbed_leave l.simulation l.simulation e).world?.trans hw
    rw [← hended.step] at ht hend
    cases hstatus : t.status with
    | completed => exact .ended hstatus hworld ht hend
    | error => exact .failed hstatus
    | created => simp [hstatus, SimulationStatus.terminal] at hterminal
    | running => simp [hstatus, SimulationStatus.terminal] at hterminal
    | paused => simp [hstatus, SimulationStatus.terminal] at hterminal

theorem Midway.breakOff_failed (h : e.Midway l rest asleep s) (message : String) :
    ∃ t, (e.breakOff l.simulation message).simulations.get? l.simulation = some t ∧
      OnTrack limit rules time vars (e.breakOff l.simulation message) l.simulation t := by
  obtain ⟨t, hended, ht, -⟩ := breakOff_spec h message
  exact ⟨t, hended.own, .failed ht⟩

theorem Midway.conclude_track {σ : StepSummary} (h : e.Midway l rest asleep t)
    (hid : s.id = l.simulation) (hl : l.cancelled = false) (hrun : t.status = .running)
    (hw : e.arena.world? l.simulation = some w) (htime : w.time = time + t.currentStep)
    (ht : Track limit rules time vars t.currentStep w.vars) (hpos : 0 < t.currentStep)
    (hσ : σ.terminal = endsRun w.vars) (hlimit : t.maxSteps = limit)
    (hp : e.programs t.specification = some p) (hrules : p.rules = rules) (world : World) :
    ∃ u, (e.conclude s σ world).simulations.get? l.simulation = some u ∧
      OnTrack limit rules time vars (e.conclude s σ world) l.simulation u := by
  have hne : t.status ≠ .paused := by
    rw [hrun]
    decide
  unfold conclude
  rw [hid]
  cases hterminal : σ.terminal with
  | true =>
    have hend : EndsAt limit t.currentStep w.vars := .inl ⟨hpos, hσ.symm.trans hterminal⟩
    exact (h.steady (steady_print _ _)).leave_ended hne hw ht hend
  | false =>
    simp only [Bool.false_eq_true, if_false]
    have hsteady := steady_call (e := e)
      (Steady.store (Archive.saveSnapshot l.simulation σ.step world))
    have hsame := undisturbed_call e (@moves_undisturbed_store l.simulation
      (Archive.saveSnapshot l.simulation σ.step world))
    have hgoing : OnTrack limit rules time vars e l.simulation t := by
      refine .going ?_ hw htime ht (fun _ => hσ.symm.trans hterminal) hlimit hp hrules
      rw [hrun]
      rfl
    split
    · next g hg =>
      rw [hg] at hsteady hsame
      have hmid := h.steady hsteady
      refine ⟨t, ?_, (hgoing.undisturbed hsame).undisturbed (undisturbed_rest g s)⟩
      unfold Engine.rest
      rw [hid, hmid.find, Option.any_some, hl]
      simp only [Bool.false_eq_true, if_false]
      split <;> exact hmid.own
    · next error g hg =>
      rw [hg] at hsteady
      exact (h.steady hsteady).breakOff_failed _

theorem step_counted {σ : StepSummary} (hs : e.simulations.get? s.id = some s)
    (h : e.step s = (.ok σ, g)) : ∃ statistics,
      g.simulations.get? s.id = some { s with currentStep := s.currentStep + 1, statistics } := by
  rcases e.step_cases s with ⟨error, _, _, hbroken, -⟩ | ⟨_, _, statistics, hcounted, -⟩
  · rw [h] at hbroken
    cases hbroken
  · rw [h] at hcounted
    obtain rfl := hcounted
    exact ⟨statistics, by simp [stepped, alter, Table.get?_modify, hs]⟩

/-- A step of a simulation leads it on along its track. -/
theorem Midway.step_track (h : e.Midway l rest asleep s) (hid : s.id = l.simulation)
    (hne : s.id ≠ "") (hc : l.continues s = true) (hsilent : ∀ n, e.listener l.simulation n = [])
    (hw : e.arena.world? l.simulation = some w) (htime : w.time = time + s.currentStep)
    (ht : Track limit rules time vars s.currentStep w.vars)
    (hgo : 0 < s.currentStep → endsRun w.vars = false) (hlimit : s.maxSteps = limit)
    (hp : e.programs s.specification = some p) (hrules : p.rules = rules) :
    ∃ t, (e.act l).simulations.get? l.simulation = some t ∧
      OnTrack limit rules time vars (e.act l) l.simulation t := by
  obtain ⟨hrun, hl, -, hlt⟩ := Loop.continues_iff.mp hc
  obtain ⟨t, hmid, -⟩ := step_spec h hid
  have htouch := touches_step e s
  unfold act
  rw [h.runner]
  dsimp only
  rw [if_pos hc]
  cases hstep : e.step s with
  | mk result g =>
    rw [hstep] at hmid htouch
    cases result with
    | error error =>
      dsimp only
      rw [hid]
      exact hmid.breakOff_failed _
    | ok σ =>
      dsimp only
      rw [← hid] at hw
      obtain ⟨v, after, hv, hvtime, hlead, hvars, hterminal⟩ := step_leads hne hp hw hstep
      obtain ⟨statistics, hcounted⟩ := step_counted (hid ▸ h.own) hstep
      rw [hid] at hcounted hv
      obtain rfl := Option.some.inj (hmid.own.symm.trans hcounted)
      have hnext : Track limit rules time vars (s.currentStep + 1) v.vars := by
        rw [hvars]
        refine .next ht (hlimit ▸ hlt) hgo ?_
        rw [← htime, ← hrules]
        exact hlead
      have hvtime : v.time = time + ((s.currentStep + 1 : Nat) : Int) := by
        rw [hvtime, htime]
        exact Int.add_assoc _ _ _
      have hprograms : g.programs s.specification = some p := by
        rw [programs, htouch.specifications]
        exact hp
      -- Nobody reacts to the step.
      have hafter : g.afterStep s σ =
          { g with summaries := g.summaries ++ [(s.id, σ)] }.conclude s σ v := by
        refine afterStep_eq ?_
        rw [htouch.listener, hid, hsilent, hv]
        rfl
      have hmid' := hmid.unseen (f := { g with summaries := g.summaries ++ [(s.id, σ)] })
        rfl rfl rfl
      rw [hafter]
      exact hmid'.conclude_track hid hl hrun hv hvtime hnext (Nat.succ_pos _) hterminal hlimit
        hprograms hrules v

theorem Midway.act_track (h : e.Midway l rest asleep s) (hid : s.id = l.simulation)
    (hne : s.id ≠ "") (hd : l.Drives s.status) (hst : l.stopping = false)
    (hsilent : ∀ n, e.listener l.simulation n = [])
    (htrack : OnTrack limit rules time vars e l.simulation s) :
    ∃ t, (e.act l).simulations.get? l.simulation = some t ∧
      OnTrack limit rules time vars (e.act l) l.simulation t := by
  have hlive : s.status.terminal = false := by
    rcases hd with ⟨hs, -⟩ | ⟨hs, -⟩ <;> rw [hs] <;> rfl
  cases htrack with
  | ended hs =>
    rw [hs] at hlive
    cases hlive
  | failed hs =>
    rw [hs] at hlive
    cases hlive
  | going hs hw htime ht hgo hlimit hp hrules =>
    by_cases hc : l.continues s = true
    · exact h.step_track hid hne hc hsilent hw htime ht hgo hlimit hp hrules
    · have hact : e.act l = e.leave l.simulation := by
        unfold act
        rw [h.runner]
        dsimp only
        rw [if_neg hc, hid]
      rw [hact]
      rcases hd with ⟨hrun, hcancel⟩ | ⟨hpaused, -⟩
      · have hend : ¬s.currentStep < s.maxSteps := fun hlt =>
          hc (Loop.continues_iff.mpr ⟨hrun, hcancel.trans hst, hst, hlt⟩)
        exact h.leave_ended (by rw [hrun]; decide) hw ht (.inr (hlimit ▸ Int.not_lt.mp hend))
      · obtain ⟨t, hended, hcases, -⟩ := leave_spec h
        rcases hcases with ⟨-, -, rfl, -⟩ | ⟨hn, -⟩
        · exact ⟨t, hended.own, OnTrack.undisturbed
            (.going hs hw htime ht hgo hlimit hp hrules) (undisturbed_leave e)⟩
        · exact absurd ⟨hpaused, hst⟩ hn

end

/-! ### Whatever happens -/

theorem Tracked.happens (h : Tracked limit rules time vars e id) (ho : e.Orderly)
    (hf : e.Happens f) : Tracked limit rules time vars f id := by
  have hcalm : f.CalmAt id := h.calm.of_loops fun l hl => by
    obtain ⟨m, hm, hcore⟩ := ho.loops_happens hf l hl
    exact ⟨m, hm, congrArg (·.1) hcore, congrArg (·.2.2) hcore⟩
  cases hf with
  | shuffle => exact h.undisturbed ⟨rfl, rfl, rfl, fun _ => hcalm⟩ rfl
  | @act l rest hq hphase =>
    obtain ⟨s, -, hmid, hd, htouch, -⟩ := ho.acted hq hphase
    have hid := ho.filed l.simulation s hmid.own
    have hne := ho.named hmid.own
    by_cases hk : id = l.simulation
    · obtain rfl := hk
      obtain ⟨s', hs', htrack⟩ := h.own
      obtain rfl := Option.some.inj (hmid.own.symm.trans hs')
      have hst : l.stopping = false := h.calm l (by simp [Schedule.loops, hq]) rfl
      exact ⟨htouch.listener ▸ h.silent, hcalm,
        hmid.act_track hid hne hd hst h.silent htrack⟩
    · refine h.touched (undisturbed_act e hk fun s' hs' => ?_) htouch hk
      obtain rfl := Option.some.inj (hmid.runner.symm.trans hs')
      exact ⟨hid, hne⟩

theorem Tracked.passes (h : Tracked limit rules time vars e id) (ho : e.Orderly)
    (hf : Passes e f) : Tracked limit rules time vars f id := by
  induction hf with
  | refl => exact h
  | tail hpast hstep ih => exact ih.happens (ho.passes hpast) hstep

end Engine

end StepWorld
