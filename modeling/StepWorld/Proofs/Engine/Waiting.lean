import StepWorld.Proofs.Engine.Progress

/-! What stays while a caller waits. The histories grow, lives stay lawful, and a simulation
whose loop cannot go on takes no step. -/

namespace StepWorld

namespace Engine

variable {e f g : Engine} {l : Loop} {rest : List Loop} {id : String} {s : Simulation}

/-- Nothing that was noted is gone, nothing failed that the archive did not refuse, and no
simulation has a result that was given no status. -/
structure Extends (e f : Engine) : Prop where
  listener : f.listener = e.listener
  statuses : e.statuses <+: f.statuses
  summaries : e.summaries <+: f.summaries
  results : ∀ k, e.results.get? k = none →
    f.results.get? k = none ∨ ∃ status, (k, status) ∈ f.statuses
  refusals : e.refusals <+: f.refusals
  failures : f.refusals = [] → ∀ k, e.failures.get? k = none → f.failures.get? k = none

namespace Extends

theorem refl (e : Engine) : Extends e e :=
  ⟨rfl, List.prefix_refl _, List.prefix_refl _, fun _ h => .inl h, List.prefix_refl _,
    fun _ _ h => h⟩

theorem none (h : Extends e f) (hf : f.refusals = []) : e.refusals = [] :=
  List.prefix_nil.mp (hf ▸ h.refusals)

theorem trans (h : Extends e f) (h' : Extends f g) : Extends e g where
  listener := h'.listener.trans h.listener
  statuses := h.statuses.trans h'.statuses
  summaries := h.summaries.trans h'.summaries
  results k hk := by
    rcases h.results k hk with hnone | ⟨status, hstatus⟩
    · exact h'.results k hnone
    · exact .inr ⟨status, h'.statuses.subset hstatus⟩
  refusals := h.refusals.trans h'.refusals
  failures hr k hk := h'.failures hr k (h.failures (h'.none hr) k hk)

end Extends

theorem Touches.extends (h : Touches id e f) : Extends e f where
  listener := h.listener
  statuses := by
    obtain ⟨added, hadded, -⟩ := h.statuses
    exact hadded ▸ List.prefix_append _ _
  summaries := by
    obtain ⟨added, hadded, -⟩ := h.summaries
    exact hadded ▸ List.prefix_append _ _
  results := h.results
  refusals := h.refusals
  failures := h.failures

theorem Steady.extends (h : Steady e f) : Extends e f where
  listener := h.listener
  statuses := h.statuses ▸ List.prefix_refl _
  summaries := h.summaries ▸ List.prefix_refl _
  results := h.results
  refusals := h.refusals
  failures := h.failures

theorem Orderly.extends_happens (h : e.Orderly) (hf : e.Happens f) : Extends e f := by
  cases hf with
  | shuffle =>
    exact ⟨rfl, List.prefix_refl _, List.prefix_refl _, fun _ h => .inl h, List.prefix_refl _,
      fun _ _ h => h⟩
  | act hq hphase =>
    obtain ⟨s, t, -, -, htouch, -⟩ := h.acted hq hphase
    exact htouch.extends

theorem Orderly.extends_passes (h : e.Orderly) (hf : Passes e f) : Extends e f := by
  induction hf with
  | refl => exact .refl e
  | tail hpast hstep ih => exact ih.trans ((h.passes hpast).extends_happens hstep)

theorem Orderly.lawful_passes (h : e.Orderly) (hf : Passes e f) (hr : f.refusals = [])
    (he : e.Lawful) : f.Lawful := by
  induction hf with
  | refl => exact he
  | tail hpast hstep ih =>
    have hmiddle := h.passes hpast
    have hlaw := ih ((hmiddle.extends_happens hstep).none hr)
    cases hstep with
    | shuffle => exact hlaw.unseen rfl rfl
    | act hq hphase =>
      obtain ⟨s, t, -, -, -, ht⟩ := hmiddle.acted hq hphase
      exact ht.lawful hr hlaw

def begunOf (e : Engine) (id : String) : Nat := e.begun.count id

def summariesOf (e : Engine) (id : String) : List StepSummary :=
  (e.summaries.filter (·.1 == id)).map (·.2)

def Still (e : Engine) (id : String) : Prop :=
  ∀ l ∈ e.schedule.loops, l.simulation = id →
    ∀ s, e.simulations.get? id = some s → l.continues s = false

theorem Touches.begunOf {k : String} (h : Touches k e f) (hk : id ≠ k) :
    f.begunOf id = e.begunOf id := by
  obtain ⟨added, hadded, hall⟩ := h.begun
  have hnone : added.count id = 0 := List.count_eq_zero.mpr fun hmem => hk (hall id hmem)
  simp [Engine.begunOf, hadded, hnone]

theorem Touches.summariesOf {k : String} (h : Touches k e f) (hk : id ≠ k) :
    f.summariesOf id = e.summariesOf id := by
  rw [Engine.summariesOf, filter_appended h.summaries hk]
  rfl

theorem Touches.statusesOf {k : String} (h : Touches k e f) (hk : id ≠ k) :
    f.statusesOf id = e.statusesOf id := by
  rw [Engine.statusesOf, filter_appended h.statuses hk]
  rfl

/-- A simulation that is still takes no step, whatever happens. -/
structure Unmoved (e f : Engine) (id : String) : Prop where
  begun : f.begunOf id = e.begunOf id
  summaries : f.summariesOf id = e.summariesOf id
  absent : e.simulations.get? id = none → f.simulations.get? id = none
  step : ∀ s, e.simulations.get? id = some s →
    ∃ t, f.simulations.get? id = some t ∧ t.currentStep = s.currentStep ∧
      t.maxSteps = s.maxSteps ∧ (s.status.terminal = true → t = s)

theorem Orderly.still_happens (h : e.Orderly) (hs : e.Still id) (hf : e.Happens f) :
    f.Still id ∧ Unmoved e f id := by
  have hcore {k l : Loop} {t : Simulation} (hkl : l.core = k.core) :
      k.continues t = l.continues t := by
    simp only [Loop.core, Prod.mk.injEq] at hkl
    simp [Loop.continues, hkl]
  have hloops := h.loops_happens hf
  cases hf with
  | shuffle hc hb =>
    refine ⟨fun k hk hid s hget => ?_, rfl, rfl, fun hs => hs,
      fun s hget => ⟨s, hget, rfl, rfl, fun _ => rfl⟩⟩
    obtain ⟨l, hl, hkl⟩ := hloops k hk
    have hsim : l.simulation = id := (congrArg Prod.fst hkl).trans hid
    rw [hcore hkl]
    exact hs l hl hsim s hget
  | @act l rest hq hphase =>
    obtain ⟨s, t, hmid, hd, htouch, ht⟩ := h.acted hq hphase
    by_cases hid : id = l.simulation
    · subst hid
      have hstop := hs l (by simp [Schedule.loops, hq]) rfl s hmid.own
      obtain ⟨u, hu, -, hmax⟩ := htouch.own s hmid.own
      obtain rfl : u = t := Option.some.inj (hu.symm.trans ht.own)
      -- The loop of a still simulation takes no step in its turn.
      cases ht.noted with
      | failure hc => exact absurd hc (by simp [hstop])
      | summary σ hc => exact absurd hc (by simp [hstop])
      | nothing _ hb hsum hstep hgone =>
        refine ⟨fun k hk hsim => ?_, by rw [begunOf, hb]; rfl, by rw [summariesOf, hsum]; rfl,
          htouch.absent, ?_⟩
        · rw [Schedule.loops, hgone, ht.sleepers] at hk
          exact absurd hsim (hmid.apart k hk)
        · intro s' hs'
          obtain rfl : s' = s := Option.some.inj (hs'.symm.trans hmid.own)
          refine ⟨u, hu, hstep, hmax, fun hterminal => ?_⟩
          rcases hd with ⟨hrun, -⟩ | ⟨hpause, -⟩
          · simp [hrun, SimulationStatus.terminal] at hterminal
          · simp [hpause, SimulationStatus.terminal] at hterminal
    · refine ⟨fun k hk hsim s hget => ?_, htouch.begunOf hid, htouch.summariesOf hid,
        fun hget => (htouch.others id hid).trans hget, fun s hget => ?_⟩
      · obtain ⟨m, hm, hkl⟩ := hloops k hk
        have hsim' : m.simulation = id := (congrArg Prod.fst hkl).trans hsim
        rw [hcore hkl]
        rw [htouch.others id hid] at hget
        exact hs m hm hsim' s hget
      · exact ⟨s, (htouch.others id hid).trans hget, rfl, rfl, fun _ => rfl⟩

theorem Unmoved.trans (h : Unmoved e f id) (h' : Unmoved f g id) : Unmoved e g id where
  begun := h'.begun.trans h.begun
  summaries := h'.summaries.trans h.summaries
  absent := h'.absent ∘ h.absent
  step s hs := by
    obtain ⟨t, ht, hstep, hmax, hsame⟩ := h.step s hs
    obtain ⟨u, hu, hstep', hmax', hsame'⟩ := h'.step t ht
    refine ⟨u, hu, hstep'.trans hstep, hmax'.trans hmax, fun hterminal => ?_⟩
    obtain rfl := hsame hterminal
    exact hsame' hterminal

theorem Orderly.still_passes (h : e.Orderly) (hs : e.Still id) (hf : Passes e f) :
    f.Still id ∧ Unmoved e f id := by
  induction hf with
  | refl => exact ⟨hs, rfl, rfl, fun hs => hs, fun s hs => ⟨s, hs, rfl, rfl, fun _ => rfl⟩⟩
  | tail hpast hstep ih =>
    obtain ⟨hstill, hmoved⟩ := ih
    obtain ⟨hstill', hmoved'⟩ := (h.passes hpast).still_happens hstill hstep
    exact ⟨hstill', hmoved.trans hmoved'⟩

theorem Orderly.paused_passes (h : e.Orderly) (hf : Passes e f)
    (hs : e.simulations.get? id = some s) (hp : s.status = .paused)
    (hcalm : ∀ l ∈ e.schedule.loops, l.simulation = id → l.stopping = false) :
    f.simulations.get? id = some s := by
  induction hf with
  | refl => exact hs
  | tail hpast hstep ih =>
    have hmiddle := h.passes hpast
    cases hstep with
    | shuffle => exact ih
    | @act l rest hq hphase =>
      obtain ⟨s', t, hmid, -, htouch, ht⟩ := hmiddle.acted hq hphase
      by_cases hid : id = l.simulation
      · subst hid
        obtain rfl : s' = s := Option.some.inj (hmid.own.symm.trans ih)
        obtain ⟨k, hk, hcore⟩ := h.loops_passes hpast l (by simp [Schedule.loops, hq])
        simp only [Loop.core, Prod.mk.injEq] at hcore
        have hst : l.stopping = false := hcore.2.2 ▸ hcalm k hk hcore.1
        rw [← ht.paused hp hst]
        exact ht.own
      · exact (htouch.others id hid).trans ih

end Engine

end StepWorld
