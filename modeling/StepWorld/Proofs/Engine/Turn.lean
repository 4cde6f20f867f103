import StepWorld.Proofs.Engine.Reaction

/-! What one turn of a loop does. The loop takes a step and goes to the end of the queue, or it
ends and its simulation does not run. -/

namespace StepWorld

namespace Engine

variable {e f g : Engine} {l : Loop} {rest : List Loop} {asleep : List (Float × Loop)}
  {s t : Simulation}

inductive Placed (f : Engine) (l : Loop) (rest : List Loop) (t : Simulation) : Prop
  | back (phase : LoopPhase) (hq : f.schedule.queue = rest ++ [{ l with phase }])
      (hd : phase.delay ≤ 3) (hl : l.cancelled = false) (ht : t.status = .running)
  | gone (hq : f.schedule.queue = rest) (ht : t.status = .paused ∨ t.status.terminal = true)

/-- What a turn after a step leaves. The listener alone decides whether the simulation is paused
where the loop has gone. -/
structure Followed (e f : Engine) (l : Loop) (rest : List Loop) (asleep : List (Float × Loop))
    (s t : Simulation) (σ : StepSummary) : Prop where
  own : f.simulations.get? l.simulation = some t
  attached : f.detached = []
  sleepers : f.schedule.sleepers = asleep
  placed : Placed f l rest t
  step : t.currentStep = s.currentStep
  begun : f.begun = e.begun
  summaries : f.summaries = e.summaries ++ [(l.simulation, σ)]
  terminal : σ.terminal = true → f.schedule.queue = rest
  paused : f.refusals = [] →
    (t.status = .paused ↔
      Reaction.statusAfter .running (e.listener l.simulation σ.step) = .paused)
  lawful : f.refusals = [] → e.Lawful → f.Lawful

/-- The listener has heard of a step, and the turn goes on. -/
structure Heard (e g : Engine) (l : Loop) (rest : List Loop) (asleep : List (Float × Loop))
    (s u : Simulation) (cancelled : Bool) (σ : StepSummary) : Prop where
  midway : g.Midway { l with cancelled } rest asleep u
  amid : Amid u.status cancelled
  step : u.currentStep = s.currentStep
  begun : g.begun = e.begun
  summaries : g.summaries = e.summaries ++ [(l.simulation, σ)]
  status : g.refusals = [] →
    u.status = Reaction.statusAfter .running (e.listener l.simulation σ.step)
  lawful : e.Lawful → g.Lawful

namespace Heard

variable {u : Simulation} {c : Bool} {σ : StepSummary}

theorem steady (h : Heard e f l rest asleep s u c σ) (hs : Steady f g) :
    Heard e g l rest asleep s u c σ where
  midway := h.midway.steady hs
  amid := h.amid
  step := h.step
  begun := hs.begun.trans h.begun
  summaries := hs.summaries.trans h.summaries
  status hnone := h.status (List.prefix_nil.mp (hnone ▸ hs.refusals))
  lawful he := (h.lawful he).steady hs

theorem not_error (h : Heard e g l rest asleep s u c σ) : u.status ≠ .error := by
  intro hu
  have ha := h.amid
  rw [hu] at ha
  cases ha

theorem leave (h : Heard e g l rest asleep s u c σ) (hl : l.stopping = false) :
    ∃ t, Followed e (g.leave l.simulation) l rest asleep s t σ := by
  obtain ⟨t, hend, hcases, hlaw⟩ := leave_spec h.midway
  have hgrow := (@touches_leave l.simulation g).refusals
  have hattached := (@touches_leave l.simulation g).detached h.midway.attached
  refine ⟨t, hend.own, hattached, hend.sleepers, .gone hend.queue ?_, hend.step.trans h.step,
    hend.begun.trans h.begun, hend.summaries.trans h.summaries, fun _ => hend.queue, ?_, ?_⟩
  · rcases hcases with ⟨hp, -, rfl, -⟩ | ⟨-, ht⟩
    · exact .inl hp
    · exact .inr ht
  · intro hnone
    rw [← h.status (List.prefix_nil.mp (hnone ▸ hgrow))]
    rcases hcases with ⟨hp, -, rfl, -⟩ | ⟨hn, ht⟩
    · rfl
    · refine iff_of_false ?_ fun hp => hn ⟨hp, hl⟩
      intro hp
      rw [hp] at ht
      cases ht
  · exact fun hnone he => hlaw h.not_error hnone (h.lawful he)

theorem breakOff (h : Heard e g l rest asleep s u c σ) (hr : g.refusals ≠ [])
    (message : String) : ∃ t, Followed e (g.breakOff l.simulation message) l rest asleep s t σ := by
  obtain ⟨t, hend, ht, -⟩ := breakOff_spec h.midway message
  have hgrow := (@touches_breakOff l.simulation g message).refusals
  have hattached := (@touches_breakOff l.simulation g message).detached h.midway.attached
  have hsome : (g.breakOff l.simulation message).refusals ≠ [] :=
    fun hnone => hr (List.prefix_nil.mp (hnone ▸ hgrow))
  exact ⟨t, hend.own, hattached, hend.sleepers, .gone hend.queue (.inr (by rw [ht]; rfl)),
    hend.step.trans h.step, hend.begun.trans h.begun, hend.summaries.trans h.summaries,
    fun _ => hend.queue, fun hnone => absurd hnone hsome, fun hnone => absurd hnone hsome⟩

theorem rotate (h : Heard e g l rest asleep s u false σ) (hl : l.cancelled = false)
    (hσ : σ.terminal = false) {phase : LoopPhase} (hd : phase.delay ≤ 3) :
    ∃ t, Followed e (g.reschedule (·.rotate phase)) l rest asleep s t σ := by
  have hu : u.status = .running := by
    have ha := h.amid
    generalize u.status = status at ha ⊢
    cases ha
    rfl
  have hschedule : (g.reschedule (·.rotate phase)).schedule =
      { g.schedule with queue := rest ++ [{ l with phase }] } := by
    simp only [reschedule, Schedule.rotate, h.midway.queue, hl]
  refine ⟨u, h.midway.own, h.midway.attached, ?_, .back phase ?_ hd hl hu, h.step, h.begun,
    h.summaries, ?_, ?_, fun _ he => (h.lawful he).unseen rfl rfl⟩
  · rw [hschedule]
    exact h.midway.sleepers
  · rw [hschedule]
  · intro hterminal
    rw [hσ] at hterminal
    cases hterminal
  · intro hnone
    rw [← h.status hnone]

theorem pace {s' : Simulation} (h : Heard e g l rest asleep s u c σ) (hs : s'.id = l.simulation)
    (hl : l.cancelled = false) (hst : l.stopping = false) (hσ : σ.terminal = false) :
    ∃ t, Followed e (g.rest s') l rest asleep s t σ := by
  unfold Engine.rest
  rw [hs, h.midway.find]
  cases c with
  | true => exact h.leave hst
  | false =>
    simp only [Option.any_some, Bool.false_eq_true, if_false]
    split
    · have hphase : g.reschedule (fun t => t.rotate (.drowsy (t.now + s'.stepInterval))) =
          g.reschedule (·.rotate (.drowsy (g.schedule.now + s'.stepInterval))) := by
        simp only [reschedule]
      rw [hphase]
      exact h.rotate hl hσ (Nat.le_refl _)
    · exact h.rotate hl hσ (by decide)

end Heard

theorem afterStep_spec (h : e.Midway l rest asleep s) {s' : Simulation} (hid : s'.id = l.simulation)
    (hs : s.status = .running) (hl : l.cancelled = false) (hst : l.stopping = false)
    (hphase : ∀ due, l.phase ≠ .drowsy due) (σ : StepSummary) :
    ∃ t, Followed e (e.afterStep s' σ) l rest asleep s t σ := by
  have hamid : Amid s.status l.cancelled := by
    rw [hs, hl]
    exact .running
  have hseen : ({ e with summaries := e.summaries ++ [(l.simulation, σ)] } : Engine).Midway
      l rest asleep s := h.unseen rfl rfl rfl
  obtain ⟨u, c, hreact, hstatus⟩ := reactAll_spec hseen hamid hphase
    ((e.arena.world? l.simulation).getD (.empty 0)) (e.listener l.simulation σ.step)
  unfold afterStep
  rw [hid]
  dsimp only
  generalize reactAll { e with summaries := e.summaries ++ [(l.simulation, σ)] } l.simulation
    ((e.arena.world? l.simulation).getD (.empty 0)) (e.listener l.simulation σ.step) =
    reacted at hreact hstatus ⊢
  obtain ⟨world, g⟩ := reacted
  have hheard : Heard e g l rest asleep s u c σ :=
    ⟨hreact.midway, hreact.amid, hreact.step, hreact.begun, hreact.summaries,
      fun hnone => hs ▸ hstatus hnone, fun he => hreact.lawful (he.unseen rfl rfl)⟩
  cases hσ : σ.terminal with
  | true => exact (hheard.steady (steady_print _ _)).leave hst
  | false =>
    simp only [Bool.false_eq_true, if_false]
    have hkept := hheard.steady (Steady.store (Archive.saveSnapshot l.simulation σ.step world) g)
    have hcall : ((store (Archive.saveSnapshot l.simulation σ.step world)).run.run g).2 =
        (g.call (store (Archive.saveSnapshot l.simulation σ.step world))).2 := rfl
    rw [hcall] at hkept
    rcases @call_store g (Archive.saveSnapshot l.simulation σ.step world) with
      ⟨archive, hstore, -⟩ | ⟨error, archive, hstore⟩
    · rw [hstore] at hkept ⊢
      exact hkept.pace hid hl hst hσ
    · rw [hstore] at hkept ⊢
      exact hkept.breakOff (by simp) _

theorem Midway.begin (h : e.Midway l rest asleep s) (arena : Arena) {g : Simulation → Simulation} :
    (e.stepped l.simulation arena g).Midway l rest asleep (g s) :=
  have hbegun : ({ e with begun := e.begun ++ [l.simulation], arena } : Engine).Midway
      l rest asleep s := h.unseen rfl rfl rfl
  hbegun.alter g

theorem step_spec (h : e.Midway l rest asleep s) (hid : s.id = l.simulation) :
    ∃ t, (e.step s).2.Midway l rest asleep t ∧ t.status = s.status ∧
      s.currentStep ≤ t.currentStep ∧
      (∀ σ, (e.step s).1 = .ok σ → σ.step = s.currentStep + 1 ∧ t.currentStep = σ.step) ∧
      (e.step s).2.begun = e.begun ++ [l.simulation] ∧ (e.step s).2.summaries = e.summaries ∧
      (e.Lawful → (e.step s).2.Lawful) := by
  rcases e.step_cases s with ⟨error, arena, f, hstep, -, hf⟩ | ⟨σ, arena, st, hstep, -, hσ, -, hr⟩
  · rw [hstep, hid]
    obtain ⟨statistics, hfs⟩ := hf s
    refine ⟨f s, h.begin arena, by rw [hfs], by rw [hfs], ?_, rfl, rfl, fun he => ?_⟩
    · intro σ hσ
      cases hσ
    · have hbegun : ({ e with begun := e.begun ++ [l.simulation], arena } : Engine).Lawful :=
        he.unseen rfl rfl
      refine hbegun.alter fun t => ?_
      obtain ⟨statistics, hft⟩ := hf t
      rw [hft]
  · rw [hstep, hid]
    refine ⟨_, h.begin arena, rfl, Nat.le_succ _, fun σ' hσ' => ?_, rfl, rfl, fun he => ?_⟩
    · rcases hr with hr | ⟨hr, -⟩
      · rw [hr] at hσ'
        cases hσ'
        exact ⟨hσ, hσ.symm⟩
      · rw [hr] at hσ'
        cases hσ'
    · have hbegun : ({ e with begun := e.begun ++ [l.simulation], arena } : Engine).Lawful :=
        he.unseen rfl rfl
      exact hbegun.alter fun _ => rfl

/-- What was noted of a turn: no step, a step that failed, or a step and its summary. -/
inductive Noted (e f : Engine) (l : Loop) (rest : List Loop) (s t : Simulation) : Prop
  | nothing (hc : l.continues s = false) (hb : f.begun = e.begun) (hs : f.summaries = e.summaries)
      (hstep : t.currentStep = s.currentStep) (hq : f.schedule.queue = rest)
  | failure (hc : l.continues s = true) (hb : f.begun = e.begun ++ [l.simulation])
      (hs : f.summaries = e.summaries) (hstep : s.currentStep ≤ t.currentStep)
      (ht : t.status = .error) (hq : f.schedule.queue = rest)
  | summary (σ : StepSummary) (hc : l.continues s = true) (hb : f.begun = e.begun ++ [l.simulation])
      (hs : f.summaries = e.summaries ++ [(l.simulation, σ)])
      (hσ : σ.step = s.currentStep + 1) (hstep : t.currentStep = σ.step)
      (hterminal : σ.terminal = true → f.schedule.queue = rest)
      (hpaused : f.refusals = [] → (t.status = .paused ↔
        Reaction.statusAfter .running (e.listener l.simulation σ.step) = .paused))

/-- What a loop does in its turn. -/
structure Acted (e f : Engine) (l : Loop) (rest : List Loop) (asleep : List (Float × Loop))
    (s t : Simulation) : Prop where
  own : f.simulations.get? l.simulation = some t
  attached : f.detached = []
  sleepers : f.schedule.sleepers = asleep
  placed : Placed f l rest t
  noted : Noted e f l rest s t
  paused : s.status = .paused → l.stopping = false → t = s
  lawful : f.refusals = [] → e.Lawful → f.Lawful

theorem act_spec (h : e.Midway l rest asleep s) (hid : s.id = l.simulation)
    (hd : l.Drives s.status) (hphase : ∀ due, l.phase ≠ .drowsy due) :
    ∃ t, Acted e (e.act l) l rest asleep s t := by
  have htouch : Touches l.simulation e (e.act l) := by
    refine touches_act e l fun t ht => ?_
    rw [h.runner] at ht
    cases ht
    exact hid
  have hattached := htouch.detached h.attached
  unfold act at hattached ⊢
  rw [h.runner] at hattached ⊢
  dsimp only at hattached ⊢
  by_cases hc : l.continues s = true
  · rw [if_pos hc] at hattached ⊢
    obtain ⟨hs, hl, hst, -⟩ := Loop.continues_iff.mp hc
    obtain ⟨u, hmid, hu, hle, hok, hb, hsum, hlaw⟩ := step_spec h hid
    have hlistener := (touches_step e s).listener
    have hpaused (t : Simulation) : s.status = .paused → l.stopping = false → t = s := by
      intro hp
      rw [hs] at hp
      cases hp
    -- From here on only what `step_spec` says of the step counts.
    generalize e.step s = result at *
    obtain ⟨result, g⟩ := result
    cases result with
    | ok σ =>
      obtain ⟨hσ, hcount⟩ := hok σ rfl
      obtain ⟨t, ht⟩ := afterStep_spec hmid hid (hu.trans hs) hl hst hphase σ
      refine ⟨t, ht.own, ht.attached, ht.sleepers, ht.placed, ?_, hpaused t, ?_⟩
      · refine .summary σ hc (ht.begun.trans hb) (ht.summaries.trans (by rw [hsum])) hσ
          (ht.step.trans hcount) ht.terminal ?_
        rw [← hlistener]
        exact ht.paused
      · exact fun hnone he => ht.lawful hnone (hlaw he)
    | error error =>
      obtain ⟨t, hend, ht, -, hlaw'⟩ := breakOff_spec hmid error.message
      rw [hid] at hattached ⊢
      refine ⟨t, hend.own, hattached, hend.sleepers, .gone hend.queue (.inr (by rw [ht]; rfl)), ?_,
        hpaused t, fun _ he => hlaw' (hu.trans hs) (hlaw he)⟩
      exact .failure hc (hend.begun.trans hb) (hend.summaries.trans hsum)
        (hle.trans_eq hend.step.symm) ht hend.queue
  · rw [if_neg hc, hid] at hattached ⊢
    obtain ⟨t, hend, hcases, hlaw⟩ := leave_spec h
    have hne : s.status ≠ .error := by
      rcases hd with ⟨hs, -⟩ | ⟨hs, -⟩ <;> rw [hs] <;> decide
    refine ⟨t, hend.own, hattached, hend.sleepers, .gone hend.queue ?_,
      .nothing (Bool.eq_false_iff.mpr hc) hend.begun hend.summaries hend.step hend.queue,
      fun hp hst => ?_, hlaw hne⟩
    · rcases hcases with ⟨hp, -, rfl, -⟩ | ⟨-, ht⟩
      · exact .inl hp
      · exact .inr ht
    · rcases hcases with ⟨-, -, rfl, -⟩ | ⟨hn, -⟩
      · rfl
      · exact absurd ⟨hp, hst⟩ hn

end Engine

end StepWorld
