import StepWorld.Proofs.Engine.Ending

/-! What a listener does to a simulation after a step. Its reactions pause, complete or keep the
simulation, and the loop that acts is cancelled as soon as it is not running. -/

namespace StepWorld

namespace Reaction

/-- The status that a reaction makes, if the archive refuses nothing. A reaction that breaks off
makes none. -/
def next? (status : SimulationStatus) : Reaction → Option SimulationStatus
  | .pause => if status = .running then some .paused else none
  | .stop => if status.terminal then none else some .completed
  | .fail => none
  | .dropWorld | .setVariable .. => some status

/-- The status that reactions leave, if the archive refuses nothing. -/
def statusAfter (status : SimulationStatus) : List Reaction → SimulationStatus
  | [] => status
  | r :: rest =>
    match r.next? status with
    | none => status
    | some next => statusAfter next rest

def Done {ε : Type} (r : Reaction) (before after : SimulationStatus) : Except ε Unit → Prop
  | .ok _ => r.next? before = some after
  | .error _ => r.next? before = none ∧ after = before

end Reaction

namespace Engine

variable {e f g : Engine} {l : Loop} {rest : List Loop} {asleep : List (Float × Loop)}
  {s t : Simulation}

inductive Amid : SimulationStatus → Bool → Prop
  | running : Amid .running false
  | paused : Amid .paused true
  | completed : Amid .completed true

/-- The simulation of the loop that acts, after some of the reactions to its step. -/
structure Reacted (e f : Engine) (l : Loop) (rest : List Loop) (asleep : List (Float × Loop))
    (s t : Simulation) (cancelled : Bool) : Prop where
  midway : f.Midway { l with cancelled } rest asleep t
  amid : Amid t.status cancelled
  step : t.currentStep = s.currentStep
  begun : f.begun = e.begun
  summaries : f.summaries = e.summaries
  lawful : e.Lawful → f.Lawful

theorem Reacted.refl (h : e.Midway l rest asleep s) (ha : Amid s.status l.cancelled) :
    Reacted e e l rest asleep s s l.cancelled :=
  ⟨h, ha, rfl, rfl, rfl, id⟩

theorem Reacted.trans {c d : Bool} {u : Simulation} (h : Reacted e f l rest asleep s t c)
    (h' : Reacted f g { l with cancelled := c } rest asleep t u d) :
    Reacted e g l rest asleep s u d where
  midway := h'.midway
  amid := h'.amid
  step := h'.step.trans h.step
  begun := h'.begun.trans h.begun
  summaries := h'.summaries.trans h.summaries
  lawful := h'.lawful ∘ h.lawful

theorem reacted_pause (h : e.Midway l rest asleep s) (hs : s.status = .running)
    (hphase : ∀ due, l.phase ≠ .drowsy due) :
    Reacted e (e.call (pause l.simulation)).2 l rest asleep s { s with status := .paused } true := by
  have hsteady := steady_pause h.own hs
  have hmid := (h.cancel hphase).enter .paused
  refine ⟨hmid.steady hsteady, .paused, rfl, hsteady.begun, hsteady.summaries, fun he => ?_⟩
  have hcancel : (e.cancel l.simulation).Lawful := he.unseen rfl rfl
  have hnext : s.status.Precedes .paused := by
    rw [hs]
    exact .inl .pause
  exact (hcancel.enter h.own hnext).steady hsteady

theorem reacted_stop (h : e.Midway l rest asleep s) (hs : s.status.terminal = false)
    (hphase : ∀ due, l.phase ≠ .drowsy due) :
    Reacted e (e.call (stopWithin l.simulation)).2 l rest asleep s
      { s with status := .completed, completedAt := some e.tick.1 } true := by
  have hsteady := steady_stopWithin h.own hs
  have hmid := (h.cancel hphase).noteEnd .completed
  refine ⟨hmid.steady hsteady, .completed, rfl, hsteady.begun, hsteady.summaries, fun he => ?_⟩
  have hcancel : (e.cancel l.simulation).Lawful := he.unseen rfl rfl
  have hne : s.status ≠ .error := by
    intro he
    rw [he] at hs
    cases hs
  exact (hcancel.noteEnd h.own (SimulationStatus.precedes_completed hne)).steady hsteady

theorem reactionCall_cases (e : Engine) (task : Task Unit) :
    (∃ f, e.reactionCall task = (.ok (), f) ∧ e.call task = (.ok (), f)) ∨
      ∃ error f, e.reactionCall task = (.error (.refused error), f) ∧
        e.call task = (.error error, f) := by
  unfold reactionCall
  generalize e.call task = result
  obtain ⟨result, f⟩ := result
  cases result with
  | ok u => exact .inl ⟨f, rfl, rfl⟩
  | error error => exact .inr ⟨error, f, rfl, rfl⟩

theorem Reacted.reactionCall {r : Reaction} {action : LifecycleAction} {c : Bool}
    {next : Simulation → Task Unit} (hs : e.simulations.get? l.simulation = some s)
    (ha : action.allows s.status = true) (hf : Faithful (next s))
    (h : Reacted e (e.call (lookupFor action l.simulation >>= next)).2 l rest asleep s t c)
    (hnext : r.next? s.status = some t.status) :
    Reacted e (e.reactionCall (lookupFor action l.simulation >>= next)).2 l rest asleep s t c ∧
      ((e.reactionCall (lookupFor action l.simulation >>= next)).2.refusals = [] →
        r.Done s.status t.status
          (e.reactionCall (lookupFor action l.simulation >>= next)).1) := by
  rcases e.reactionCall_cases (lookupFor action l.simulation >>= next) with
    ⟨f, hr, hc⟩ | ⟨error, f, hr, hc⟩
  · rw [hr]
    rw [hc] at h
    exact ⟨h, fun _ => hnext⟩
  · rw [hr]
    rw [hc] at h
    refine ⟨h, fun hnone => absurd hnone ?_⟩
    have herror := hf e error
    rw [← call_of_get? hs ha, hc] at herror
    exact herror rfl

theorem Reacted.refused {r : Reaction} {action : LifecycleAction} {next : Simulation → Task Unit}
    (h : e.Midway l rest asleep s) (ha : Amid s.status l.cancelled)
    (hs : action.allows s.status = false) (hnext : r.next? s.status = none) :
    Reacted e (e.reactionCall (lookupFor action l.simulation >>= next)).2 l rest asleep s s
        l.cancelled ∧
      ((e.reactionCall (lookupFor action l.simulation >>= next)).2.refusals = [] →
        r.Done s.status s.status (e.reactionCall (lookupFor action l.simulation >>= next)).1) := by
  have hrefused : ∀ t, e.simulations.get? l.simulation = some t → action.allows t.status = false := by
    intro t ht
    rw [h.own] at ht
    cases ht
    exact hs
  obtain ⟨error, hcall⟩ := @call_refused e l.simulation action Unit next hrefused
  have hreaction : e.reactionCall (lookupFor action l.simulation >>= next) =
      (.error (.refused error), e) := by
    unfold Engine.reactionCall
    rw [hcall]
  rw [hreaction]
  exact ⟨.refl h ha, fun _ => ⟨hnext, rfl⟩⟩

theorem react_spec (h : e.Midway l rest asleep s) (ha : Amid s.status l.cancelled)
    (hphase : ∀ due, l.phase ≠ .drowsy due) (r : Reaction) :
    ∃ t c, Reacted e (e.react l.simulation r).2 l rest asleep s t c ∧
      ((e.react l.simulation r).2.refusals = [] →
        r.Done s.status t.status (e.react l.simulation r).1) := by
  cases r with
  | pause =>
    have hnext := reacted_pause h
    simp only [react, pause] at hnext ⊢
    by_cases hs : s.status = .running
    · have hallows : LifecycleAction.pause.allows s.status = true := by
        rw [hs]
        rfl
      refine ⟨_, _, Reacted.reactionCall h.own hallows ?_ (hnext hs hphase) (by simp [Reaction.next?, hs])⟩
      exact .of_bind (.of_modify _) fun _ => .of_bind (.setStatus _ _) fun _ => .of_modify _
    · have hallows : LifecycleAction.pause.allows s.status = false := by
        simpa [LifecycleAction.allows] using hs
      exact ⟨s, _, Reacted.refused h ha hallows (by simp [Reaction.next?, hs])⟩
  | stop =>
    have hnext := reacted_stop h
    simp only [react, stopWithin] at hnext ⊢
    by_cases hs : s.status.terminal = true
    · have hallows : LifecycleAction.stop.allows s.status = false := by
        simpa [LifecycleAction.allows] using hs
      exact ⟨s, _, Reacted.refused h ha hallows (by simp [Reaction.next?, hs])⟩
    · rw [Bool.not_eq_true] at hs
      have hallows : LifecycleAction.stop.allows s.status = true := by
        simp [LifecycleAction.allows, hs]
      refine ⟨_, _, Reacted.reactionCall h.own hallows ?_ (hnext hs hphase) (by simp [Reaction.next?, hs])⟩
      exact .of_bind (.of_modify _) fun _ => .complete _
  | fail => exact ⟨s, _, .refl h ha, fun _ => ⟨rfl, rfl⟩⟩
  | dropWorld =>
    have hmid : (e.react l.simulation .dropWorld).2.Midway l rest asleep s := h.unseen rfl rfl rfl
    exact ⟨s, _, ⟨hmid, ha, rfl, rfl, rfl, fun he => he.unseen rfl rfl⟩, fun _ => rfl⟩
  | setVariable name value =>
    have hmid : (e.react l.simulation (.setVariable name value)).2.Midway l rest asleep s :=
      h.unseen rfl rfl rfl
    exact ⟨s, _, ⟨hmid, ha, rfl, rfl, rfl, fun he => he.unseen rfl rfl⟩, fun _ => rfl⟩

theorem reactAll_spec (h : e.Midway l rest asleep s) (ha : Amid s.status l.cancelled)
    (hphase : ∀ due, l.phase ≠ .drowsy due) (world : World) (reactions : List Reaction) :
    ∃ t c, Reacted e (e.reactAll l.simulation world reactions).2 l rest asleep s t c ∧
      ((e.reactAll l.simulation world reactions).2.refusals = [] →
        t.status = Reaction.statusAfter s.status reactions) := by
  induction reactions generalizing e l s world with
  | nil => exact ⟨s, _, .refl h ha, fun _ => rfl⟩
  | cons r remaining ih =>
    obtain ⟨t, c, hr, hdone⟩ := react_spec h ha hphase r
    have hgrow (f : Engine) (w : World) :=
      (@touches_reactAll l.simulation f w remaining).refusals
    unfold reactAll
    generalize e.react l.simulation r = result at hr hdone ⊢
    obtain ⟨result, f⟩ := result
    cases result with
    | error error =>
      refine ⟨t, c, ⟨hr.midway.unseen rfl rfl rfl, hr.amid, hr.step, hr.begun, hr.summaries,
        fun he => (hr.lawful he).unseen rfl rfl⟩, fun hnone => ?_⟩
      obtain ⟨hn, ht⟩ := hdone hnone
      simpa only [Reaction.statusAfter, hn] using ht
    | ok u =>
      obtain ⟨u, d, hall, hstatus⟩ := @ih f { l with cancelled := c } t hr.midway hr.amid hphase
        ((f.arena.world? l.simulation).getD world)
      refine ⟨u, d, hr.trans hall, fun hnone => ?_⟩
      have hn := hdone (List.prefix_nil.mp (hnone ▸ hgrow f _))
      have hn' : r.next? s.status = some t.status := hn
      simpa only [Reaction.statusAfter, hn'] using hstatus hnone

end Engine

end StepWorld
