import StepWorld.Proofs.Engine.Lifecycle

/-! What follows a step that ends a run. The loop of the simulation ends with it; whether
another step can be taken later hangs on the listener, who may leave the simulation paused. -/

namespace StepWorld

namespace Engine

variable {e f g : Engine} {k id : String} {s : Simulation} {σ : StepSummary}

/-- The loop of a simulation ended with a step. -/
structure Concluded (e : Engine) (id : String) (σ : StepSummary) (s : Simulation) : Prop where
  own : e.simulations.get? id = some s
  step : s.currentStep = σ.step
  ended : e.pending id = false
  idle : s.status = .paused ∨ s.status.terminal = true
  paused : e.refusals = [] →
    (s.status = .paused ↔ Reaction.statusAfter .running (e.listener id σ.step) = .paused)

def Concludes (e f : Engine) (id : String) : Prop :=
  ∃ added, f.summariesOf id = e.summariesOf id ++ added ∧
    ∀ σ ∈ added, σ.terminal = true → ∃ s, f.Concluded id σ s

theorem Concludes.refl (e : Engine) (id : String) : Concludes e e id := ⟨[], by simp, by simp⟩

theorem concludes_of_summaries (h : f.summariesOf id = e.summariesOf id) : Concludes e f id :=
  ⟨[], by simp [h], by simp⟩

theorem Concluded.congr (h : e.Concluded id σ s) (hget : f.simulations.get? id = some s)
    (hp : f.pending id = false) (hf : Extends e f) : f.Concluded id σ s where
  own := hget
  step := h.step
  ended := hp
  idle := h.idle
  paused hr := by
    rw [hf.listener]
    exact h.paused (hf.none hr)

theorem Concludes.trans (h : Concludes e f id) (h' : Concludes f g id)
    (hkeep : ∀ σ s, f.Concluded id σ s → g.Concluded id σ s) : Concludes e g id := by
  obtain ⟨first, hfirst, hall⟩ := h
  obtain ⟨second, hsecond, hall'⟩ := h'
  refine ⟨first ++ second, by rw [hsecond, hfirst, List.append_assoc], fun σ hσ hterminal => ?_⟩
  rcases List.mem_append.mp hσ with hσ | hσ
  · obtain ⟨s, hs⟩ := hall σ hσ hterminal
    exact ⟨s, hkeep σ s hs⟩
  · exact hall' σ hσ hterminal

theorem Orderly.concluded_happens (h : e.Orderly) (hf : e.Happens f) (hs : e.Concluded id σ s) :
    f.Concluded id σ s := by
  refine hs.congr ?_ (h.pending_passes (.single hf) hs.ended) (h.extends_happens hf)
  cases hf with
  | shuffle => exact hs.own
  | @act l rest hq hphase =>
    obtain ⟨s', t, -, -, htouch, -⟩ := h.acted hq hphase
    have hid : id ≠ l.simulation :=
      (absent_of_not_pending hs.ended l (by simp [Schedule.loops, hq])).symm
    exact (htouch.others id hid).trans hs.own

theorem Orderly.concludes_happens (h : e.Orderly) (hf : e.Happens f) : Concludes e f id := by
  cases hf with
  | shuffle => exact concludes_of_summaries rfl
  | @act l rest hq hphase =>
    obtain ⟨s, t, hmid, hd, htouch, ht⟩ := h.acted hq hphase
    by_cases hid : id = l.simulation
    · subst hid
      cases ht.noted with
      | nothing _ _ hsum => exact concludes_of_summaries (by rw [summariesOf, hsum]; rfl)
      | failure _ _ hsum => exact concludes_of_summaries (by rw [summariesOf, hsum]; rfl)
      | summary σ hc hb hsum hσ hstep hterminal hpaused =>
        refine ⟨[σ], by simp [summariesOf, hsum], fun τ hτ hend => ?_⟩
        obtain rfl := List.mem_singleton.mp hτ
        have hqueue := hterminal hend
        refine ⟨t, ht.own, hstep, ?_, ?_, fun hr => ?_⟩
        · rw [Bool.eq_false_iff]
          intro hpending
          obtain ⟨m, hm, hsim⟩ := pending_iff.mp hpending
          rw [Schedule.loops, hqueue, ht.sleepers] at hm
          exact hmid.apart m hm hsim
        · cases ht.placed with
          | gone _ hover => exact hover
          | back phase hback => simp [hqueue] at hback
        · rw [htouch.listener]
          exact hpaused hr
    · exact concludes_of_summaries (htouch.summariesOf hid)

theorem Orderly.concludes_passes (h : e.Orderly) (hf : Passes e f) : Concludes e f id := by
  induction hf with
  | refl => exact .refl e id
  | tail hpast hstep ih =>
    have hmiddle := h.passes hpast
    exact ih.trans (hmiddle.concludes_happens hstep)
      fun σ s hs => hmiddle.concluded_happens hstep hs

theorem Concluded.does (h : e.Concluded id σ s) (hk : id ≠ k) (hf : Does k e f) :
    f.Concluded id σ s := by
  have hextends := Does.extends hf
  have hpending (hl : ∀ l ∈ f.schedule.loops, l.simulation ≠ k →
      ∃ m ∈ e.schedule.loops, m.core = l.core) : f.pending id = false := by
    rw [Bool.eq_false_iff]
    intro hp
    obtain ⟨l, hmem, hsim⟩ := pending_iff.mp hp
    obtain ⟨m, hm, hcore⟩ := hl l hmem (hsim ▸ hk)
    exact absent_of_not_pending h.ended m hm ((congrArg Prod.fst hcore).trans hsim)
  cases hf with
  | aside hs =>
    refine h.congr (hs.simulations ▸ h.own) ?_ hextends
    rw [pending, hs.schedule]
    exact h.ended
  | handle hh hc =>
    exact h.congr ((hh.touches.others id hk).trans h.own) (hpending hh.others) hextends
  | add specification program o hid =>
    refine h.congr ?_ h.ended hextends
    have hput : (e.addSimulation specification program o).2.simulations.get? id =
        if id = (e.addSimulation specification program o).1.id then
          some (e.addSimulation specification program o).1
        else e.simulations.get? id := Table.get?_put _ _ _ _
    rw [hput, hid, if_neg hk]
    exact h.own
  | forget hp =>
    refine h.congr ?_ h.ended hextends
    have hremove : (e.forget k).simulations.get? id =
        if id = k then none else e.simulations.get? id := Table.get?_remove _ _ _
    rw [hremove, if_neg hk]
    exact h.own

theorem Concluded.doings (h : e.Concluded id σ s) (hk : id ≠ k) (hf : Doings k e f) :
    f.Concluded id σ s := by
  induction hf with
  | refl => exact h
  | tail _ hstep ih => exact ih.does hk hstep

theorem summariesOf_doings (hf : Doings k e f) : f.summariesOf id = e.summariesOf id := by
  rw [summariesOf, (Doings.histories hf).2]
  rfl

theorem Orderly.concludes (h : e.Orderly) (hf : Course e f) : Concludes e f id := by
  cases hf with
  | brief k hd => exact concludes_of_summaries (summariesOf_doings hd)
  | wait hp => exact h.concludes_passes hp
  | @through k g g' hm hstill hp _ hd =>
    have hg : g.Orderly ∧ g.summariesOf id = e.summariesOf id := by
      rcases hm with rfl | ⟨s, hm⟩
      · exact ⟨h, rfl⟩
      · exact ⟨h.handle hm, by rw [summariesOf, hm.summaries]; rfl⟩
    have hlast : Concludes g' f id := concludes_of_summaries (summariesOf_doings hd)
    by_cases hid : id = k
    · subst hid
      have hunmoved := (hg.1.still_passes hstill hp).2
      exact concludes_of_summaries ((summariesOf_doings hd).trans (hunmoved.summaries.trans hg.2))
    · have hpass := @Orderly.concludes_passes _ _ id hg.1 hp
      obtain ⟨added, hadded, hall⟩ := hpass.trans hlast fun σ s hs => hs.doings hid hd
      exact ⟨added, hg.2 ▸ hadded, hall⟩

structure Spent (e : Engine) (id : String) (n : Nat) : Prop where
  known : ∃ status, (id, status) ∈ e.statuses
  spent : ∀ s, e.simulations.get? id = some s →
    (s.status.terminal = true ∨ s.maxSteps ≤ s.currentStep) ∧ s.currentStep = n

namespace Spent

variable {n : Nat}

theorem still (h : e.Spent id n) : e.Still id := by
  intro l _ _ s hs
  obtain ⟨hover, -⟩ := h.spent s hs
  rw [Bool.eq_false_iff]
  intro hc
  obtain ⟨hrun, -, -, hlt⟩ := Loop.continues_iff.mp hc
  rcases hover with hterminal | hmax
  · simp [hrun, SimulationStatus.terminal] at hterminal
  · omega

theorem passes (h : e.Spent id n) (ho : e.Orderly) (hf : Passes e f) :
    f.Spent id n ∧ f.begunOf id = e.begunOf id := by
  obtain ⟨-, hunmoved⟩ := ho.still_passes h.still hf
  refine ⟨⟨?_, fun t ht => ?_⟩, hunmoved.begun⟩
  · obtain ⟨status, hknown⟩ := h.known
    exact ⟨status, (ho.extends_passes hf).statuses.subset hknown⟩
  · cases hs : e.simulations.get? id with
    | none =>
      rw [hunmoved.absent hs] at ht
      cases ht
    | some s =>
      obtain ⟨u, hu, hstep, hmax, hsame⟩ := hunmoved.step s hs
      obtain rfl : u = t := Option.some.inj (hu.symm.trans ht)
      obtain ⟨hover, hn⟩ := h.spent s hs
      refine ⟨?_, hstep.trans hn⟩
      rcases hover with hterminal | hle
      · exact .inl (hsame hterminal ▸ hterminal)
      · exact .inr (by omega)

theorem handle {t : Simulation} (h : e.Spent id n) (hf : Handled k e f s t) : f.Spent id n := by
  refine ⟨?_, fun u hu => ?_⟩
  · obtain ⟨status, hknown⟩ := h.known
    exact ⟨status, hf.touches.extends.statuses.subset hknown⟩
  · by_cases hid : id = k
    · subst hid
      obtain rfl : u = t := Option.some.inj (hu.symm.trans hf.after)
      obtain ⟨u', hu', -, hmax⟩ := hf.touches.own s hf.before
      obtain rfl : u' = u := Option.some.inj (hu'.symm.trans hu)
      obtain ⟨hover, hn⟩ := h.spent s hf.before
      refine ⟨?_, hf.step.trans hn⟩
      rcases hover with hterminal | hle
      · refine .inl ?_
        rcases hf.status with ⟨-, hsame⟩ | ⟨-, hnext⟩
        · rwa [hsame]
        · rw [hnext.not_terminal] at hterminal
          cases hterminal
      · have := hf.step
        exact .inr (by omega)
    · rw [hf.touches.others id hid] at hu
      exact h.spent u hu

theorem does (h : e.Spent id n) (ho : e.Orderly) (hf : Does k e f) : f.Spent id n := by
  cases hf with
  | aside hs => exact ⟨hs.statuses ▸ h.known, hs.simulations ▸ h.spent⟩
  | handle hh hc => exact h.handle hh
  | add specification program o =>
    obtain ⟨status, hknown⟩ := h.known
    refine ⟨⟨status, List.mem_append_left _ hknown⟩, fun s hs => ?_⟩
    have hput : (e.addSimulation specification program o).2.simulations.get? id =
        if id = (e.addSimulation specification program o).1.id then
          some (e.addSimulation specification program o).1
        else e.simulations.get? id := Table.get?_put _ _ _ _
    rw [hput, if_neg (ho.fresh specification program o _ hknown)] at hs
    exact h.spent s hs
  | forget hp =>
    refine ⟨h.known, fun s hs => ?_⟩
    have hremove : (e.forget k).simulations.get? id =
        if id = k then none else e.simulations.get? id := Table.get?_remove _ _ _
    rw [hremove] at hs
    split at hs
    · cases hs
    · exact h.spent s hs

theorem doings (h : e.Spent id n) (ho : e.Orderly) (hf : Doings k e f) : f.Spent id n := by
  induction hf with
  | refl => exact h
  | tail hpast hstep ih => exact ih.does (ho.doings hpast) hstep

theorem begunOf_doings (hf : Doings k e f) : f.begunOf id = e.begunOf id := by
  rw [begunOf, (Doings.histories hf).1]
  rfl

theorem course (h : e.Spent id n) (ho : e.Orderly) (hf : Course e f) :
    f.Spent id n ∧ f.begunOf id = e.begunOf id := by
  cases hf with
  | brief k hd => exact ⟨h.doings ho hd, begunOf_doings hd⟩
  | wait hp => exact h.passes ho hp
  | @through k g g' hm _ hp _ hd =>
    have hg : g.Spent id n ∧ g.Orderly ∧ g.begunOf id = e.begunOf id := by
      rcases hm with rfl | ⟨s, hm⟩
      · exact ⟨h, ho, rfl⟩
      · exact ⟨h.handle hm, ho.handle hm, by rw [begunOf, hm.begun]; rfl⟩
    obtain ⟨hspent, horder, hbegun⟩ := hg
    obtain ⟨hspent', hbegun'⟩ := hspent.passes horder hp
    exact ⟨hspent'.doings (horder.passes hp) hd,
      (begunOf_doings hd).trans (hbegun'.trans hbegun)⟩

theorem performAll (h : e.Spent id n) (he : e.Regular) (calls : List LifecycleCall) :
    (e.performAll calls).Spent id n ∧ (e.performAll calls).begunOf id = e.begunOf id := by
  induction calls generalizing e with
  | nil => exact ⟨h, rfl⟩
  | cons c rest ih =>
    obtain ⟨hnext, hbegun⟩ := h.course he.orderly (he.orderly.course c)
    obtain ⟨hlast, hbegun'⟩ := ih hnext (he.perform c)
    exact ⟨hlast, hbegun'.trans hbegun⟩

end Spent

def Going (e : Engine) (id : String) (n : Nat) : Prop :=
  n < e.begunOf id ∨ n = e.begunOf id ∧ ∃ l ∈ e.schedule.loops, l.simulation = id ∧
    ∃ s, e.simulations.get? id = some s ∧ l.continues s = true

theorem Orderly.going_happens {n : Nat} (h : e.Orderly) (hf : e.Happens f) (hg : e.Going id n) :
    f.Going id n := by
  cases hf with
  | shuffle hc hb =>
    rcases hg with hlt | ⟨hn, l, hl, hid, s, hs, hcont⟩
    · exact .inl hlt
    · obtain ⟨m, hm, hcore⟩ := List.mem_map.mp (hc.mem_iff.mpr (List.mem_map_of_mem hl))
      simp only [Loop.core, Prod.mk.injEq] at hcore
      refine .inr ⟨hn, m, hm, hcore.1.trans hid, s, hs, ?_⟩
      simpa only [Loop.continues, hcore] using hcont
  | @act l rest hq hphase =>
    obtain ⟨s, t, hmid, hd, htouch, ht⟩ := h.acted hq hphase
    by_cases hid : id = l.simulation
    · subst hid
      have hcount (hb : (e.act l).begun = e.begun ++ [l.simulation]) :
          (e.act l).begunOf l.simulation = e.begunOf l.simulation + 1 := by
        simp [begunOf, hb]
      -- The loop that had its turn either began a step or had stopped.
      have hgrow : e.begunOf l.simulation < (e.act l).begunOf l.simulation ∨
          l.continues s = false := by
        cases ht.noted with
        | nothing hc => exact .inr hc
        | failure _ hb => exact .inl (by rw [hcount hb]; exact Nat.lt_succ_self _)
        | summary _ _ hb => exact .inl (by rw [hcount hb]; exact Nat.lt_succ_self _)
      rcases hg with hlt | ⟨rfl, m, hm, hsim, s', hs', hcont⟩
      · obtain ⟨added, hadded, -⟩ := htouch.begun
        refine .inl (Nat.lt_of_lt_of_le hlt ?_)
        simp [begunOf, hadded]
      · refine .inl ?_
        rcases hgrow with hgrow | hstop
        · exact hgrow
        · obtain rfl : s' = s := Option.some.inj (hs'.symm.trans hmid.own)
          have hm' : m = l := by
            rw [Schedule.loops, hq, List.cons_append, List.mem_cons] at hm
            rcases hm with hm | hm
            · exact hm
            · exact absurd hsim (hmid.apart m hm)
          rw [hm', hstop] at hcont
          cases hcont
    · rcases hg with hlt | ⟨rfl, m, hm, hsim, s', hs', hcont⟩
      · exact .inl (htouch.begunOf hid ▸ hlt)
      · have hstay : m ∈ (e.act l).schedule.loops := by
          rw [Schedule.loops, hq, List.cons_append, List.mem_cons] at hm
          rcases hm with rfl | hm
          · exact absurd hsim.symm hid
          · rw [Schedule.loops, ht.sleepers]
            cases ht.placed with
            | gone hqueue => rwa [hqueue]
            | back phase hqueue =>
              rw [hqueue, List.append_assoc, List.singleton_append, List.perm_middle.mem_iff]
              exact List.mem_cons_of_mem _ hm
        exact .inr ⟨(htouch.begunOf hid).symm, m, hstay, hsim, s',
          (htouch.others id hid).trans hs', hcont⟩

theorem Orderly.going_passes {n : Nat} (h : e.Orderly) (hf : Passes e f) (hg : e.Going id n) :
    f.Going id n := by
  induction hf with
  | refl => exact hg
  | tail hpast hstep ih => exact (h.passes hpast).going_happens hstep ih

theorem Orderly.going_awaitLoop {n : Nat} (h : e.Orderly) (hg : e.Going id n) :
    n < (e.awaitLoop id).begunOf id := by
  rcases h.going_passes (passes_awaitLoop e id) hg with hlt | ⟨-, l, hl, hid, -⟩
  · exact hlt
  · exact absurd hid (absent_of_not_pending (h.awaitLoop_ends id) l hl)

theorem Regular.going_resume (h : e.Regular) (hs : e.simulations.get? id = some s)
    (hp : s.status = .paused) (hn : e.pending id = false) (hlt : s.currentStep < s.maxSteps)
    (hr : (e.perform (.resume id)).2.refusals = []) :
    (e.perform (.resume id)).2.Going id (e.begunOf id) ∧
      ∃ t, (e.perform (.resume id)).2.simulations.get? id = some t := by
  have hextends := h.orderly.extends (h.orderly.course (.resume id))
  have hf := h.faultless (hextends.none hr) id
  have hawait : e.awaitLoop id = e := by simp [awaitLoop, hn]
  have ha : LifecycleAction.resume.allows s.status = true := by
    rw [hp]
    rfl
  have hsteady := steady_setStatus e id .running
  have hfaithful := Faithful.setStatus id .running e
  have hcall : e.perform (.resume id) = e.call (do
      setStatus id .running
      modify fun e => (e.spawn id).print .info
        ("[Simulation] Resumed " ++ id ++ " at step " ++ toString s.currentStep)) := by
    change e.call (resume id) = _
    unfold resume
    rw [call_of_get? hs ha, call_bind, call_await, hawait, hf]
    exact call_of_get? hs ha
  rw [hcall] at hr ⊢
  rw [call_bind] at hr ⊢
  generalize e.call (setStatus id .running) = result at hsteady hfaithful hr ⊢
  obtain ⟨result, g⟩ := result
  cases result with
  | error error => exact absurd hr (hfaithful error rfl)
  | ok u =>
    have hget : g.simulations.get? id = some { s with status := .running } := by
      rw [hsteady.simulations]
      simp [enter, alter, Table.get?_modify, hs]
    refine ⟨.inr ⟨?_, ⟨id, false, false, .fresh⟩, ?_, rfl, _, hget, ?_⟩, _, hget⟩
    · exact congrArg (List.count id) hsteady.begun.symm
    · change _ ∈ (g.schedule.queue ++ [_]) ++ _
      simp
    · simpa [Loop.continues] using hlt

theorem call_wait (hs : e.simulations.get? id = some s) :
    (e.perform (.wait id)).2 = e.awaitLoop id := by
  change (e.call (wait id)).2 = _
  unfold wait
  rw [call_bind, call_lookup, hs]
  dsimp only
  rw [call_await]
  cases (e.awaitLoop id).failures.get? id <;> rfl

/-- A step that ends a run is the last one exactly if the listener does not leave the simulation
paused after it, or the budget is used up. Any calls may come before it and after it. -/
theorem last_step_iff (h : e.Unused) {calls : List LifecycleCall} {c : LifecycleCall}
    {added : List StepSummary}
    (hadded : (e.performAll (calls ++ [c])).summariesOf id =
      (e.performAll calls).summariesOf id ++ added)
    (hσ : σ ∈ added) (hterminal : σ.terminal = true)
    (hr : ((e.performAll (calls ++ [c])).perform (.resume id)).2.refusals = []) :
    ∃ s, (e.performAll (calls ++ [c])).simulations.get? id = some s ∧ s.currentStep = σ.step ∧
      ((∀ more, (e.performAll (calls ++ [c] ++ more)).begunOf id =
          (e.performAll (calls ++ [c])).begunOf id ∧
        ∀ t, (e.performAll (calls ++ [c] ++ more)).simulations.get? id = some t →
          t.currentStep = σ.step) ↔
        ¬(Reaction.statusAfter .running (e.listener id σ.step) = .paused ∧
          σ.step < s.maxSteps)) := by
  have hreg := h.regular.performAll (calls ++ [c])
  have hlistener := (h.regular.extends (calls ++ [c])).listener
  have hnone := (hreg.orderly.extends (hreg.orderly.course (.resume id))).none hr
  have hconcludes : Concludes (e.performAll calls) (e.performAll (calls ++ [c])) id := by
    have horderly := (h.regular.performAll calls).orderly
    have hlast : e.performAll (calls ++ [c]) = ((e.performAll calls).perform c).2 :=
      List.foldl_append
    rw [hlast]
    exact horderly.concludes (horderly.course c)
  have happend (more : List LifecycleCall) : e.performAll (calls ++ [c] ++ more) =
      (e.performAll (calls ++ [c])).performAll more := List.foldl_append
  obtain ⟨added', hadded', hall⟩ := hconcludes
  obtain rfl : added' = added := List.append_cancel_left (hadded'.symm.trans hadded)
  obtain ⟨s, hs⟩ := hall σ hσ hterminal
  have hpaused := hs.paused hnone
  rw [hlistener] at hpaused
  simp only [happend]
  -- What follows speaks only of the engine after these calls.
  generalize e.performAll (calls ++ [c]) = f at hr hreg hs hpaused ⊢
  refine ⟨s, hs.own, hs.step, fun hlast hcase => ?_, fun hcase more => ?_⟩
  · have hlt : s.currentStep < s.maxSteps := by
      rw [hs.step]
      exact hcase.2
    -- Resumed and waited for, the simulation would begin another step.
    obtain ⟨hgoing, t, ht⟩ := hreg.going_resume hs.own (hpaused.mpr hcase.1) hs.ended hlt hr
    have hwait := (hreg.perform (.resume id)).orderly.going_awaitLoop hgoing
    have hsame : (((f.perform (.resume id)).2).perform (.wait id)).2.begunOf id = f.begunOf id :=
      (hlast [.resume id, .wait id]).1
    rw [call_wait ht] at hsame
    omega
  · have hspent : f.Spent id σ.step := by
      refine ⟨hreg.orderly.noted id s hs.own, fun t ht => ?_⟩
      obtain rfl : t = s := Option.some.inj (ht.symm.trans hs.own)
      refine ⟨?_, hs.step⟩
      rcases hs.idle with hp | hover
      · refine .inr ?_
        rw [hs.step]
        exact Int.not_lt.mp fun hlt => hcase ⟨hpaused.mp hp, hlt⟩
      · exact .inl hover
    obtain ⟨hspent', hbegun⟩ := hspent.performAll hreg more
    exact ⟨hbegun, fun t ht => (hspent'.spent t ht).2⟩

/-- A run of five steps at most that is over after the first. -/
def overAtOnce : SimulationOptions :=
  ⟨none, none, some 5, none, some ⟨[("GameOver", .bool true)], []⟩⟩

def begunAtOnce : List LifecycleCall :=
  [.create "spec" overAtOnce, .start "sim_000000000001"]

theorem summariesOf_begunAtOnce :
    (pausing.performAll (begunAtOnce ++ [.wait "sim_000000000001"])).summariesOf
      "sim_000000000001" = [⟨1, 1, [], [], 0, [], true⟩] := by
  with_unfolding_all rfl

/-- The first step ends the run and the listener pauses after it. The simulation takes a second
step once it is resumed. -/
theorem step_after_last_step :
    (∃ σ ∈ (pausing.performAll (begunAtOnce ++ [.wait "sim_000000000001"])).summariesOf
      "sim_000000000001", σ.terminal = true ∧ σ.step = 1) ∧
    ((pausing.performAll (begunAtOnce ++ [.wait "sim_000000000001"] ++
      [.resume "sim_000000000001", .wait "sim_000000000001"])).simulations.get?
        "sim_000000000001").map (·.currentStep) = some 2 := by
  refine ⟨?_, by decide +kernel⟩
  rw [summariesOf_begunAtOnce]
  exact ⟨_, List.mem_singleton_self _, rfl, rfl⟩

theorem last_step_iff_pausing :
    ¬∀ more, (pausing.performAll (begunAtOnce ++ [.wait "sim_000000000001"] ++ more)).begunOf
        "sim_000000000001" =
      (pausing.performAll (begunAtOnce ++ [.wait "sim_000000000001"])).begunOf
        "sim_000000000001" ∧
      ∀ t, (pausing.performAll (begunAtOnce ++ [.wait "sim_000000000001"] ++ more)).simulations.get?
        "sim_000000000001" = some t → t.currentStep = 1 := by
  obtain ⟨s, hs, hstep, hiff⟩ := @last_step_iff pausing "sim_000000000001" _ unused_pausing
    begunAtOnce (.wait "sim_000000000001") _
    (summariesOf_begunAtOnce.trans (List.nil_append _).symm) (List.mem_singleton_self _) rfl
    (by decide +kernel)
  have hbudget : s.maxSteps = 5 := by
    have hmax : ((pausing.performAll (begunAtOnce ++ [.wait "sim_000000000001"])).simulations.get?
      "sim_000000000001").map (·.maxSteps) = some 5 := by decide +kernel
    rw [hs] at hmax
    exact Option.some.inj hmax
  rw [hiff, not_not]
  exact ⟨by decide +kernel, by rw [hbudget]; decide⟩

end Engine

end StepWorld
