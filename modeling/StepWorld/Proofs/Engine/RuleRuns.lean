import StepWorld.Proofs.Engine.Launch
import StepWorld.Proofs.Engine.Track

/-! Entities never matter to rules or to the length of a run. Calls that do not stop a simulation
keep it on its track, and the track hangs on its rules alone. -/

namespace StepWorld

/-- Whether a call leaves a simulation its run: it neither stops nor deletes it. -/
def LifecycleCall.spares (id : String) : LifecycleCall → Bool
  | .stop k | .delete k => k != id
  | _ => true

namespace Engine

variable {e f : Engine} {id k : String} {s : Simulation} {limit time : Int} {rules : List RuleDecl}
  {vars : Record}

namespace Tracked

variable {α β : Type}

theorem bind {task : Task α} {next : α → Task β}
    (h : Tracked limit rules time vars (e.call task).2 id)
    (hnext : ∀ a f, e.call task = (.ok a, f) → Tracked limit rules time vars f id →
      Tracked limit rules time vars (f.call (next a)).2 id) :
    Tracked limit rules time vars (e.call (task >>= next)).2 id := by
  rw [call_bind]
  generalize e.call task = result at h hnext
  obtain ⟨result, f⟩ := result
  cases result with
  | ok a => exact hnext a f rfl h
  | error error => exact h

theorem lookupFor {action : LifecycleAction} {next : Simulation → Task β}
    (h : Tracked limit rules time vars e id)
    (hnext : ∀ s, e.simulations.get? k = some s → action.allows s.status = true →
      Tracked limit rules time vars (e.call (next s)).2 id) :
    Tracked limit rules time vars (e.call (lookupFor action k >>= next)).2 id := by
  rw [call_bind, call_lookupFor]
  cases hs : e.simulations.get? k with
  | none => exact h
  | some s =>
    by_cases ha : action.allows s.status = true
    · simp only [ha, if_true]
      exact hnext s hs ha
    · simp only [ha, if_false, Bool.false_eq_true]
      exact h

theorem await (h : Tracked limit rules time vars e id) (ho : e.Orderly) :
    Tracked limit rules time vars (e.call (await k)).2 id := by
  have hawaited := h.passes ho (passes_awaitLoop e k)
  rw [call_await]
  split <;> exact hawaited

theorem create (h : Tracked limit rules time vars e id) (ho : e.Orderly) (specification : String)
    (o : SimulationOptions) :
    Tracked limit rules time vars (e.call (createSimulation specification o)).2 id := by
  unfold createSimulation
  rw [call_bind, call_get]
  dsimp only
  cases hspec : e.specifications.get? specification with
  | none => exact h
  | some spec =>
    have hnew : id ≠ (e.addSimulation specification spec.program o).1.id := by
      rintro rfl
      obtain ⟨s, hs, -⟩ := h.own
      rw [ho.fresh_get?] at hs
      cases hs
    have hadded : Tracked limit rules time vars
        (e.addSimulation specification spec.program o).2 id :=
      h.undisturbed (undisturbed_addSimulation e specification spec.program o hnew)
        ((Table.get?_put _ _ _ _).trans (if_neg hnew))
    dsimp only
    rw [call_bind, call_modifyGet]
    refine hadded.steady (undisturbed_call _ ?_) (steady_call ?_)
    · refine .of_bind (moves_undisturbed_store _) fun _ => ?_
      exact .of_bind (.of_modify fun f => undisturbed_print f _ _) fun _ => .of_pure _
    · refine .of_bind (Steady.store _) fun _ => ?_
      exact .of_bind (.of_modify fun f => steady_print _ _) fun _ => .of_pure _

theorem launch (h : Tracked limit rules time vars e id) (hs : e.simulations.get? k = some s)
    (hlive : s.status.terminal = false) (message : String) :
    Tracked limit rules time vars (e.call (do
      setStatus k .running
      modify fun e => (e.spawn k).print .info message)).2 id := by
  by_cases hk : id = k
  · subst hk
    refine h.relabel (t := { s with status := .running }) (moves_undisturbed_launch message e) hs ?_
      hlive rfl rfl rfl rfl
    rw [call_bind]
    rcases e.setStatus_cases id .running with ⟨archive, hcall, -⟩ | ⟨error, archive, hcall⟩
    · rw [hcall]
      simp [spawn, Engine.print, enter, alter, Table.get?_modify, hs]
    · rw [hcall]
      simp [enter, alter, Table.get?_modify, hs]
  · exact h.call (moves_undisturbed_launch message) (moves_launch message) hk

theorem start (h : Tracked limit rules time vars e id) :
    Tracked limit rules time vars (e.call (start k)).2 id := by
  unfold Engine.start
  refine h.lookupFor fun s hs ha => ?_
  have hcreated : s.status = .created := by simpa [LifecycleAction.allows] using ha
  have hlive : s.status.terminal = false := by
    rw [hcreated]
    rfl
  have hnoted : (e.noteStart k).simulations.get? k =
      some { s with startedAt := some e.tick.1 } := by
    simp [noteStart, tick, alter, Table.get?_modify, hs]
  have hsame : Undisturbed id e (e.noteStart k) := .of_same rfl rfl rfl rfl
  rw [call_bind, call_modify]
  dsimp only
  by_cases hk : id = k
  · subst hk
    exact (h.relabel hsame hs hnoted hlive hlive rfl rfl rfl).launch hnoted hlive _
  · exact (h.touched hsame (touches_noteStart e) hk).launch hnoted hlive _

theorem pause (h : Tracked limit rules time vars e id) :
    Tracked limit rules time vars (e.call (pause k)).2 id := by
  by_cases hk : id = k
  · subst hk
    obtain ⟨s, hs, -⟩ := h.own
    by_cases hrun : s.status = .running
    · have hsteady := steady_pause hs hrun
      refine h.relabel (t := { s with status := .paused }) (moves_undisturbed_pause e) hs ?_ ?_ rfl
        rfl rfl rfl
      · have hpaused : ((e.cancel id).enter id .paused).simulations.get? id =
            some { s with status := .paused } := by
          simp [enter, alter, cancel, reschedule, Table.get?_modify, hs]
        exact hsteady.simulations ▸ hpaused
      · rw [hrun]
        rfl
    · unfold Engine.pause
      refine h.lookupFor fun t ht ha => absurd ?_ hrun
      obtain rfl := Option.some.inj (hs.symm.trans ht)
      simpa [LifecycleAction.allows] using ha
  · exact h.call moves_undisturbed_pause moves_pause hk

theorem resume (h : Tracked limit rules time vars e id) (ho : e.Orderly) :
    Tracked limit rules time vars (e.call (resume k)).2 id := by
  unfold Engine.resume
  refine h.lookupFor fun s hs ha => bind (h.await ho) fun _ g hg htracked => ?_
  refine htracked.lookupFor fun t ht ha => htracked.launch ht ?_ _
  have hpaused : t.status = .paused := by simpa [LifecycleAction.allows] using ha
  rw [hpaused]
  rfl

theorem markStopping (h : Tracked limit rules time vars e id) (hk : id ≠ k) :
    Tracked limit rules time vars (e.markStopping k) id := by
  refine h.undisturbed ⟨rfl, rfl, rfl, fun hcalm l hl hid => ?_⟩ rfl
  obtain ⟨m, hm, hsim, hstop⟩ := Schedule.mem_loops_cancel hl
  obtain ⟨m', hm', rfl⟩ := Schedule.mem_loops_alter hm
  by_cases hown : m'.simulation = k
  · rw [if_pos hown] at hsim
    exact absurd (hid.symm.trans (hsim.symm.trans hown)) hk
  · rw [if_neg hown] at hsim hstop
    exact hstop ▸ hcalm m' hm' (hsim.trans hid)

theorem stop (h : Tracked limit rules time vars e id) (ho : e.Orderly) (hk : id ≠ k) :
    Tracked limit rules time vars (e.call (stop k)).2 id := by
  unfold Engine.stop
  refine h.lookupFor fun s hs ha => ?_
  rw [call_bind, call_modify]
  dsimp only
  have hmark := ho.handle (ho.handled_markStopping hs)
  refine bind ((h.markStopping hk).await hmark) fun _ g hg htracked => ?_
  rw [call_bind, call_get]
  dsimp only
  split
  · exact htracked.call moves_undisturbed_complete moves_complete hk
  · exact htracked

theorem delete (h : Tracked limit rules time vars e id) (ho : e.Orderly) (hk : id ≠ k) :
    Tracked limit rules time vars (e.call (deleteSimulation k)).2 id := by
  have herase {f : Engine} (hf : Tracked limit rules time vars f id) :
      Tracked limit rules time vars (f.call (erase k)).2 id := by
    unfold erase
    rw [call_bind, call_modify]
    have hforgot : Tracked limit rules time vars (f.forget k) id :=
      hf.undisturbed (undisturbed_forget f hk) ((Table.get?_remove _ _ _).trans (if_neg hk))
    refine hforgot.steady (undisturbed_call _ ?_) (steady_call ?_)
    · exact .of_bind (moves_undisturbed_store _) fun _ => .of_pure _
    · exact .of_bind (Steady.store _) fun _ => .of_pure _
  cases hs : e.simulations.get? k with
  | none =>
    rw [call_delete_none hs]
    exact h
  | some s =>
    rw [call_delete hs]
    split
    · exact herase h
    · exact bind (h.stop ho hk) fun _ g hg htracked => herase htracked

theorem wait (h : Tracked limit rules time vars e id) (ho : e.Orderly) :
    Tracked limit rules time vars (e.call (wait k)).2 id := by
  unfold Engine.wait
  rw [call_bind, call_lookup]
  cases e.simulations.get? k with
  | none => exact h
  | some s => exact h.await ho

theorem perform (h : Tracked limit rules time vars e id) (ho : e.Orderly) {c : LifecycleCall}
    (hc : c.spares id = true) : Tracked limit rules time vars (e.perform c).2 id := by
  cases c with
  | create specification options =>
    have hcreate := h.create ho specification options
    rw [← call_discard] at hcreate
    exact hcreate
  | start k => exact h.start
  | pause k => exact h.pause
  | resume k => exact h.resume ho
  | stop k => exact h.stop ho (Ne.symm (by simpa [LifecycleCall.spares] using hc))
  | wait k => exact h.wait ho
  | delete k =>
    have hdelete := h.delete ho (Ne.symm (by simpa [LifecycleCall.spares] using hc))
    rw [← call_discard] at hdelete
    exact hdelete

theorem performAll (h : Tracked limit rules time vars e id) (ho : e.Orderly)
    {calls : List LifecycleCall} (hcalls : ∀ c ∈ calls, c.spares id = true) :
    Tracked limit rules time vars (e.performAll calls) id := by
  induction calls generalizing e with
  | nil => exact h
  | cons c rest ih =>
    have hfirst := h.perform ho (hcalls c List.mem_cons_self)
    exact ih hfirst (ho.follow (ho.course c)) fun c' hc' => hcalls c' (List.mem_cons_of_mem _ hc')

end Tracked

/-! ### Simulations that were just created -/

/-- A simulation of a program that was created and has taken no step, in some world. Nobody listens
to it. -/
structure Poised (e : Engine) (id : String) (s : Simulation) (p : Program) (w : World) : Prop where
  orderly : e.Orderly
  silent : ∀ n, e.listener id n = []
  own : e.simulations.get? id = some s
  status : s.status = .created
  step : s.currentStep = 0
  program : e.programs s.specification = some p
  world : e.arena.world? id = some w

theorem Poised.tracked {p : Program} {w : World} (h : e.Poised id s p w) :
    Tracked s.maxSteps p.rules w.time w.vars e id where
  silent := h.silent
  calm l hl hid := by
    have hidle : e.pending id = false := by
      refine h.orderly.not_pending h.own ?_ ?_ <;> rw [h.status] <;> decide
    exact absurd hid (absent_of_not_pending hidle l hl)
  own := by
    refine ⟨s, h.own, .going ?_ h.world ?_ ?_ ?_ rfl h.program rfl⟩
    · rw [h.status]
      rfl
    · rw [h.step]
      exact (Int.add_zero _).symm
    · rw [h.step]
      exact .start
    · rw [h.step]
      exact fun hpos => absurd hpos (Nat.lt_irrefl 0)

theorem Orderly.poised_created (h : e.Orderly) {specification : String} {o : SimulationOptions}
    (hcall : e.call (createSimulation specification o) = (.ok id, f))
    (hsilent : ∀ n, e.listener id n = []) :
    ∃ s p w, f.Poised id s p w ∧ e.programs specification = some p ∧
      s.maxSteps = o.maxSteps.elim e.settings.maxSteps Int.ofNat ∧ w.time = 0 ∧
      w.vars = o.initialState.elim baseVariables
        fun initial => baseVariables.putAll initial.vars := by
  obtain ⟨k, hk⟩ := doings_create e specification o
  have horderly : f.Orderly := by
    rw [hcall] at hk
    exact h.doings hk
  obtain ⟨spec, archive, message, hspec, rfl, -, rfl⟩ := call_create_ok hcall
  have hprogram : e.programs specification = some spec.program := by simp [programs, hspec]
  let issued := e.tick.2.issue "sim"
  have hnew : ∃ w, (issued.2.arena.create issued.1 spec.program.entities).world? issued.1 = some w ∧
      w.time = 0 ∧ w.vars = baseVariables :=
    ⟨_, congrArg (Option.map Realm.world) ((Table.get?_put _ _ _ _).trans (if_pos rfl)), rfl, rfl⟩
  obtain ⟨w, hw, htime, hvars⟩ := hnew
  have hworld : ∃ v,
      (e.addSimulation specification spec.program o).2.arena.world? issued.1 = some v ∧
      v.time = 0 ∧ v.vars = o.initialState.elim baseVariables
        fun initial => baseVariables.putAll initial.vars := by
    unfold addSimulation
    dsimp only
    cases o.initialState with
    | none => exact ⟨w, hw, htime, hvars⟩
    | some initial =>
      obtain ⟨v, hv, htime', -, hvars'⟩ := Arena.world?_override hw initial
      exact ⟨v, hv, htime'.trans htime, hvars'.trans (by rw [hvars]; rfl)⟩
  obtain ⟨v, hv, htime, hvars⟩ := hworld
  refine ⟨(e.addSimulation specification spec.program o).1, spec.program, v,
    ⟨horderly, hsilent, ?_, rfl, rfl, hprogram, hv⟩, hprogram, rfl, htime, hvars⟩
  exact (Table.get?_put _ _ _ _).trans (if_pos rfl)

theorem Tracked.completed (h : Tracked limit rules time vars e id)
    (hs : e.simulations.get? id = some s) (hc : s.status = .completed) :
    ∃ w, e.arena.world? id = some w ∧ Track limit rules time vars s.currentStep w.vars ∧
      EndsAt limit s.currentStep w.vars := by
  obtain ⟨s', hs', htrack⟩ := h.own
  obtain rfl := Option.some.inj (hs.symm.trans hs')
  cases htrack with
  | going hlive =>
    rw [hc] at hlive
    cases hlive
  | ended _ hw ht hend => exact ⟨_, hw, ht, hend⟩
  | failed he =>
    rw [hc] at he
    cases he

/-- Two runs of the same rules, none of which draws, have the same length and end with the same
variables, whatever the entities are and whatever else goes on. -/
theorem Poised.same_end {e' : Engine} {id' : String} {s' t t' : Simulation} {p p' : Program}
    {w w' : World} {calls calls' : List LifecycleCall} (h : e.Poised id s p w)
    (h' : e'.Poised id' s' p' w') (hrules : p'.rules = p.rules)
    (hdrawless : ∀ rule ∈ p.rules, rule.Drawless) (hvars : w'.vars = w.vars)
    (htime : w'.time = w.time) (hlimit : s'.maxSteps = s.maxSteps)
    (hcalls : ∀ c ∈ calls, c.spares id = true) (hcalls' : ∀ c ∈ calls', c.spares id' = true)
    (ht : (e.performAll calls).simulations.get? id = some t) (hc : t.status = .completed)
    (ht' : (e'.performAll calls').simulations.get? id' = some t') (hc' : t'.status = .completed) :
    t'.currentStep = t.currentStep ∧ ∃ v v', (e.performAll calls).arena.world? id = some v ∧
      (e'.performAll calls').arena.world? id' = some v' ∧ v'.vars = v.vars := by
  have hend := h.tracked.performAll h.orderly hcalls
  have hend' := h'.tracked.performAll h'.orderly hcalls'
  rw [hrules, hvars, htime, hlimit] at hend'
  obtain ⟨v, hv, htrack, hover⟩ := hend.completed ht hc
  obtain ⟨v', hv', htrack', hover'⟩ := hend'.completed ht' hc'
  obtain ⟨hsteps, hsame⟩ := htrack'.end_unique hdrawless hover' htrack hover
  exact ⟨hsteps, v, v', hv, hv', hsame⟩

/-- Entities never matter to rules or to the length of a run. A rule comes to the same in two worlds
with the same variables and the same chance, leaves the same variables, and leaves all else in its
world alone. So two created simulations of programs with the same rules, none of which draws, that
begin with the same variables at the same time and have the same limit, end after the same number of
steps with the same variables once they have run to completion. Their entities, events and weighted
effects may differ, they may be paused and resumed meanwhile, and anything may be done to others. -/
theorem entities_never_matter :
    (∀ (programs : Programs) (r : Request) (other : Option String) (a b : Arena) (w v : World),
      a.world? r.worldId = some w → b.world? { r with world := other }.worldId = some v →
      v.vars = w.vars → b.ambient.chance = a.ambient.chance →
      ∃ result a' b' w' v', (StepWorld.runRule programs r).run.run a = (result, a') ∧
        (StepWorld.runRule programs { r with world := other }).run.run b = (result, b') ∧
        b'.ambient.chance = a'.ambient.chance ∧ a'.world? r.worldId = some w' ∧
        b'.world? { r with world := other }.worldId = some v' ∧ v'.vars = w'.vars ∧
        w.SameBeside w' ∧ v.SameBeside v') ∧
    ∀ (e e' : Engine) (id id' : String) (s s' t t' : Simulation) (p p' : Program) (w w' : World)
      (calls calls' : List LifecycleCall),
      e.Poised id s p w → e'.Poised id' s' p' w' → p'.rules = p.rules →
      (∀ rule ∈ p.rules, rule.Drawless) → w'.vars = w.vars → w'.time = w.time →
      s'.maxSteps = s.maxSteps →
      (∀ c ∈ calls, c.spares id = true) → (∀ c ∈ calls', c.spares id' = true) →
      (e.performAll calls).simulations.get? id = some t → t.status = .completed →
      (e'.performAll calls').simulations.get? id' = some t' → t'.status = .completed →
      t'.currentStep = t.currentStep ∧ ∃ v v', (e.performAll calls).arena.world? id = some v ∧
        (e'.performAll calls').arena.world? id' = some v' ∧ v'.vars = v.vars := by
  refine ⟨fun programs r other a b w v hw hv hvars hchance => runRule_same hw hv hvars hchance, ?_⟩
  intro e e' id id' s s' t t' p p' w w' calls calls' h h' hrules hdrawless hvars htime hlimit hcalls
    hcalls' ht hc ht' hc'
  exact h.same_end h' hrules hdrawless hvars htime hlimit hcalls hcalls' ht hc ht' hc'

/-- A program that ends after two steps, with some entities. -/
def twoTicks (entities : List EntityDecl) : Program where
  entities
  rules := [⟨"end", none, some (.binary "->"
    (.binary ">=" (.identifier "time") (.literal (.int 2))) (.identifier "GameOver")), [], []⟩]
  warnings := []

/-- Entities that draw in every step, and grow if they are lucky. -/
def growers : List EntityDecl :=
  [⟨"A", [⟨"x", .scalar .int⟩], [⟨"grow", none, none, none,
    [⟨.assignment "+=" (.property "Self" "x") (.literal (.int 1)), 0.5⟩]⟩], 1⟩]

def atMostFive : SimulationOptions := ⟨none, none, some 5, some 0, none⟩

/-- An engine with two specifications of the same rules. -/
def rivals : Engine :=
  { create .default [] (.cyclic [0, 2 ^ 53 - 1] 0) (.memory ⟨[], [], []⟩) fun _ _ => [] with
    specifications := [("full", .create "" (twoTicks growers) (some "A") none 0),
      ("bare", .create "" (twoTicks []) none none 0)] }

theorem unused_rivals : rivals.Unused := ⟨rfl, rfl, rfl, rfl, rfl, rfl, rfl⟩

@[irreducible] def rivalry : Engine :=
  rivals.performAll [.create "full" atMostFive, .create "bare" atMostFive]

def shore : Arena :=
  ⟨[("island", Realm.create growers 0), ("desert", Realm.create [] 0)],
    ⟨[], .cyclic [0] 0, 0, 0, []⟩⟩

def endRequest : Request := ⟨"full", some "island", none, none, none, some "end", []⟩

theorem poised_rivalry {id specification : String} {p : Program}
    (hspecification : (rivalry.simulations.get? id).map (·.specification) = some specification)
    (hstatus : (rivalry.simulations.get? id).map (·.status) = some .created)
    (hstep : (rivalry.simulations.get? id).map (·.currentStep) = some 0)
    (hlimit : (rivalry.simulations.get? id).map (·.maxSteps) = some 5)
    (hclock : (rivalry.arena.world? id).map (·.time) = some 0)
    (hvars : (rivalry.arena.world? id).map (·.vars) = some baseVariables)
    (hp : rivalry.programs specification = some p) :
    ∃ s w, rivalry.Poised id s p w ∧ s.maxSteps = 5 ∧ w.time = 0 ∧ w.vars = baseVariables := by
  have horderly : rivalry.Orderly := by
    unfold rivalry
    exact (unused_rivals.regular.performAll _).orderly
  have hsilent : ∀ n, rivalry.listener id n = [] := by
    have hextends := unused_rivals.regular.extends
      [.create "full" atMostFive, .create "bare" atMostFive]
    unfold rivalry
    rw [hextends.listener]
    exact fun _ => rfl
  cases hs : rivalry.simulations.get? id with
  | none => simp [hs] at hstatus
  | some s =>
    cases hw : rivalry.arena.world? id with
    | none => simp [hw] at hclock
    | some w =>
      rw [hs] at hspecification hstatus hstep hlimit
      rw [hw] at hclock hvars
      simp only [Option.map_some, Option.some.injEq] at hspecification hstatus hstep hlimit
      simp only [Option.map_some, Option.some.injEq] at hclock hvars
      exact ⟨s, w, ⟨horderly, hsilent, hs, hstatus, hstep, hspecification ▸ hp, hw⟩, hlimit, hclock,
        hvars⟩

/-- The two simulations run side by side, and both take two steps. -/
theorem entities_never_matter_rivalry :
    (∃ result a b w v, (StepWorld.runRule (fun _ => some (twoTicks [])) endRequest).run.run shore =
        (result, a) ∧
      (StepWorld.runRule (fun _ => some (twoTicks []))
        { endRequest with world := some "desert" }).run.run shore = (result, b) ∧
      a.world? "island" = some w ∧ b.world? "desert" = some v ∧ v.vars = w.vars) ∧
    let f := rivalry.performAll [.start "sim_000000000001", .start "sim_000000000002",
      .wait "sim_000000000001", .wait "sim_000000000002"]
    ∃ t t' v v',
      f.simulations.get? "sim_000000000001" = some t ∧ t.status = .completed ∧ t.currentStep = 2 ∧
      f.simulations.get? "sim_000000000002" = some t' ∧ t'.currentStep = t.currentStep ∧
      f.arena.world? "sim_000000000001" = some v ∧ f.arena.world? "sim_000000000002" = some v' ∧
      v'.vars = v.vars := by
  constructor
  · obtain ⟨result, a, b, w, v, ha, hb, -, hw, hv, hvars, -⟩ := entities_never_matter.1
      (fun _ => some (twoTicks [])) endRequest (some "desert") shore shore _ _ rfl rfl rfl rfl
    exact ⟨result, a, b, w, v, ha, hb, hw, hv, hvars⟩
  · obtain ⟨s, w, hs, hlimit, htime, hvars⟩ := @poised_rivalry "sim_000000000001" "full"
      (twoTicks growers) (by decide +kernel) (by decide +kernel) (by decide +kernel)
      (by decide +kernel) (by decide +kernel) (by with_unfolding_all rfl)
      (by with_unfolding_all rfl)
    obtain ⟨s', w', hs', hlimit', htime', hvars'⟩ := @poised_rivalry "sim_000000000002" "bare"
      (twoTicks []) (by decide +kernel) (by decide +kernel) (by decide +kernel)
      (by decide +kernel) (by decide +kernel) (by with_unfolding_all rfl)
      (by with_unfolding_all rfl)
    intro f
    have hends : (f.simulations.get? "sim_000000000001").map (fun t => (t.status, t.currentStep)) =
        some (.completed, 2) := by decide +kernel
    have hends' : (f.simulations.get? "sim_000000000002").map (·.status) = some .completed := by
      decide +kernel
    obtain ⟨t, ht, hcompleted⟩ := Option.map_eq_some_iff.mp hends
    obtain ⟨t', ht', hc'⟩ := Option.map_eq_some_iff.mp hends'
    obtain ⟨hc, hcount⟩ := Prod.mk.inj hcompleted
    obtain ⟨hsteps, v, v', hv, hv', hsame⟩ := entities_never_matter.2 rivalry rivalry _ _ s s' t t'
      _ _ w w' _ _ hs hs' rfl (by decide) (hvars'.trans hvars.symm) (htime'.trans htime.symm)
      (hlimit'.trans hlimit.symm) (by decide) (by decide) ht hc ht' hc'
    exact ⟨t, t', v, v', ht, hc, hcount, ht', hsteps, hv, hv', hsame⟩

end Engine

end StepWorld
