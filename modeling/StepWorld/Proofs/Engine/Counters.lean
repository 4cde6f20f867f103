import StepWorld.Proofs.Engine.HistoryWindow

/-! The counters of a simulation stay in step. Its own count, the clock of its world and the two
variables that show the clock count the steps that it has taken. Nothing else that runs in a world
writes a variable, except that a rule may raise a flag that ends the run. -/

namespace StepWorld

def counterNames : List String := ["time", "step"]

namespace World

variable {first u v w : World} {names : List String} {n : Nat}

def Raises (names : List String) (w v : World) : Prop :=
  ∀ name ∉ names, v.vars.get? name = w.vars.get? name ∨
    name ∈ terminalFlags ∧ v.vars.get? name = some (.bool true)

namespace Raises

theorem refl (w : World) : w.Raises names w := fun _ _ => .inl rfl

theorem trans (h : u.Raises names v) (h' : v.Raises names w) : u.Raises names w := by
  intro name hname
  rcases h' name hname with hsame | hraised
  · rw [hsame]
    exact h name hname
  · exact .inr hraised

instance : Std.Refl (Raises names) := ⟨refl⟩

instance : Trans (Raises names) (Raises names) (Raises names) := ⟨trans⟩

theorem mono (h : u.Raises [] v) : u.Raises names v := fun name _ => h name List.not_mem_nil

theorem of_set (h : u.Raises names v) (name : String) (hname : name ∈ names) (value : Value) :
    u.Raises names (v.setVariable name value) := by
  intro other hother
  have hne : other ≠ name := fun heq => hother (heq ▸ hname)
  rw [setVariable, Table.get?_put, if_neg hne]
  exact h other hother

theorem terminal (h : w.Raises names v) (hflags : ∀ flag ∈ terminalFlags, flag ∉ names)
    (hw : w.terminal = true) : v.terminal = true := by
  obtain ⟨flag, hflag, hraised⟩ := List.any_eq_true.mp hw
  refine List.any_eq_true.mpr ⟨flag, hflag, ?_⟩
  unfold flagged at hraised ⊢
  rcases h flag (hflags flag hflag) with hsame | ⟨-, htrue⟩
  · rwa [hsame]
  · rw [htrue]

theorem same (h : w.Raises names v) {name : String} (hname : name ∉ names)
    (hflag : name ∉ terminalFlags) : v.vars.get? name = w.vars.get? name :=
  (h name hname).resolve_right fun hraised => hflag hraised.1

end Raises

structure Stays (w v : World) : Prop where
  time : v.time = w.time
  step : v.step = w.step
  raises : w.Raises [] v

namespace Stays

instance : Std.Refl Stays := ⟨fun w => ⟨rfl, rfl, .refl w⟩⟩

instance : Trans Stays Stays Stays :=
  ⟨fun h h' => ⟨h'.time.trans h.time, h'.step.trans h.step, h.raises.trans h'.raises⟩⟩

end Stays

theorem allowsFlags_stays : AllowsFlags Stays where
  raised w flag h := by
    refine ⟨rfl, rfl, fun name _ => ?_⟩
    rw [setVariable, Table.get?_put]
    split
    · next heq => exact .inr ⟨heq ▸ h, rfl⟩
    · exact .inl rfl
  stamped w _ := ⟨rfl, rfl, fun _ _ => .inl rfl⟩

theorem SameApart.stays (h : w.SameApart v) : w.Stays v := by
  obtain ⟨entities, stamp, rfl⟩ := h
  exact ⟨rfl, rfl, fun _ _ => .inl rfl⟩

/-- A world that a simulation has taken some steps in. -/
structure Counted (n : Nat) (w first : World) : Prop where
  time : w.time = n
  step : w.step = n
  counters : ∀ name ∈ counterNames,
    w.vars.get? name = if n = 0 then first.vars.get? name else some (.int n)
  raises : first.Raises counterNames w

namespace Counted

theorem stays (h : w.Counted n first) (hv : w.Stays v) : v.Counted n first where
  time := hv.time.trans h.time
  step := hv.step.trans h.step
  counters name hname := by
    have hflag : name ∉ terminalFlags := by
      have hall : ∀ counter ∈ counterNames, counter ∉ terminalFlags := by decide
      exact hall name hname
    rw [hv.raises.same List.not_mem_nil hflag]
    exact h.counters name hname
  raises := h.raises.trans hv.raises.mono

theorem vars_finishStep (u : World) (step : Nat) (limit : Int) (events rules : List String) :
    (u.finishStep step limit events rules).time = u.time ∧
      (u.finishStep step limit events rules).step = step ∧
      (u.finishStep step limit events rules).vars = u.vars.put "step" (.int step) := by
  unfold finishStep
  dsimp only
  split <;> exact ⟨rfl, rfl, rfl⟩

theorem raises_advance (w : World) : w.Raises counterNames w.advance :=
  have hclock : w.Raises counterNames { w with time := w.time + 1 } := fun _ _ => .inl rfl
  hclock.of_set "time" (by decide) _

theorem finish (h : w.Counted n first) (hu : w.advance.Stays u) (limit : Int)
    (events rules : List String) (stamp : Nat) :
    ((u.finishStep (n + 1) limit events rules).touch stamp).Counted (n + 1) first ∧
      w.Raises counterNames ((u.finishStep (n + 1) limit events rules).touch stamp) := by
  obtain ⟨htime, hstep, hvars⟩ := vars_finishStep u (n + 1) limit events rules
  have hclock : w.advance.time = ((n + 1 : Nat) : Int) := by
    change w.time + 1 = _
    rw [h.time]
    rfl
  have hafter : w.Raises counterNames ((u.finishStep (n + 1) limit events rules).touch stamp) := by
    have hrun : w.Raises counterNames u := (raises_advance w).trans hu.raises.mono
    intro name hname
    change (u.finishStep (n + 1) limit events rules).vars.get? name = _ ∨
      _ ∧ (u.finishStep (n + 1) limit events rules).vars.get? name = _
    rw [hvars]
    exact hrun.of_set "step" (by decide) _ name hname
  refine ⟨⟨?_, hstep, fun name hname => ?_, h.raises.trans hafter⟩, hafter⟩
  · exact htime.trans (hu.time.trans hclock)
  · rw [if_neg (Nat.succ_ne_zero n)]
    change (u.finishStep (n + 1) limit events rules).vars.get? name = _
    rw [hvars, Table.get?_put]
    split
    · rfl
    · next hother =>
      obtain rfl : name = "time" := by simpa [counterNames, hother] using hname
      rw [hu.raises.same List.not_mem_nil (by decide)]
      change (w.vars.put "time" (.int (w.time + 1))).get? "time" = _
      rw [Table.get?_put_self, h.time]
      rfl

end Counted

end World

/-! ### The first world -/

/-- The variables of the world that a simulation is created with. -/
def SimulationOptions.firstVariables (o : SimulationOptions) : Record :=
  baseVariables.putAll (o.initialState.elim [] (·.vars))

namespace Engine

variable {e f g : Engine} {id specification : String} {spec : Specification} {n m : Nat}
  {first v w : World}

theorem world?_addSimulation (e : Engine) (specification : String) (program : Program)
    (o : SimulationOptions) : ∃ w, (e.addSimulation specification program o).2.arena.world?
      (e.addSimulation specification program o).1.id = some w ∧ w.time = 0 ∧ w.step = 0 ∧
      w.vars = o.firstVariables := by
  let issued := e.tick.2.issue "sim"
  have hcreate : (issued.2.arena.create issued.1 program.entities).world? issued.1 =
      some (Realm.create program.entities issued.2.arena.ambient.tick.1).world :=
    congrArg (Option.map Realm.world) (Table.get?_put_self _ _ _)
  unfold addSimulation SimulationOptions.firstVariables
  dsimp only
  cases o.initialState with
  | none => exact ⟨_, hcreate, rfl, rfl, rfl⟩
  | some initial => exact Arena.world?_override hcreate initial

theorem exists_first (hspec : e.specifications.get? specification = some spec)
    (o : SimulationOptions) :
    ∃ first, (e.after (.life (.create specification o))).arena.world?
        (e.addSimulation specification spec.program o).1.id = some first ∧
      first.vars = o.firstVariables ∧ first.Counted 0 first := by
  obtain ⟨w, hw, htime, hstep, hvars⟩ := e.world?_addSimulation specification spec.program o
  refine ⟨w, ?_, hvars, htime, hstep, fun name _ => (if_pos rfl).symm, .refl w⟩
  rw [after_create, Arena.world?, (aside_created (P := fun _ _ => False) hspec o).realms]
  exact hw

/-! ### Steps, events and rules by hand -/

/-- What a caller may do with a simulation by hand: take steps of it, which return, and run events
and rules, with any parameters. The steps are counted. -/
inductive HandRun (id : String) (e : Engine) : Nat → Engine → Prop
  | start : HandRun id e 0 e
  | step {n : Nat} {f : Engine} {s : Simulation} {σ : StepSummary} (h : HandRun id e n f)
      (hs : f.simulations.get? id = some s) (hreturn : (f.step s).1 = .ok σ) :
    HandRun id e (n + 1) (f.step s).2
  | event {n : Nat} {f : Engine} (h : HandRun id e n f) (r : Request) :
    HandRun id e n (f.runEvent r).2
  | rule {n : Nat} {f : Engine} (h : HandRun id e n f) (r : Request) :
    HandRun id e n (f.runRule r).2

structure Counts (id : String) (first : World) (n : Nat) (e : Engine) (w : World) : Prop where
  own : ∃ s, e.simulations.get? id = some s ∧ s.id = id ∧ s.currentStep = n
  world : e.arena.world? id = some w
  counted : w.Counted n first

namespace Counts

theorem ran {arena : Arena} {k : String} (h : Counts id first n e w)
    (halong : Arena.Along World.Stays k e.arena arena) :
    ∃ v, Counts id first n { e with arena } v ∧ w.Raises counterNames v := by
  by_cases hk : id = k
  · subst hk
    obtain ⟨v, hv, hstays⟩ := halong.own w h.world
    exact ⟨v, ⟨h.own, hv, h.counted.stays hstays⟩, hstays.raises.mono⟩
  · have hworld : arena.world? id = some w :=
      (congrArg (Option.map Realm.world) (halong.others id hk)).trans h.world
    exact ⟨w, ⟨h.own, hworld, h.counted⟩, .refl w⟩

theorem event (h : Counts id first n e w) (r : Request) :
    ∃ v, Counts id first n (e.runEvent r).2 v ∧ w.Raises counterNames v :=
  h.ran ((kept_runEvent e.programs r e.arena).mono fun _ _ => World.SameApart.stays)

theorem rule (h : Counts id first n e w) (r : Request) :
    ∃ v, Counts id first n (e.runRule r).2 v ∧ w.Raises counterNames v :=
  h.ran (along_runRule World.allowsFlags_stays e.programs r e.arena)

theorem step (h : Counts id first n e w) (hname : id ≠ "") {s : Simulation} {σ : StepSummary}
    (hs : e.simulations.get? id = some s) (hreturn : (e.step s).1 = .ok σ) :
    ∃ v, Counts id first (n + 1) (e.step s).2 v ∧ w.Raises counterNames v := by
  obtain ⟨t, ht, rfl, rfl⟩ := h.own
  obtain rfl := Option.some.inj (hs.symm.trans ht)
  obtain ⟨w', u, q, arena, hw, hstays, -, hfinished, hrealms, hstate⟩ :=
    exists_worlds_of_step World.allowsFlags_stays World.SameApart.stays hname hreturn
  obtain rfl := Option.some.inj (hw.symm.trans h.world)
  obtain ⟨hcounted, hraises⟩ :=
    h.counted.finish hstays e.settings.historyLimit q.events q.rules q.arena.ambient.tick.1
  let after : Simulation := { s with currentStep := s.currentStep + 1, statistics := q.total }
  refine ⟨_, ⟨⟨after, ?_, rfl, rfl⟩, ?_, hcounted⟩, hraises⟩
  · rw [hstate, stepped, alter, Table.get?_modify, if_pos rfl]
    exact congrArg (Option.map _) hs
  · rw [hstate]
    change arena.world? s.id = _
    rw [Arena.world?, hrealms]
    exact hfinished

end Counts

theorem HandRun.counts (hrun : HandRun id f m g) (hname : id ≠ "") (h : Counts id first n f w) :
    ∃ v, Counts id first (n + m) g v ∧ w.Raises counterNames v := by
  induction hrun with
  | start => exact ⟨w, h, .refl w⟩
  | step _ hs hreturn ih =>
    obtain ⟨u, hu, hwu⟩ := ih
    obtain ⟨v, hv, huv⟩ := hu.step hname hs hreturn
    exact ⟨v, hv, hwu.trans huv⟩
  | event _ r ih =>
    obtain ⟨u, hu, hwu⟩ := ih
    obtain ⟨v, hv, huv⟩ := hu.event r
    exact ⟨v, hv, hwu.trans huv⟩
  | rule _ r ih =>
    obtain ⟨u, hu, hwu⟩ := ih
    obtain ⟨v, hv, huv⟩ := hu.rule r
    exact ⟨v, hv, hwu.trans huv⟩

/-- The counters of a simulation stay in step, whatever its initial state and whatever runs by hand
between its steps: its count, the clock of its world and the variables that show it are the number of
its steps. All other variables keep their first values, except that flags that end a run are raised;
they are never lowered, so that a run that is over stays over. -/
theorem counters_in_step (h : e.Reachable)
    (hspec : e.specifications.get? specification = some spec) (o : SimulationOptions) :
    let id := (e.addSimulation specification spec.program o).1.id
    ∃ first, (e.after (.life (.create specification o))).arena.world? id = some first ∧
      first.vars = o.firstVariables ∧
      ∀ n f, HandRun id (e.after (.life (.create specification o))) n f →
        ∃ s w, f.simulations.get? id = some s ∧ f.arena.world? id = some w ∧
          s.currentStep = n ∧ w.time = n ∧ w.step = n ∧
          (∀ name ∈ ["time", "step"],
            w.vars.get? name = if n = 0 then first.vars.get? name else some (.int n)) ∧
          (∀ name ∉ ["time", "step", "GameOver", "LevelComplete"],
            w.vars.get? name = first.vars.get? name) ∧
          ∀ m g, HandRun id f m g → ∃ v, g.arena.world? id = some v ∧
            (∀ flag ∈ ["GameOver", "LevelComplete"],
              v.vars.get? flag = w.vars.get? flag ∨ v.vars.get? flag = some (.bool true)) ∧
            (w.terminal = true → v.terminal = true) := by
  intro id
  obtain ⟨⟨s, hs, hcount⟩, -⟩ := new_create (e := e) hspec o
  obtain ⟨first, hfirst, hvars, hcounted⟩ := exists_first (e := e) hspec o
  have hname : id ≠ "" := IsSimulationId.ne ⟨_, rfl⟩ (by decide)
  have hid : s.id = id := ((h.registered.deals (deals_after e _)).filed id s hs).1
  refine ⟨first, hfirst, hvars, fun n f hrun => ?_⟩
  obtain ⟨w, hw, -⟩ := hrun.counts hname ⟨⟨s, hs, hid, hcount⟩, hfirst, hcounted⟩
  rw [Nat.zero_add] at hw
  obtain ⟨t, ht, -, htcount⟩ := hw.own
  refine ⟨t, w, ht, hw.world, htcount, hw.counted.time, hw.counted.step, hw.counted.counters,
    fun name hname => ?_, fun m g hlater => ?_⟩
  · exact hw.counted.raises.same (fun hmem => hname (List.mem_append_left terminalFlags hmem))
      fun hmem => hname (List.mem_append_right counterNames hmem)
  · obtain ⟨v, hv, hraises⟩ := hlater.counts hname hw
    refine ⟨v, hv.world, fun flag hflag => ?_, hraises.terminal (by decide)⟩
    have hother : ∀ flag ∈ terminalFlags, flag ∉ counterNames := by decide
    exact (hraises flag (hother flag hflag)).imp_right And.right

theorem HandRun.next (h : HandRun id e n f)
    (hreturn : (f.simulations.get? id).any (fun s => (f.step s).1.isOk) = true) :
    HandRun id e (n + 1) (f.after (.step id)) := by
  obtain ⟨s, hs, hok⟩ := (Option.any_eq_true _ _).mp hreturn
  cases hstep : (f.step s).1 with
  | error error => simp [hstep, Except.isOk, Except.toBool] at hok
  | ok σ => exact after_step hs ▸ h.step hs hstep

/-- An initial state that sets the clock's variable, and one that no program knows. -/
def overridden : SimulationOptions :=
  ⟨none, none, none, none, some ⟨[("time", .int 99), ("mood", .str "calm")], []⟩⟩

/-- An engine with the program of a counter that ends after three steps. -/
@[irreducible] def metered : Engine :=
  (create Settings.default [] (.cyclic [0] 0) (.memory ⟨[], [], []⟩) fun _ _ => []).afterAll
    [.register fading none none]

def uncounted : Engine := metered.after (.life (.create "spec_000000000001" overridden))

def countedOnce : Engine := (uncounted.after (.step "sim_000000000002")).after (.runEvent byHand)

def countedTwice : Engine := countedOnce.after (.step "sim_000000000002")

theorem runs_counted :
    (metered.specifications.get? "spec_000000000001").isSome ∧ metered.arena.ambient.issued = 1 ∧
    (uncounted.simulations.get? "sim_000000000002").any (fun s => (uncounted.step s).1.isOk) = true ∧
    (countedOnce.simulations.get? "sim_000000000002").any (fun s => (countedOnce.step s).1.isOk) =
      true ∧
    (countedTwice.simulations.get? "sim_000000000002").any (fun s => (countedTwice.step s).1.isOk) =
      true ∧
    ((countedTwice.after (.step "sim_000000000002")).arena.world? "sim_000000000002").any
      (·.terminal) = true := by decide +kernel

/-- The clock's variable is set by the first step; the other one is left alone, even by the step that
ends the run. -/
theorem counters_in_step_overridden :
    ∃ spec first s w, metered.Reachable ∧
      metered.specifications.get? "spec_000000000001" = some spec ∧
      uncounted.arena.world? "sim_000000000002" = some first ∧
      first.vars.get? "time" = some (.int 99) ∧ first.vars.get? "mood" = some (.str "calm") ∧
      HandRun "sim_000000000002" uncounted 3 (countedTwice.after (.step "sim_000000000002")) ∧
      (countedTwice.after (.step "sim_000000000002")).simulations.get? "sim_000000000002" = some s ∧
      (countedTwice.after (.step "sim_000000000002")).arena.world? "sim_000000000002" = some w ∧
      s.currentStep = 3 ∧ w.time = 3 ∧ w.step = 3 ∧ w.vars.get? "time" = some (.int 3) ∧
      w.vars.get? "mood" = some (.str "calm") ∧ w.terminal = true := by
  have hreachable : metered.Reachable := by
    unfold metered
    exact ⟨_, _, _, _, _, _, rfl⟩
  obtain ⟨hspec, hissued, hone, htwo, hthree, hover⟩ := runs_counted
  obtain ⟨spec, hspec⟩ := Option.isSome_iff_exists.mp hspec
  have hrun : HandRun "sim_000000000002" uncounted 3 (countedTwice.after (.step "sim_000000000002")) :=
    (((HandRun.start.next hone).event byHand).next htwo).next hthree
  have hid : (metered.addSimulation "spec_000000000001" spec.program overridden).1.id =
      "sim_000000000002" := by
    change numberedId "sim" (metered.arena.ambient.issued + 1) = _
    rw [hissued]
    decide
  obtain ⟨first, hfirst, hvars, hcounts⟩ := counters_in_step hreachable hspec overridden
  rw [hid] at hfirst hcounts
  obtain ⟨s, w, hs, hw, hcount, htime, hstep, hcounters, hothers, -⟩ := hcounts 3 _ hrun
  have hmood : first.vars.get? "mood" = some (.str "calm") := by
    rw [hvars]
    rfl
  refine ⟨spec, first, s, w, hreachable, hspec, hfirst, ?_, hmood, hrun, hs, hw, hcount, htime, hstep,
    hcounters "time" (by decide), (hothers "mood" (by decide)).trans hmood, ?_⟩
  · rw [hvars]
    rfl
  · rwa [hw] at hover

end Engine

end StepWorld
