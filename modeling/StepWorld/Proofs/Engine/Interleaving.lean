import StepWorld.Proofs.Engine.Deeds
import StepWorld.Proofs.Engine.Paired
import StepWorld.Proofs.Engine.Undisturbed

/-! Steps of several simulations. They share the source of chance, the numbers for new ids and the
clock, and each of them has a world of its own. A simulation that takes no chances comes to the same
whatever steps of others lie between its own. -/

namespace StepWorld

namespace Arena

variable {id : String} {a b : Arena}

theorem Beside.update (h : a.Beside id b) {f : World → World}
    (hf : ∀ w stamp, (f (w.touch stamp)).touch 0 = (f w).touch 0) :
    (a.update id f).Beside id (b.update id f) where
  world := by
    rw [unstamped?_update, unstamped?_update]
    cases ha : a.world? id with
    | none => rw [h.of_none ha]
    | some w =>
      obtain ⟨stamp, hb⟩ := h.of_some ha
      rw [hb]
      exact congrArg some (hf w stamp)
  environment := h.environment

end Arena

theorem World.finishStep_touch (w : World) (stamp step : Nat) (limit : Int)
    (events rules : List String) : ((w.touch stamp).finishStep step limit events rules).touch 0 =
      (w.finishStep step limit events rules).touch 0 := by
  let stepped := { w with step := (step : Int) }.setVariable "step" (.int step)
  change (if stepped.terminal then stepped.touch stamp
      else (stepped.touch stamp).record limit events rules).touch 0 =
    (if stepped.terminal then stepped else stepped.record limit events rules).touch 0
  split <;> rfl

theorem Arena.matches_beside (id : String) : Arena.Matches id (Arena.Beside id) where
  gone h hw := h.of_none hw
  there h hw := h.of_some hw
  environment := Arena.Beside.environment
  shown h _ _ := ⟨h.world, h.environment⟩
  finished h _ _ _ _ := h.update fun w stamp => w.finishStep_touch stamp _ _ _ _

namespace Engine

variable {e f g : Engine} {s t : Simulation} {id : String}

structure Level (id : String) (e f : Engine) : Prop where
  settings : f.settings = e.settings
  specifications : f.specifications = e.specifications
  own : f.simulations.get? id = e.simulations.get? id
  arena : e.arena.Beside id f.arena

namespace Level

theorem refl (e : Engine) : Level id e e := ⟨rfl, rfl, rfl, .refl _⟩

theorem symm (h : Level id e f) : Level id f e :=
  ⟨h.settings.symm, h.specifications.symm, h.own.symm, h.arena.world.symm,
    h.arena.environment.symm⟩

theorem trans (h : Level id e f) (h' : Level id f g) : Level id e g :=
  ⟨h'.settings.trans h.settings, h'.specifications.trans h.specifications, h'.own.trans h.own,
    h'.arena.world.trans h.arena.world, h'.arena.environment.trans h.arena.environment⟩

theorem programs (h : Level id e f) : f.programs = e.programs := by
  funext k
  rw [Engine.programs, h.specifications]
  rfl

end Level

/-- A registered simulation whose program takes no chances. One that has no program any more takes
none either. -/
def Chanceless (e : Engine) (s : Simulation) : Prop :=
  ∀ p, e.programs s.specification = some p → p.Chanceless

theorem Registered.settled (h : e.Registered) {p : Program} {specification : String}
    (hp : e.programs specification = some p) : p.Settled := by
  obtain ⟨spec, hspec, rfl⟩ := Option.map_eq_some_iff.mp hp
  obtain ⟨source, hsource⟩ := (h.sourced specification spec hspec).1
  exact settled_of_registrable hsource

theorem Registered.named (h : e.Registered) (hs : e.simulations.get? id = some s) :
    s.id = id ∧ s.id ≠ "" := by
  obtain ⟨hid, n, -, hname⟩ := h.filed id s hs
  have hsimulation : IsSimulationId s.id := ⟨n, hid.trans hname⟩
  exact ⟨hid, hsimulation.ne (by decide)⟩

theorem Level.runOf (h : Level s.id e f) (hname : s.id ≠ "") {p : Program}
    (hp : e.programs s.specification = some p) (hchance : p.Chanceless) (hsettled : p.Settled)
    (w : World) (stamp : Nat) :
    (f.runOf s p (w.touch stamp)).1 = (e.runOf s p w).1 ∧
      (e.runOf s p w).2.Beside (Arena.Beside s.id) (f.runOf s p (w.touch stamp)).2 := by
  have hkeep : (e.arena.keep s.id w.advance).Beside s.id
      (f.arena.keep s.id (w.touch stamp).advance) := h.arena.keep rfl
  have hstart : StepProgress.Beside (Arena.Beside s.id)
      ⟨e.arena.keep s.id w.advance, [], [], 0, [], s.statistics⟩
      ⟨f.arena.keep s.id (w.touch stamp).advance, [], [], 0, [], s.statistics⟩ :=
    ⟨_, hkeep, rfl⟩
  obtain ⟨hresult, hprogress⟩ := StepTarget.agrees_program_restamped
    (t := ⟨e.programs, s.specification, s.id⟩) hname hp hchance hsettled _ _ hstart
  unfold Engine.runOf
  rw [h.programs]
  exact ⟨hresult.symm, hprogress⟩

/-- A step of a simulation that takes no chances comes to the same in two engines that are level,
and leaves them so. -/
theorem Level.step (h : Level s.id e f) (hname : s.id ≠ "") (hchance : e.Chanceless s)
    (hsettled : ∀ p, e.programs s.specification = some p → p.Settled) :
    (f.step s).1 = (e.step s).1 ∧ Level s.id (e.step s).2 (f.step s).2 := by
  obtain ⟨arena, arena', g, harena, -, hstate, hstep⟩ := step_paired (Arena.matches_beside s.id)
    h.settings h.programs h.arena ⟨s.status, s.maxSteps, rfl⟩
    fun p w stamp hp _ _ => h.runOf hname hp (hchance p hp) (hsettled p hp) w stamp
  rw [hstep, hstate]
  refine ⟨rfl, h.settings, h.specifications, ?_, harena⟩
  simp only [stepped, alter, Table.get?_modify, if_true, h.own]

theorem Registered.step_aside (h : e.Registered) (hs : e.simulations.get? id = some s)
    {k : String} (hk : k ≠ id) :
    (e.step s).2.simulations.get? k = e.simulations.get? k ∧
      (e.step s).2.arena.realms.get? k = e.arena.realms.get? k := by
  obtain ⟨rfl, hname⟩ := h.named hs
  exact ⟨(touches_step e s).others k hk, realms_step e hname hk⟩

theorem Registered.level_step (h : e.Registered) (hs : e.simulations.get? id = some s)
    {k : String} (hk : k ≠ id) : Level k e (e.step s).2 := by
  obtain ⟨hown, hrealm⟩ := h.step_aside hs hk
  have hworld : (e.step s).2.arena.world? k = e.arena.world? k :=
    congrArg (Option.map Realm.world) hrealm
  obtain ⟨arena, u, hstep, hadvances, -⟩ := e.step_stepped s
  refine ⟨(touches_step e s).settings, (touches_step e s).specifications, hown, ?_, ?_⟩
  · rw [Arena.unstamped?, hworld]
    rfl
  · rw [hstep]
    exact hadvances.ambient.environment

/-! ### Any interleaving -/

/-- Takes one step of each of some simulations, one after another, and notes what each comes to.
Ids without a simulation are passed over. -/
def stepAll : List String → Engine → List (String × Except StepError StepSummary) × Engine
  | [], e => ([], e)
  | id :: rest, e =>
    match e.simulations.get? id with
    | none => stepAll rest e
    | some s =>
      let (result, e) := e.step s
      let (results, e) := stepAll rest e
      ((id, result) :: results, e)

theorem stepAll_cons (id : String) (rest : List String) (hs : e.simulations.get? id = some s) :
    stepAll (id :: rest) e =
      ((id, (e.step s).1) :: (stepAll rest (e.step s).2).1, (stepAll rest (e.step s).2).2) := by
  rw [stepAll, hs]

theorem stepAll_passed (id : String) (rest : List String) (hs : e.simulations.get? id = none) :
    stepAll (id :: rest) e = stepAll rest e := by
  rw [stepAll, hs]

theorem Chanceless.of_specifications (h : e.Chanceless s)
    (hf : f.specifications = e.specifications) (ht : t.specification = s.specification) :
    f.Chanceless t := by
  unfold Chanceless Engine.programs at *
  rw [hf, ht]
  exact h

theorem specification_step (hs : e.simulations.get? s.id = some s) :
    ∃ t, (e.step s).2.simulations.get? s.id = some t ∧ t.specification = s.specification := by
  obtain ⟨arena, u, hstep, -, hu⟩ := e.step_alters s
  obtain ⟨_, _, hus⟩ := hu s
  refine ⟨u s, ?_, by rw [hus]⟩
  rw [hstep]
  simp [stepped, alter, Table.get?_modify, hs]

/-- Whatever other simulations do between its steps, a simulation that takes no chances comes to
what it comes to alone. -/
theorem Registered.stepAll_alone (h : e.Registered) (hf : f.Registered) (hlevel : Level id e f)
    (hchance : ∀ s, e.simulations.get? id = some s → e.Chanceless s) (order : List String) :
    (stepAll order e).1.filter (·.1 == id) = (stepAll (order.filter (· == id)) f).1 ∧
      Level id (stepAll order e).2 (stepAll (order.filter (· == id)) f).2 := by
  induction order generalizing e f with
  | nil => exact ⟨rfl, hlevel⟩
  | cons k rest ih =>
    cases hs : e.simulations.get? k with
    | none =>
      rw [stepAll_passed k rest hs]
      by_cases hk : k = id
      · subst hk
        rw [List.filter_cons_of_pos (by simp), stepAll_passed k _ (hlevel.own.trans hs)]
        exact ih h hf hlevel hchance
      · rw [List.filter_cons_of_neg (by simpa using hk)]
        exact ih h hf hlevel hchance
    | some s =>
      rw [stepAll_cons k rest hs]
      by_cases hk : k = id
      · subst hk
        obtain ⟨rfl, hname⟩ := h.named hs
        have hs' := hlevel.own.trans hs
        obtain ⟨hresult, hnext⟩ := hlevel.step hname (hchance s hs) fun p hp => h.settled hp
        have hgoes (t : Simulation) (ht : (e.step s).2.simulations.get? s.id = some t) :
            (e.step s).2.Chanceless t := by
          obtain ⟨u, hu, hspecification⟩ := specification_step hs
          obtain rfl := Option.some.inj (ht.symm.trans hu)
          exact (hchance s hs).of_specifications (touches_step e s).specifications hspecification
        obtain ⟨hresults, hlast⟩ := ih (h.step s) (hf.step s) hnext hgoes
        rw [List.filter_cons_of_pos (by simp), List.filter_cons_of_pos (by simp),
          stepAll_cons s.id _ hs', hresults, hresult]
        exact ⟨rfl, hlast⟩
      · rw [List.filter_cons_of_neg (by simpa using hk), List.filter_cons_of_neg (by simpa using hk)]
        have haside := h.level_step hs (Ne.symm hk)
        refine ih (h.step s) hf (haside.symm.trans hlevel) fun t ht => ?_
        exact (hchance t (haside.own.symm.trans ht)).of_specifications haside.specifications rfl

theorem Registered.ne_of_specification (h : e.Registered) {k : String}
    (hk : (e.specifications.get? k).isSome) (hs : e.simulations.get? id = some s) : k ≠ id := by
  obtain ⟨spec, hspec⟩ := Option.isSome_iff_exists.mp hk
  obtain ⟨-, m, -, rfl⟩ := h.sourced k spec hspec
  obtain ⟨-, n, -, rfl⟩ := h.filed id s hs
  exact specificationId_ne m n

theorem Registered.stepAll_pair (h : e.Registered) {a b : String} (hab : a ≠ b)
    (hs : e.simulations.get? a = some s) (ht : e.simulations.get? b = some t)
    (hb : e.Chanceless t) :
    (stepAll [a, b] e).1 = [(a, (e.step s).1), (b, (e.step t).1)] ∧
      Level a (e.step s).2 (stepAll [a, b] e).2 ∧ Level b (e.step t).2 (stepAll [a, b] e).2 ∧
      ∀ k, k ≠ a → k ≠ b → Level k e (stepAll [a, b] e).2 := by
  obtain ⟨hidB, hnameB⟩ := h.named ht
  have hlevel := h.level_step hs hab.symm
  have ht' : (e.step s).2.simulations.get? b = some t := hlevel.own.trans ht
  have hboth : stepAll [a, b] e =
      ([(a, (e.step s).1), (b, ((e.step s).2.step t).1)], ((e.step s).2.step t).2) := by
    rw [stepAll_cons a [b] hs, stepAll_cons b [] ht']
    rfl
  obtain ⟨hresult, hnext⟩ := (hidB.symm ▸ hlevel).step hnameB hb fun p hp => h.settled hp
  rw [hboth, hresult]
  refine ⟨rfl, (h.step s).level_step ht' hab, hidB ▸ hnext, fun k hka hkb => ?_⟩
  exact (h.level_step hs hka).trans ((h.step s).level_step ht' hkb)

/-- Steps of different simulations commute. A step changes the world of its own simulation and
nothing else that stands under an id. Two simulations that take no chances come to the same in
either order, and leave the same simulations and, up to stamps, the same worlds. In any
interleaving, a simulation that takes no chances comes to what it comes to alone. -/
theorem steps_commute (h : e.Reachable) :
    (∀ id s, e.simulations.get? id = some s → ∀ k, k ≠ id ∨ (e.specifications.get? k).isSome →
      (e.step s).2.arena.realms.get? k = e.arena.realms.get? k) ∧
    (∀ a b s t, a ≠ b → e.simulations.get? a = some s → e.simulations.get? b = some t →
      e.Chanceless s → e.Chanceless t →
      (stepAll [a, b] e).1 = [(a, (e.step s).1), (b, (e.step t).1)] ∧
      (stepAll [b, a] e).1 = [(b, (e.step t).1), (a, (e.step s).1)] ∧
      ∀ k, (stepAll [a, b] e).2.simulations.get? k = (stepAll [b, a] e).2.simulations.get? k ∧
        (stepAll [a, b] e).2.arena.unstamped? k = (stepAll [b, a] e).2.arena.unstamped? k) ∧
    ∀ order id s, e.simulations.get? id = some s → e.Chanceless s →
      (stepAll order e).1.filter (·.1 == id) = (stepAll (order.filter (· == id)) e).1 ∧
      (stepAll order e).2.simulations.get? id =
        (stepAll (order.filter (· == id)) e).2.simulations.get? id ∧
      (stepAll order e).2.arena.unstamped? id =
        (stepAll (order.filter (· == id)) e).2.arena.unstamped? id := by
  have hregistered := h.registered
  refine ⟨fun id s hs k hk => ?_, fun a b s t hab hs ht ha hb => ?_, fun order id s hs ha => ?_⟩
  · have hne : k ≠ id := hk.elim (fun hk => hk) fun hk => hregistered.ne_of_specification hk hs
    exact (hregistered.step_aside hs hne).2
  · obtain ⟨hone, honeA, honeB, honeRest⟩ := hregistered.stepAll_pair hab hs ht hb
    obtain ⟨htwo, htwoB, htwoA, htwoRest⟩ := hregistered.stepAll_pair hab.symm ht hs ha
    have hlevel (k : String) : Level k (stepAll [a, b] e).2 (stepAll [b, a] e).2 := by
      by_cases hka : k = a
      · exact hka ▸ honeA.symm.trans htwoA
      by_cases hkb : k = b
      · exact hkb ▸ honeB.symm.trans htwoB
      exact (honeRest k hka hkb).symm.trans (htwoRest k hkb hka)
    exact ⟨hone, htwo, fun k => ⟨(hlevel k).own.symm, (hlevel k).arena.world.symm⟩⟩
  · have hchance (t : Simulation) (ht : e.simulations.get? id = some t) : e.Chanceless t := by
      obtain rfl := Option.some.inj (hs.symm.trans ht)
      exact ha
    obtain ⟨hresults, hlevel⟩ :=
      hregistered.stepAll_alone hregistered (.refl e) hchance order
    exact ⟨hresults, hlevel.own.symm, hlevel.arena.world.symm⟩

def tally : String :=
  "Entity Tally { State { n: int } Event count { effect: Self.n = Self.n + 1 } }"

@[irreducible] def tallying : Engine :=
  (create .default [] (.cyclic [0] 0) (.memory ⟨[], [], []⟩) fun _ _ => []).afterAll
    [.register tally none none, .life (.create "spec_000000000001" ⟨none, none, none, none, none⟩),
      .life (.create "spec_000000000001" ⟨none, none, none, none, none⟩)]

theorem reachable_tallying : tallying.Reachable := by
  unfold tallying
  exact ⟨_, _, _, _, _, _, rfl⟩

theorem chanceless_tallying (hs : tallying.simulations.get? id = some s) :
    tallying.Chanceless s := by
  have hall : tallying.simulations.all
      (fun entry => (tallying.programs entry.2.specification).all (·.Chanceless)) = true := by
    decide +kernel
  intro p hp
  have hentry := List.all_eq_true.mp hall (id, s) (Table.mem_of_get? hs)
  rw [hp] at hentry
  exact of_decide_eq_true hentry

/-- Both simulations count, in either order. A step of the second between two of the first makes
no difference to it. -/
theorem steps_commute_tallying :
    ∃ s t, tallying.simulations.get? "sim_000000000002" = some s ∧
      tallying.simulations.get? "sim_000000000003" = some t ∧
      (tallying.step s).1.isOk = true ∧ (tallying.step t).1.isOk = true ∧
      (tallying.step s).2.arena.realms.get? "sim_000000000003" =
        tallying.arena.realms.get? "sim_000000000003" ∧
      (stepAll ["sim_000000000002", "sim_000000000003"] tallying).2.arena.unstamped?
          "sim_000000000003" =
        (stepAll ["sim_000000000003", "sim_000000000002"] tallying).2.arena.unstamped?
          "sim_000000000003" ∧
      (stepAll ["sim_000000000002", "sim_000000000003", "sim_000000000002"]
          tallying).2.arena.unstamped? "sim_000000000002" =
        (stepAll ["sim_000000000002", "sim_000000000002"] tallying).2.arena.unstamped?
          "sim_000000000002" := by
  have hboth : (tallying.simulations.get? "sim_000000000002").isSome ∧
      (tallying.simulations.get? "sim_000000000003").isSome := by decide +kernel
  have hreturn : tallying.simulations.all (fun entry => (tallying.step entry.2).1.isOk) = true := by
    decide +kernel
  obtain ⟨s, hs⟩ := Option.isSome_iff_exists.mp hboth.1
  obtain ⟨t, ht⟩ := Option.isSome_iff_exists.mp hboth.2
  obtain ⟨haside, hpair, hany⟩ := steps_commute reachable_tallying
  refine ⟨s, t, hs, ht, List.all_eq_true.mp hreturn _ (Table.mem_of_get? hs),
    List.all_eq_true.mp hreturn _ (Table.mem_of_get? ht), ?_, ?_, ?_⟩
  · exact haside _ s hs _ (.inl (by decide))
  · exact ((hpair _ _ s t (by decide) hs ht (chanceless_tallying hs)
      (chanceless_tallying ht)).2.2 _).2
  · exact (hany _ _ s hs (chanceless_tallying hs)).2.2

end Engine

end StepWorld
