import StepWorld.Proofs.Engine.Attempts
import StepWorld.Proofs.Engine.Faultless
import StepWorld.Proofs.World.Stock

/-! What a run takes from a property. If a program only takes from it, the property is never
negative from the creation of a simulation on, and each change of it comes from one assignment. -/

namespace StepWorld

variable {property : String}

/-! ### Steps -/

theorem World.Stocks.finishStep {w : World} (h : w.Stocks property) (step : Nat) (limit : Int)
    (events rules : List String) : (w.finishStep step limit events rules).Stocks property := by
  unfold World.finishStep
  dsimp only
  split <;> exact h

namespace StepTarget

/-- A step comes to an event of an instance: all that runs before it is done, and the instance is
still there. -/
inductive Comes (t : StepTarget) (p : Program) (q : StepProgress) : Request → Arena → Prop
  | event {entity : EntityDecl} {before after : List EntityDecl} {i : Instance}
      {first rest : List Instance} {name : String} {done todo : List String}
      {u v w : StepProgress} :
      p.entities = before ++ entity :: after →
      StateT.run (ExceptT.run (t.entities before)) q = (.ok (), u) →
      (u.arena.world? t.world).elim [] (·.instances entity.name) = first ++ i :: rest →
      StateT.run (ExceptT.run (t.instances entity.name first)) u = (.ok (), v) →
      (v.arena.instance? t.world entity.name i.id).isSome →
      i.events = done ++ name :: todo →
      StateT.run (ExceptT.run (t.events entity.name i.id done)) v = (.ok (), w) →
      t.Comes p q (t.eventRequest entity.name i.id name) w.arena

def KeepsStocked (property id : String) (a b : Arena) : Prop :=
  a.StockedIn property id → b.StockedIn property id

instance (id : String) : Std.Refl (KeepsStocked property id) := ⟨fun _ h => h⟩

instance (id : String) : Trans (KeepsStocked property id) (KeepsStocked property id)
    (KeepsStocked property id) := ⟨fun h h' hs => h' (h hs)⟩

variable {t : StepTarget} (ht : t.world ≠ "")
  (hp : ∀ p, t.programs t.specification = some p → p.Saves property)

include ht hp

theorem keepsStocked_runEvent (type id event : String) :
    Moves (KeepsStocked property t.world)
      (runEvent t.programs (t.eventRequest type id event)) := by
  intro a ha
  have hworld := worldId_eventRequest ht type id event
  exact hworld ▸ stocked_runEvent (r := t.eventRequest type id event) hp .nil (hworld.symm ▸ ha)

theorem keepsStocked_runRule (name : String) :
    Moves (KeepsStocked property t.world) (runRule t.programs (t.ruleRequest name)) := by
  intro a ha
  have hworld := worldId_ruleRequest ht name
  exact hworld ▸ stocked_runRule (r := t.ruleRequest name) hp .nil (hworld.symm ▸ ha)

theorem Comes.stocked {p : Program} {q : StepProgress} {r : Request} {a : Arena}
    (h : t.Comes p q r a) (hq : q.arena.StockedIn property t.world) :
    a.StockedIn property t.world := by
  have hevents := t.composes_along (keepsStocked_runEvent ht hp)
  obtain @⟨entity, before, _, i, first, _, _, done, _, u, v, w, -, hbefore, -, hfirst, -, -,
    hdone⟩ := h
  have hu : u.arena.StockedIn property t.world := by
    have hmoves := hevents.entities before q hq
    rwa [hbefore] at hmoves
  have hv : v.arena.StockedIn property t.world := by
    have hmoves := hevents.instances entity.name first u hu
    rwa [hfirst] at hmoves
  have hw := hevents.events entity.name i.id done v hv
  rwa [hdone] at hw

theorem Comes.takes {p : Program} {q : StepProgress} {r : Request} {a b : Arena} {o : Outcome}
    (h : t.Comes p q r a) (hq : q.arena.StockedIn property t.world)
    (hrun : (runEvent t.programs r).run.run a = (.ok o, b)) {change : Change}
    (hmem : change ∈ o.changes) (hproperty : change.property? = some property) :
    ∃ c, r.call t.programs a.realms = .ok c ∧ c.Takes r a property change := by
  have ha := h.stocked ht hp hq
  obtain @⟨entity, _, _, i, _, _, name, _, _, _, _, w⟩ := h
  have hworld := worldId_eventRequest ht entity.name i.id name
  exact takes_runEvent (r := t.eventRequest entity.name i.id name) hp .nil (hworld.symm ▸ ha) hrun
    hmem hproperty

end StepTarget

namespace Engine

variable {e f : Engine} {s : Simulation} {id specification : String}

def Comes (e : Engine) (s : Simulation) (r : Request) (a : Arena) : Prop :=
  ∃ p w, e.programs s.specification = some p ∧ e.arena.world? s.id = some w ∧
    (e.target s).Comes p (e.opening s w) r a

theorem stocked_advance (h : e.arena.StockedIn property id) {w : World}
    (hw : e.arena.world? id = some w) :
    (e.arena.keep id w.advance).StockedIn property id := by
  obtain ⟨realm, hrealm, rfl⟩ := Arena.realm_of_world? hw
  exact h.along (h.exact.keep (h.exact realm hrealm).world.advance) (e.arena.advances_keep _ _)
    (.of_keep hrealm fun hstocks => hstocks)

theorem stocked_step (hs : s.id ≠ "")
    (hp : ∀ p, e.programs s.specification = some p → p.Saves property)
    (h : e.arena.StockedIn property s.id) : (e.step s).2.arena.StockedIn property s.id := by
  have hran {p : Program} {w : World} {result : Except Fault Unit} {q : StepProgress}
      (hprogram : e.programs s.specification = some p) (hw : e.arena.world? s.id = some w)
      (hrun : e.runOf s p w = (result, q)) : q.arena.StockedIn property s.id := by
    have hmoves := (e.target s).moves_program (StepTarget.keepsStocked_runEvent hs hp)
      (StepTarget.keepsStocked_runRule hs hp) p (e.opening s w) (stocked_advance h hw)
    change (e.runOf s p w).2.arena.StockedIn property s.id at hmoves
    rwa [hrun] at hmoves
  have houtcome := e.step_outcome s
  generalize e.step s = result at houtcome ⊢
  cases houtcome with
  | unknown hprogram => exact h
  | gone hprogram hw => exact h
  | failed hprogram hw hrun => exact hran hprogram hw hrun
  | counted hprogram hw hrun =>
    exact ((hran hprogram hw hrun).update (fun w hw => hw.finishStep _ _ _ _)
      fun w hstocks => hstocks.finishStep _ _ _ _).of_realm rfl

structure Stocked (property id specification : String) (e : Engine) : Prop where
  unfailing : e.Unfailing id specification
  lowers : ∀ p, e.programs specification = some p → p.Lowers property
  world : ∀ w, e.arena.world? id = some w → w.Stocks property

namespace Stocked

theorem arena (h : e.Stocked property id specification) : e.arena.StockedIn property id :=
  ⟨h.unfailing.world, h.world⟩

theorem saves (h : e.Stocked property id specification) {p : Program}
    (hp : e.programs specification = some p) : p.Saves property := by
  obtain ⟨spec, hspec, rfl⟩ := Option.map_eq_some_iff.mp hp
  obtain ⟨⟨source, hsource⟩, -⟩ := h.unfailing.registered.sourced _ _ hspec
  exact ⟨h.unfailing.program _ hp, settled_of_registrable hsource, h.lowers _ hp⟩

theorem step (h : e.Stocked property id specification) {k : String} (hs : e.runner? k = some s) :
    (e.step s).2.arena.StockedIn property id := by
  obtain ⟨rfl, n, -, hname⟩ := h.unfailing.registered.runner hs
  have hnonempty : s.id ≠ "" := IsSimulationId.ne ⟨n, hname⟩ (by decide)
  by_cases hid : id = s.id
  · subst hid
    obtain rfl := h.unfailing.runner s hs
    exact stocked_step hnonempty (fun p => h.saves) h.arena
  · exact h.arena.of_realm (realms_step e hnonempty hid)

theorem stirs (h : e.Stocked property id specification) (hf : Stirs e f) :
    f.Stocked property id specification := by
  have hunfailing := h.unfailing.stirs hf
  have harena : f.arena.StockedIn property id := by
    cases hf with
    | aside ha | refused ha => exact h.arena.of_realm (congrArg (·.get? id) ha.realms)
    | step hs => exact h.step hs
    | broken hs _ ha => exact (h.step hs).of_realm (congrArg (·.get? id) ha.realms)
    | drop | forget => exact h.arena.delete _
    | @write k n name value hr =>
      by_cases hk : id = k
      · subst hk
        exact h.arena.update (fun w hw => hw.setVariable (h.unfailing.listener n name value hr))
          fun w hstocks => hstocks
      · exact h.arena.of_realm (e.arena.others_update _ id hk)
    | @add k program hp o =>
      have hnew := ne_addSimulation h.unfailing.named k program o
      exact h.arena.of_realm (undisturbed_addSimulation e k program o hnew).realm
  refine ⟨hunfailing, fun p hp => h.lowers p ?_, harena.world⟩
  rw [← programs_congr hf.specifications]
  exact hp

theorem stirred (h : e.Stocked property id specification) (hf : Stirred e f) :
    f.Stocked property id specification := by
  induction hf with
  | refl => exact h
  | tail _ hstep ih => exact ih.stirs hstep

end Stocked

/-- A program that is registered after a deed under a known id was so before, or the deed has put it
there. -/
theorem Deals.program {d : Deed} (hf : Deals e d f)
    (hknown : ∃ n ≤ e.arena.ambient.issued, specification = numberedId "spec" n) {p : Program}
    (hp : f.programs specification = some p) : e.programs specification = some p ∨
      ∃ source name description, d = .revise specification (some source) name description ∧
        registrable source = .ok p := by
  have hput {e : Engine} {k : String} {spec : Specification}
      (hp : ((e.specifications.put k spec).get? specification).map (·.program) = some p) :
      specification = k ∧ spec.program = p ∨ e.programs specification = some p := by
    rw [Table.get?_put] at hp
    split at hp
    · next hk =>
      cases hp
      exact .inl ⟨hk, rfl⟩
    · exact .inr hp
  cases hf with
  | stirred hf =>
    rw [programs_congr (specifications_stirred hf)] at hp
    exact .inl hp
  | registered ha hfresh _ _ hg =>
    rw [programs_congr hg.specifications] at hp
    rcases hput hp with ⟨hnew, -⟩ | hp
    · obtain ⟨m, hm, hname⟩ := hknown
      have := numberedId_injective (hname.symm.trans hnew)
      omega
    · exact .inl (programs_congr ha.specifications ▸ hp)
  | renamed spec hs hprogram =>
    rcases hput hp with ⟨rfl, rfl⟩ | hp
    · exact .inl (by rw [programs, hs, hprogram]; rfl)
    · exact .inl hp
  | rewritten spec hs hsource =>
    rcases hput hp with ⟨rfl, rfl⟩ | hp
    · exact .inr ⟨_, _, _, rfl, hsource⟩
    · exact .inl hp
  | withdrawn hs =>
    obtain ⟨spec, hspec, rfl⟩ := Option.map_eq_some_iff.mp hp
    exact .inl (Option.map_eq_some_iff.mpr ⟨spec, (Table.get?_of_remove hspec).2, rfl⟩)
  | event r => exact .inl hp
  | rule r => exact .inl hp
  | cleared => cases hp
  | disturbed hf => exact .inl hp

end Engine

/-- A deed leaves a property a stock: no new source of the program sets it but by taking, and
nothing done to its world directly makes it anything else. -/
def Deed.Saves (property id specification : String) : Deed → Prop
  | .revise k (some source) _ _ =>
    k = specification → ∀ p, registrable source = .ok p → p.Lowers property
  | .disturb f _ => ∀ a : Arena, a.StockedIn property id → (f a).StockedIn property id
  | _ => True

namespace Engine

variable {e f : Engine} {id specification : String}

namespace Stocked

theorem deals (h : e.Stocked property id specification) {d : Deed} (hd : d.Exact id specification)
    (hsaves : d.Saves property id specification) (hf : Deals e d f) :
    f.Stocked property id specification := by
  have hunfailing := h.unfailing.deals hd hf
  have hlowers : ∀ p, f.programs specification = some p → p.Lowers property := by
    intro p hp
    rcases hf.program h.unfailing.known hp with hp | ⟨source, _, _, rfl, hsource⟩
    · exact h.lowers p hp
    · exact hsaves rfl p hsource
  have hcreate {a : Arena} {k : String} (entities : List EntityDecl) (ha : a.StockedIn property id)
      (hk : ∃ n, k = numberedId "spec" n) : (a.create k entities).StockedIn property id := by
    obtain ⟨m, -, hname⟩ := h.unfailing.named
    obtain ⟨n, rfl⟩ := hk
    refine ha.of_realm ((Table.get?_put _ _ _ _).trans (if_neg ?_))
    rw [hname]
    exact (specificationId_ne n m).symm
  have harena : f.arena.StockedIn property id := by
    cases hf with
    | stirred hf => exact (h.stirred hf).arena
    | registered ha _ _ _ hg =>
      have hissued := h.arena.of_realm (congrArg (·.get? id) ha.realms)
      exact (hcreate _ hissued ⟨_, rfl⟩).of_realm (congrArg (·.get? id) hg.realms)
    | renamed => exact h.arena.of_realm rfl
    | rewritten spec hs hsource =>
      obtain ⟨-, n, -, hname⟩ := h.unfailing.registered.sourced _ _ hs
      exact hcreate _ (h.arena.of_realm (b := e.tick.2.arena) rfl) ⟨n, hname⟩
    | withdrawn hs => exact h.arena.delete _
    | event r =>
      by_cases hk : id = r.worldId
      · subst hk
        obtain ⟨rfl, hparameters⟩ := hd rfl
        exact stocked_runEvent (fun p => h.saves) hparameters h.arena
      · exact h.arena.of_realm ((kept_runEvent e.programs r e.arena).others id hk)
    | rule r =>
      by_cases hk : id = r.worldId
      · subst hk
        obtain ⟨rfl, hparameters⟩ := hd rfl
        exact stocked_runRule (fun p => h.saves) hparameters h.arena
      · exact h.arena.of_realm ((spared_runRule e.programs r e.arena).others id hk)
    | cleared => exact ⟨hunfailing.world, fun w hw => by cases hw⟩
    | disturbed hf => exact hsaves e.arena h.arena
  exact ⟨hunfailing, hlowers, harena.world⟩

theorem afterAll (h : e.Stocked property id specification) {deeds : List Deed}
    (hdeeds : ∀ d ∈ deeds, d.Exact id specification ∧ d.Saves property id specification) :
    (e.afterAll deeds).Stocked property id specification := by
  induction deeds generalizing e with
  | nil => exact h
  | cons d rest ih =>
    obtain ⟨⟨hd, hsaves⟩, hrest⟩ := List.forall_mem_cons.mp hdeeds
    exact ih (h.deals hd hsaves (deals_after e d)) hrest

theorem takes (h : e.Stocked property id specification) {s : Simulation}
    (hs : e.runner? id = some s) {r : Request} {a b : Arena} {o : Outcome} (hcomes : e.Comes s r a)
    (hrun : (StepWorld.runEvent e.programs r).run.run a = (.ok o, b)) {change : Change}
    (hmem : change ∈ o.changes) (hproperty : change.property? = some property) :
    ∃ c, r.call e.programs a.realms = .ok c ∧ c.Takes r a property change := by
  obtain rfl := h.unfailing.runner s hs
  obtain ⟨rfl, -⟩ := h.unfailing.registered.runner hs
  obtain ⟨p, w, -, hw, hcomes⟩ := hcomes
  exact hcomes.takes h.unfailing.nonempty (fun p => h.saves) (stocked_advance h.arena hw) hrun hmem
    hproperty

end Stocked

/-! ### From the creation on -/

/-- Taking never drives a property below zero. Let a program know no floats, divide nothing, and
set a property by taking from it alone, whoever has it. If the property is a whole number that is
not negative wherever a new instance has it, it stays one, through all steps, and whatever else is
done that neither brings in a float nor sets it otherwise. Every change of it that an event of a
step lists comes from one assignment, and the new value is what that left of the old one, or zero.
Rules list nothing but flags. -/
theorem taking_stops_at_zero (h : e.Reachable) {spec : Specification}
    (hspec : e.specifications.get? specification = some spec) (hexact : spec.program.Exact)
    (hlowers : spec.program.Lowers property) {o : SimulationOptions} (ho : o.Exact)
    (hid : id = numberedId "sim" (e.arena.ambient.issued + 1))
    (hlistener : ∀ n name value, .setVariable name value ∈ e.listener id n → value.isExact = true)
    (hinitial : ∀ w, (e.after (.life (.create specification o))).arena.world? id = some w →
      w.Stocks property)
    {deeds : List Deed}
    (hdeeds : ∀ d ∈ deeds, d.Exact id specification ∧ d.Saves property id specification)
    {f : Engine}
    (hf : Stirred ((e.after (.life (.create specification o))).afterAll deeds) f) :
    (∀ w, f.arena.world? id = some w → w.Stocks property) ∧
    (∀ s r a o b, f.runner? id = some s → f.Comes s r a →
      (StepWorld.runEvent f.programs r).run.run a = (.ok o, b) →
      ∀ change ∈ o.changes, change.property? = some property →
        ∃ c, r.call f.programs a.realms = .ok c ∧ c.Takes r a property change) ∧
    ∀ r a o b, (StepWorld.runRule f.programs r).run.run a = (.ok o, b) →
      ∀ change ∈ o.changes, ∃ flag old, change = .flagged flag old := by
  have hcreated :
      (e.after (.life (.create specification o))).Stocked property id specification := by
    refine ⟨h.registered.unfailing_create hspec hexact ho hid hlistener, fun p hp => ?_, hinitial⟩
    have hsame := specifications_stirred (stirred_perform e (.create specification o))
    change (e.perform (.create specification o)).2.programs specification = some p at hp
    rw [programs_congr hsame, programs, hspec] at hp
    exact Option.some.inj hp ▸ hlowers
  have hstocked := (hcreated.afterAll hdeeds).stirred hf
  exact ⟨hstocked.world, fun s r a o b hs hcomes hrun change hmem hproperty =>
    hstocked.takes hs hcomes hrun hmem hproperty,
    fun r a o b hrun change hmem => flags_of_runRule hrun hmem⟩

def firstEvent? (e : Engine) (s : Simulation) : Option (Request × Arena) := do
  let p ← e.programs s.specification
  let w ← e.arena.world? s.id
  let entity ← p.entities.head?
  let i ← (w.advance.instances entity.name).head?
  let name ← i.events.head?
  return ((e.target s).eventRequest entity.name i.id name, (e.opening s w).arena)

theorem comes_of_firstEvent? {s : Simulation} {r : Request} {a : Arena}
    (h : e.firstEvent? s = some (r, a)) : e.Comes s r a := by
  obtain ⟨p, hp, h⟩ := Option.bind_eq_some_iff.mp h
  obtain ⟨w, hw, h⟩ := Option.bind_eq_some_iff.mp h
  obtain ⟨entity, hentity, h⟩ := Option.bind_eq_some_iff.mp h
  obtain ⟨i, hi, h⟩ := Option.bind_eq_some_iff.mp h
  obtain ⟨name, hname, h⟩ := Option.bind_eq_some_iff.mp h
  cases h
  obtain ⟨after, hentities⟩ := List.head?_eq_some_iff.mp hentity
  obtain ⟨rest, his⟩ := List.head?_eq_some_iff.mp hi
  obtain ⟨todo, hevents⟩ := List.head?_eq_some_iff.mp hname
  have hworld : (e.opening s w).arena.world? (e.target s).world = some w.advance :=
    Arena.world?_keep hw _
  refine ⟨p, w, hp, hw, ?_⟩
  have hcomes := @StepTarget.Comes.event (e.target s) p (e.opening s w) entity [] after i [] rest
    name [] todo _ _ _ hentities rfl (by rw [hworld]; exact his) rfl ?_ hevents rfl
  · exact hcomes
  · rw [Arena.instance?, hworld, Option.bind_some, World.find?, his]
    simp

def purse : String :=
  "Entity Purse { State { coins: int, fee: int }
    Event spend { effect: Self.coins -= Self.fee } Event leak { P[Purse.coins -= 1] = 0.5 } }"

/-- An engine in which a program is registered that takes coins from a purse. -/
@[irreducible] def pursed : Engine :=
  (create .default [] (.cyclic [0] 0) (.memory ⟨[], [], []⟩) fun _ _ => []).afterAll
    [.register purse none none]

def fiveCoins : SimulationOptions :=
  ⟨none, none, none, none, some ⟨[], [("Purse", [("coins", .int 5), ("fee", .int 3)])]⟩⟩

/-- The engine after a simulation was created and has taken a step. -/
@[irreducible] def pursedOn : Engine :=
  (pursed.after (.life (.create "spec_000000000001" fiveCoins))).afterAll
    [.step "sim_000000000002"]

theorem runs_pursed :
    (pursed.specifications.get? "spec_000000000001").any
        (fun spec => spec.program.Exact && spec.program.Lowers "coins") ∧
      numberedId "sim" (pursed.arena.ambient.issued + 1) = "sim_000000000002" ∧
      ((pursed.after (.life (.create "spec_000000000001" fiveCoins))).arena.world?
        "sim_000000000002").all (fun w => w.Stocks "coins") ∧
      (pursedOn.arena.world? "sim_000000000002").isSome ∧
      ((pursedOn.simulations.get? "sim_000000000002").bind fun s =>
        (pursedOn.firstEvent? s).bind fun (r, a) =>
          ((StepWorld.runEvent pursedOn.programs r).run.run a).1.toOption.bind fun o : Outcome =>
            o.changes.head?.map fun c => (c.property?, c.old.text, c.new.text)) =
        some (some "coins", "1", "0") := by decide +kernel

/-- The fee is three and one coin is left, so that none is after the next event. -/
theorem taking_stops_at_zero_purse : ∃ w s r a, ∃ c : Call, ∃ change : Change, pursed.Reachable ∧
    pursedOn.arena.world? "sim_000000000002" = some w ∧ w.Stocks "coins" ∧
    pursedOn.runner? "sim_000000000002" = some s ∧ pursedOn.Comes s r a ∧
    c.Takes r a "coins" change ∧ change.old.text = "1" ∧ change.new.text = "0" := by
  have hreachable : pursed.Reachable := by
    unfold pursed
    exact ⟨_, _, _, _, _, _, rfl⟩
  obtain ⟨hregistered, hid, hstocks, hworld, hfirst⟩ := runs_pursed
  obtain ⟨spec, hspec, hprogram⟩ := (Option.any_eq_true _ _).mp hregistered
  obtain ⟨hexact, hlowers⟩ := Bool.and_eq_true_iff.mp hprogram
  obtain ⟨w, hw⟩ := Option.isSome_iff_exists.mp hworld
  have hoptions : fiveCoins.Exact := by
    intro initial hinitial
    obtain rfl := Option.some.inj hinitial
    exact ⟨by decide, by decide⟩
  have hlistener : ∀ n name value, Reaction.setVariable name value ∈
      pursed.listener "sim_000000000002" n → value.isExact = true := by
    intro n name value hmem
    have hsilent : pursed.listener = fun _ _ => [] := by
      unfold pursed
      exact (deals_after _ (.register purse none none)).persists.listener
    rw [hsilent] at hmem
    cases hmem
  have hinitial (v : World) (hv : (pursed.after (.life (.create "spec_000000000001"
      fiveCoins))).arena.world? "sim_000000000002" = some v) : v.Stocks "coins" := by
    rw [hv] at hstocks
    exact of_decide_eq_true hstocks
  have hstirred : Stirred ((pursed.after (.life (.create "spec_000000000001" fiveCoins))).afterAll
      [.step "sim_000000000002"]) pursedOn := by
    unfold pursedOn
    exact .refl
  obtain ⟨hstock, htakes, -⟩ := taking_stops_at_zero hreachable hspec (of_decide_eq_true hexact)
    (of_decide_eq_true hlowers) hoptions hid.symm hlistener hinitial
    (fun d hd => by obtain rfl := List.mem_singleton.mp hd; exact ⟨trivial, trivial⟩) hstirred
  obtain ⟨s, hs, hfirst⟩ := Option.bind_eq_some_iff.mp hfirst
  obtain ⟨⟨r, a⟩, hevent, hfirst⟩ := Option.bind_eq_some_iff.mp hfirst
  obtain ⟨o, hrun, hfirst⟩ := Option.bind_eq_some_iff.mp hfirst
  obtain ⟨change, hchange, hfacts⟩ := Option.map_eq_some_iff.mp hfirst
  simp only [Prod.mk.injEq] at hfacts
  obtain ⟨hproperty, hold, hnew⟩ := hfacts
  have hrunner : pursedOn.runner? "sim_000000000002" = some s := runner?_own hs
  have hcomes := comes_of_firstEvent? hevent
  obtain ⟨c, -, htaken⟩ := htakes s r a o _ hrunner hcomes
    (Prod.ext (toOption_eq_some_iff.mp hrun) rfl) change (List.mem_of_mem_head? hchange) hproperty
  exact ⟨w, s, r, a, c, change, hreachable, hw, hstock w hw, hrunner, hcomes, htaken, hold, hnew⟩

end Engine

end StepWorld
