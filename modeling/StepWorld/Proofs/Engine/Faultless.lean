import StepWorld.Proofs.Engine.Deeds
import StepWorld.Proofs.Engine.Undisturbed
import StepWorld.Proofs.World.ExactWorlds

/-! Simulations that never fail. If a program neither divides nor knows floats, and no float comes
into its world from outside, every step returns as long as program and world are there. Only a text
that would have to show an integer of too many digits stops it. -/

namespace StepWorld

namespace Arena

variable {a b : Arena} {id : String}

theorem Advances.gone (h : a.Advances b) (hgone : a.world? id = none) : b.world? id = none := by
  have hrealm := h.realms id
  rw [Option.map_eq_none_iff.mp hgone, Option.isSome_none, Option.isSome_eq_false_iff] at hrealm
  exact Option.map_eq_none_iff.mpr (Option.isNone_iff_eq_none.mp hrealm)

theorem gone_delete (k : String) (hgone : a.world? id = none) : (a.delete k).world? id = none :=
  Option.eq_none_iff_forall_ne_some.mpr fun _ hv => by cases hgone.symm.trans (world?_of_delete hv)

end Arena

namespace Engine

variable {e f g : Engine} {s : Simulation} {id specification : String}

/-- A message that a simulation may fail with although no number fails: the archive has refused
something, an integer has too many digits for a text, or the program or the world is gone. -/
def Excuses (e : Engine) (id specification message : String) : Prop :=
  (∃ refusal ∈ e.refusals, message = refusal.message) ∨ message = Fault.longInteger.message ∨
    e.programs specification = none ∨ e.arena.world? id = none

/-- What happens brings no float into the world and the program of a simulation, and nothing that
is gone comes back. Whoever fails has an excuse. -/
structure Tame (id specification : String) (e f : Engine) : Prop where
  persists : Persists e f
  refusals : e.refusals ⊆ f.refusals
  programs : ∀ p, f.programs specification = some p →
    ∃ q, e.programs specification = some q ∧ (q.Exact → p.Exact)
  exact : e.arena.ExactIn id → f.arena.ExactIn id
  world : e.arena.world? id = none → f.arena.world? id = none
  runner : ∀ t, f.runner? id = some t →
    ∃ s, e.runner? id = some s ∧ t.specification = s.specification
  failed : ∀ t, f.simulations.get? id = some t → t.status = .error →
    (∃ s, e.simulations.get? id = some s ∧ s.status = .error ∧ t.error = s.error) ∨
      ∃ message, t.error = some message ∧ f.Excuses id specification message

theorem Excuses.later {message : String} (h : e.Excuses id specification message)
    (hrefusals : e.refusals ⊆ f.refusals)
    (hprogram : e.programs specification = none → f.programs specification = none)
    (hworld : e.arena.world? id = none → f.arena.world? id = none) :
    f.Excuses id specification message := by
  rcases h with ⟨refusal, hrefusal, hmessage⟩ | hlong | hgone | hgone
  · exact .inl ⟨refusal, hrefusals hrefusal, hmessage⟩
  · exact .inr (.inl hlong)
  · exact .inr (.inr (.inl (hprogram hgone)))
  · exact .inr (.inr (.inr (hworld hgone)))

theorem Tame.excuses (h : Tame id specification e f) {message : String}
    (he : e.Excuses id specification message) : f.Excuses id specification message := by
  refine he.later h.refusals (fun hgone => ?_) h.world
  refine Option.eq_none_iff_forall_ne_some.mpr fun p hp => ?_
  obtain ⟨q, hq, -⟩ := h.programs p hp
  cases hgone.symm.trans hq

/-- A simulation of a program that cannot fail, in a world without floats. -/
structure Unfailing (id specification : String) (e : Engine) : Prop where
  registered : e.Registered
  named : ∃ n ≤ e.arena.ambient.issued, id = numberedId "sim" n
  known : ∃ n ≤ e.arena.ambient.issued, specification = numberedId "spec" n
  program : ∀ p, e.programs specification = some p → p.Exact
  world : e.arena.ExactIn id
  listener : ∀ n name value, .setVariable name value ∈ e.listener id n → value.isExact = true
  runner : ∀ s, e.runner? id = some s → s.specification = specification
  failed : ∀ s, e.simulations.get? id = some s → s.status = .error →
    ∃ message, s.error = some message ∧ e.Excuses id specification message

namespace Unfailing

theorem tame (h : e.Unfailing id specification) (hf : f.Registered) (ht : Tame id specification e f) :
    f.Unfailing id specification where
  registered := hf
  named := by
    obtain ⟨n, hn, hname⟩ := h.named
    exact ⟨n, Nat.le_trans hn ht.persists.ambient.issued, hname⟩
  known := by
    obtain ⟨n, hn, hname⟩ := h.known
    exact ⟨n, Nat.le_trans hn ht.persists.ambient.issued, hname⟩
  program p hp := by
    obtain ⟨q, hq, hexact⟩ := ht.programs p hp
    exact hexact (h.program q hq)
  world := ht.exact h.world
  listener := ht.persists.listener ▸ h.listener
  runner t hruns := by
    obtain ⟨s, hs, hspecification⟩ := ht.runner t hruns
    exact hspecification.trans (h.runner s hs)
  failed t hget herror := by
    rcases ht.failed t hget herror with ⟨s, hs, hstatus, hsame⟩ | hexcused
    · obtain ⟨message, hmessage, hexcuse⟩ := h.failed s hs hstatus
      exact ⟨message, hsame.trans hmessage, ht.excuses hexcuse⟩
    · exact hexcused

theorem nonempty (h : e.Unfailing id specification) : id ≠ "" := by
  obtain ⟨n, -, hname⟩ := h.named
  exact IsSimulationId.ne ⟨n, hname⟩ (by decide)

end Unfailing

/-! ### What is tame -/

theorem programs_congr (h : f.specifications = e.specifications) : f.programs = e.programs := by
  funext k
  rw [programs, programs, h]

theorem tame_onRegistry {specifications : Table Specification} {arena : Arena}
    {schedule : Schedule} (ha : e.arena.ambient.Advances arena.ambient)
    (hprograms : ∀ spec, specifications.get? specification = some spec →
      ∃ q, e.programs specification = some q ∧ (q.Exact → spec.program.Exact))
    (hexact : e.arena.ExactIn id → arena.ExactIn id)
    (hworld : e.arena.world? id = none → arena.world? id = none) :
    Tame id specification e { e with specifications, arena, schedule } where
  persists := ⟨rfl, rfl, ha⟩
  refusals := List.Subset.refl _
  programs p hp := by
    obtain ⟨spec, hspec, rfl⟩ := Option.map_eq_some_iff.mp hp
    exact hprograms spec hspec
  exact := hexact
  world := hworld
  runner t ht := ⟨t, ht, rfl⟩
  failed t ht herror := .inl ⟨t, ht, herror, rfl⟩

theorem tame_onArena {arena : Arena} (ha : e.arena.ambient.Advances arena.ambient)
    (hexact : e.arena.ExactIn id → arena.ExactIn id)
    (hworld : e.arena.world? id = none → arena.world? id = none) :
    Tame id specification e { e with arena } :=
  tame_onRegistry ha
    (fun spec hspec => ⟨spec.program, by rw [programs, hspec]; rfl, fun hq => hq⟩) hexact hworld

theorem tame_aside {P : String → String → Prop} (hf : Aside P e f)
    (hP : ∀ message, P id message → f.Excuses id specification message) :
    Tame id specification e f where
  persists := hf.persists
  refusals := hf.refusals.subset
  programs p hp := ⟨p, programs_congr hf.specifications ▸ hp, fun h => h⟩
  exact ha := ha.of_realm (congrArg (·.get? id) hf.realms)
  world hw := by
    rw [Arena.world?, hf.realms]
    exact hw
  runner t ht := by
    obtain ⟨s, hs, hgoes⟩ := hf.runner ht
    exact ⟨s, hs, hgoes.specification⟩
  failed t ht herror := by
    obtain ⟨s, hs, hgoes⟩ := hf.simulations id t ht
    rcases hgoes.failed herror with ⟨hstatus, hsame⟩ | ⟨message, hmessage, herror⟩
    · exact .inl ⟨s, hs, hstatus, hsame⟩
    · exact .inr ⟨message, herror, hP message hmessage⟩

namespace Unfailing

theorem quietly (h : e.Unfailing id specification) (hf : Aside (fun _ _ => False) e f) :
    f.Unfailing id specification :=
  h.tame (h.registered.aside hf) (tame_aside hf fun _ hfalse => hfalse.elim)

theorem result (h : e.Unfailing id specification) (hs : e.runner? id = some s) :
    (∃ σ, (e.step s).1 = .ok σ) ∨ (e.step s).1 = .error (.fault .longInteger) ∨
      e.programs specification = none ∨ e.arena.world? id = none := by
  obtain rfl := h.runner s hs
  obtain ⟨rfl, -⟩ := h.registered.runner hs
  exact (exact_step h.nonempty h.program h.world).2

theorem step (h : e.Unfailing id specification) {k : String} (hs : e.runner? k = some s) :
    (e.step s).2.Unfailing id specification := by
  obtain ⟨rfl, n, -, hname⟩ := h.registered.runner hs
  have hnonempty : s.id ≠ "" := IsSimulationId.ne ⟨n, hname⟩ (by decide)
  have hexact : (e.step s).2.arena.ExactIn id := by
    by_cases hid : id = s.id
    · obtain rfl := h.runner s (hid ▸ hs)
      exact hid ▸ (exact_step hnonempty h.program (hid ▸ h.world)).1
    · exact h.world.of_realm (realms_step e hnonempty hid)
  obtain ⟨arena, u, hstep, hadvances, hu⟩ := e.step_alters s
  have htouches := touches_step e s
  have hregistered := h.registered.step s
  rw [hstep] at hexact htouches hregistered ⊢
  refine h.tame hregistered
    { persists := ⟨rfl, rfl, hadvances.ambient⟩
      refusals := htouches.refusals.subset
      programs := fun p hp => ⟨p, hp, fun hq => hq⟩
      exact := fun _ => hexact
      world := hadvances.gone
      runner := fun t ht => ?_
      failed := fun t ht herror => ?_ }
  · rw [runner?_stepped] at ht
    split at ht
    · obtain ⟨t, hold, rfl⟩ := Option.map_eq_some_iff.mp ht
      obtain ⟨_, _, hut⟩ := hu t
      exact ⟨t, hold, by rw [hut]⟩
    · exact ⟨t, ht, rfl⟩
  · have ht : (e.simulations.modify s.id u).get? id = some t := ht
    rw [Table.get?_modify] at ht
    split at ht
    · obtain ⟨t, hold, rfl⟩ := Option.map_eq_some_iff.mp ht
      obtain ⟨_, _, hut⟩ := hu t
      rw [hut] at herror ⊢
      exact .inl ⟨t, hold, herror, rfl⟩
    · exact .inl ⟨t, ht, herror, rfl⟩

theorem broken (h : e.Unfailing id specification) {k : String} {error : StepError}
    (hs : e.runner? k = some s) (hstep : (e.step s).1 = .error error)
    (ha : Aside (fun id message => id = s.id ∧ message = error.message) (e.step s).2 f) :
    f.Unfailing id specification := by
  have hregistered := h.registered.step s
  refine (h.step hs).tame (hregistered.aside ha) (tame_aside ha ?_)
  rintro message ⟨rfl, rfl⟩
  obtain ⟨rfl, -⟩ := h.registered.runner hs
  obtain ⟨arena, u, hstepped, hadvances, -⟩ := e.step_alters s
  have hexcused : e.Excuses s.id specification error.message := by
    rcases h.result hs with ⟨σ, hok⟩ | hlong | hprogram | hworld
    · cases hstep.symm.trans hok
    · cases hstep.symm.trans hlong
      exact .inr (.inl rfl)
    · exact .inr (.inr (.inl hprogram))
    · exact .inr (.inr (.inr hworld))
  refine hexcused.later ?_ (fun hgone => ?_) fun hgone => ?_
  · exact List.Subset.trans (touches_step e s).refusals.subset ha.refusals.subset
  · rw [programs_congr (ha.specifications.trans (touches_step e s).specifications)]
    exact hgone
  · rw [Arena.world?, ha.realms, hstepped]
    exact hadvances.gone hgone

theorem within (h : e.Unfailing id specification) {k : String} {arena : Arena}
    (hadvances : e.arena.Advances arena)
    (hothers : ∀ j, j ≠ k → arena.realms.get? j = e.arena.realms.get? j)
    (hexact : id = k → arena.ExactIn id) : { e with arena }.Unfailing id specification := by
  refine h.tame (h.registered.onArena hadvances.ambient)
    (tame_onArena hadvances.ambient (fun ha => ?_) hadvances.gone)
  by_cases hk : id = k
  · exact hexact hk
  · exact ha.of_realm (hothers id hk)

theorem add (h : e.Unfailing id specification) (k : String) (program : Program)
    (o : SimulationOptions) : (e.addSimulation k program o).2.Unfailing id specification := by
  have hnew := ne_addSimulation h.named k program o
  have hown : (e.addSimulation k program o).2.simulations.get? id = e.simulations.get? id :=
    (Table.get?_put _ _ _ _).trans (if_neg hnew)
  have hundisturbed := undisturbed_addSimulation e k program o hnew
  refine h.tame (h.registered.add k program o)
    { persists := ⟨rfl, rfl, ambient_addSimulation e k program o⟩
      refusals := List.Subset.refl _
      programs := fun p hp => ⟨p, hp, fun hq => hq⟩
      exact := fun hexact => hexact.of_realm hundisturbed.realm
      world := fun hgone => hundisturbed.world?.trans hgone
      runner := fun t ht => ⟨t, ?_, rfl⟩
      failed := fun t ht herror => .inl ⟨t, hown ▸ ht, herror, rfl⟩ }
  rw [runner?, hown] at ht
  exact ht

theorem forget (h : e.Unfailing id specification) (k : String) :
    (e.forget k).Unfailing id specification := by
  refine h.tame (h.registered.forget k)
    { persists := ⟨rfl, rfl, Std.Refl.refl _⟩
      refusals := List.Subset.refl _
      programs := fun p hp => ⟨p, hp, fun hq => hq⟩
      exact := fun hexact => hexact.delete k
      world := Arena.gone_delete k
      runner := fun t ht => ⟨t, h.registered.runner_forget ht, rfl⟩
      failed := fun t ht herror => .inl ⟨t, (Table.get?_of_remove ht).2, herror, rfl⟩ }

theorem stirs (h : e.Unfailing id specification) (hf : Stirs e f) :
    f.Unfailing id specification := by
  cases hf with
  | aside ha => exact h.quietly ha
  | step hs => exact h.step hs
  | broken hs hstep ha => exact h.broken hs hstep ha
  | refused ha hr =>
    exact h.tame (h.registered.aside ha)
      (tame_aside ha fun message hmessage => .inl ⟨_, hr, hmessage⟩)
  | drop =>
    exact h.tame (h.registered.onArena (Std.Refl.refl _))
      (tame_onArena (Std.Refl.refl _) (·.delete _) (Arena.gone_delete _))
  | @write k n name value hr =>
    refine h.within (Arena.advances_update e.arena k _) (e.arena.others_update _) ?_
    rintro rfl
    exact h.world.update fun w hw => hw.setVariable (h.listener n name value hr)
  | add hp o => exact h.add _ _ o
  | forget k => exact h.forget k

theorem stirred (h : e.Unfailing id specification) (hf : Stirred e f) :
    f.Unfailing id specification := by
  induction hf with
  | refl => exact h
  | tail _ hstep ih => exact ih.stirs hstep

end Unfailing

end Engine

/-- A deed brings no float into the world of a simulation or into its program. It may do anything
elsewhere, and it may take program and world away. -/
def Deed.Exact (id specification : String) : Deed → Prop
  | .revise k (some source) _ _ =>
    k = specification → ∀ p, registrable source = .ok p → p.Exact
  | .runEvent r | .runRule r =>
    r.worldId = id → r.specification = specification ∧ r.parameters.Exact
  | .disturb f _ => ∀ a : Arena,
    (a.ExactIn id → (f a).ExactIn id) ∧ (a.world? id = none → (f a).world? id = none)
  | _ => True

namespace Engine

variable {e f : Engine} {s : Simulation} {id specification : String}

namespace Unfailing

theorem install (h : e.Unfailing id specification) {k source : String} {spec : Specification}
    (hsource : registrable source = .ok spec.program)
    (hk : ∃ n ≤ e.arena.ambient.issued, k = numberedId "spec" n)
    (hknown : k = specification → (e.programs specification).isSome ∧ spec.program.Exact) :
    (e.install k spec).Unfailing id specification := by
  obtain ⟨m, -, hname⟩ := h.named
  have hne : id ≠ k := by
    obtain ⟨n, -, rfl⟩ := hk
    rw [hname]
    exact (specificationId_ne n m).symm
  have hrealm : (e.install k spec).arena.realms.get? id = e.arena.realms.get? id :=
    (Table.get?_put _ _ _ _).trans (if_neg hne)
  refine h.tame (h.registered.install hsource hk) (tame_onRegistry (persists_install e k spec).ambient
    (fun found hfound => ?_) (fun hexact => hexact.of_realm hrealm)
    fun hgone => (congrArg (Option.map Realm.world) hrealm).trans hgone)
  rw [Table.get?_put] at hfound
  split at hfound
  · next heq =>
    obtain ⟨hsome, hexact⟩ := hknown heq.symm
    obtain ⟨q, hq⟩ := Option.isSome_iff_exists.mp hsome
    exact ⟨q, hq, fun _ => Option.some.inj hfound ▸ hexact⟩
  · exact ⟨found.program, by rw [programs, hfound]; rfl, fun hq => hq⟩

theorem rename (h : e.Unfailing id specification) {k : String} {old : Specification}
    (spec : Specification) (hold : e.specifications.get? k = some old)
    (hprogram : spec.program = old.program) :
    { e.tick.2 with specifications := e.specifications.put k spec }.Unfailing id specification := by
  obtain ⟨⟨source, hsource⟩, hk⟩ := h.registered.sourced _ _ hold
  have hregistered := (h.registered.aside (aside_tick (P := fun _ _ => False) e)).put
    (hprogram ▸ hsource) hk
  refine h.tame hregistered (tame_onRegistry e.arena.ambient.advances_tick (fun found hfound => ?_)
    (fun hexact => hexact) fun hgone => hgone)
  rw [Table.get?_put] at hfound
  split at hfound
  · next heq =>
    subst heq
    obtain rfl := Option.some.inj hfound
    exact ⟨old.program, by rw [programs, hold]; rfl, fun hq => hprogram ▸ hq⟩
  · exact ⟨found.program, by rw [programs, hfound]; rfl, fun hq => hq⟩

theorem withdraw (h : e.Unfailing id specification) (k : String) :
    { e with
      specifications := e.specifications.remove k
      schedule := e.schedule.unlock k
      arena := e.arena.delete k }.Unfailing id specification := by
  refine h.tame ((h.registered.withdraw k).onArena (Std.Refl.refl _))
    (tame_onRegistry (Std.Refl.refl _) (fun found hfound => ?_) (fun hexact => hexact.delete k)
      (Arena.gone_delete k))
  exact ⟨found.program, by rw [programs, (Table.get?_of_remove hfound).2]; rfl, fun hq => hq⟩

theorem clear (h : e.Unfailing id specification) : e.clear.Unfailing id specification :=
  h.tame h.registered.clear
    { persists := ⟨rfl, rfl, Std.Refl.refl _⟩
      refusals := List.Subset.refl _
      programs := fun p hp => by cases hp
      exact := fun _ realm hrealm => by cases hrealm
      world := fun _ => rfl
      runner := fun t ht => ⟨t, h.registered.runner_clear ht, rfl⟩
      failed := fun t ht => by cases ht }

theorem deals (h : e.Unfailing id specification) {d : Deed} (hd : d.Exact id specification)
    (hf : Deals e d f) : f.Unfailing id specification := by
  have htick : e.tick.2.Unfailing id specification := h.quietly (aside_tick e)
  cases hf with
  | stirred hf => exact h.stirred hf
  | registered ha hfresh hn hsource hg =>
    refine ((h.quietly ha).install hsource ⟨_, hn, rfl⟩ fun hsame => ?_).quietly hg
    obtain ⟨m, hm, hname⟩ := h.known
    have := numberedId_injective (hsame.trans hname)
    omega
  | renamed spec hs hprogram => exact h.rename spec hs hprogram
  | rewritten spec hs hsource =>
    obtain ⟨-, hid⟩ := h.registered.sourced _ _ hs
    refine htick.install hsource hid fun hsame => ⟨?_, hd hsame _ hsource⟩
    subst hsame
    change (e.programs _).isSome
    rw [programs, hs]
    rfl
  | withdrawn hs => exact h.withdraw _
  | event r =>
    refine h.within (advances_runEvent e.programs r e.arena)
      (kept_runEvent e.programs r e.arena).others ?_
    rintro rfl
    obtain ⟨rfl, hparameters⟩ := hd rfl
    exact (meets_runEvent h.program hparameters e.arena h.world).state
  | rule r =>
    refine h.within (advances_runRule e.programs r e.arena)
      (spared_runRule e.programs r e.arena).others ?_
    rintro rfl
    obtain ⟨rfl, hparameters⟩ := hd rfl
    exact (meets_runRule h.program hparameters e.arena h.world).state
  | cleared => exact h.clear
  | disturbed hf =>
    exact h.tame (h.registered.onArena (hf e.arena))
      (tame_onArena (hf e.arena) (hd e.arena).1 (hd e.arena).2)

theorem afterAll (h : e.Unfailing id specification) {deeds : List Deed}
    (hdeeds : ∀ d ∈ deeds, d.Exact id specification) :
    (e.afterAll deeds).Unfailing id specification := by
  induction deeds generalizing e with
  | nil => exact h
  | cons d rest ih =>
    obtain ⟨hd, hrest⟩ := List.forall_mem_cons.mp hdeeds
    exact ih (h.deals hd (deals_after e d)) hrest

end Unfailing

end Engine

/-! ### From the creation on -/

/-- No float stands in an initial state. -/
structure InitialState.Exact (initial : InitialState) : Prop where
  vars : initial.vars.Exact
  entities : initial.entities.All Record.Exact

def SimulationOptions.Exact (o : SimulationOptions) : Prop :=
  ∀ initial, o.initialState = some initial → initial.Exact

theorem Arena.ExactIn.override {a : Arena} {id : String} (h : a.ExactIn id) {initial : InitialState}
    (hinitial : initial.Exact) : (a.override id initial).ExactIn id := by
  unfold Arena.override
  refine List.foldlRecOn _ _ (List.foldlRecOn _ _ h ?_) ?_
  · intro b hb entry hentry
    exact hb.update fun w hw => hw.setVariable (hinitial.vars entry hentry)
  · rintro b hb ⟨type, properties⟩ hentry
    unfold Arena.overrideFirst
    dsimp only
    split
    · exact hb.update fun w hw => hw.modifyInstance fun i hi =>
        Table.All.putAll hi (hinitial.entities _ hentry)
    · exact hb

namespace Engine

variable {e : Engine} {id specification : String}

/-- A new simulation of an exact program cannot fail. -/
theorem Registered.unfailing_create (h : e.Registered) {spec : Specification}
    (hspec : e.specifications.get? specification = some spec) (hexact : spec.program.Exact)
    {o : SimulationOptions} (ho : o.Exact) (hid : id = numberedId "sim" (e.arena.ambient.issued + 1))
    (hlistener : ∀ n name value, .setVariable name value ∈ e.listener id n →
      value.isExact = true) :
    (e.after (.life (.create specification o))).Unfailing id specification := by
  have hadded : (e.addSimulation specification spec.program o).2.Unfailing id specification := by
    obtain ⟨-, n, hn, hname⟩ := h.sourced specification spec hspec
    have hissued := e.issued_addSimulation specification spec.program o
    refine ⟨h.add _ _ o, ⟨_, hissued, hid⟩, ⟨n, by omega, hname⟩, fun p hp => ?_, ?_, hlistener,
      fun s hs => ?_, fun s hs herror => ?_⟩
    · have hp : (e.specifications.get? specification).map (·.program) = some p := hp
      rw [hspec] at hp
      cases hp
      exact hexact
    · -- The world is built from the program, and the overrides bring in no floats.
      let issued := e.tick.2.issue "sim"
      have hid : id = issued.1 := hid
      have hcreated : (issued.2.arena.create issued.1 spec.program.entities).ExactIn id := by
        intro realm hrealm
        rw [hid, Arena.create, Table.get?_put_self] at hrealm
        cases hrealm
        exact hexact.realm _
      unfold addSimulation
      dsimp only
      cases hinitial : o.initialState with
      | none => exact hcreated
      | some initial => exact hid ▸ Arena.ExactIn.override (hid ▸ hcreated) (ho initial hinitial)
    · have hs : ((e.simulations.put _ (e.addSimulation specification spec.program o).1).get? id).or
          (e.detached.get? id) = some s := hs
      rw [hid, Table.get?_put_self] at hs
      cases hs
      rfl
    · have hs : (e.simulations.put _ (e.addSimulation specification spec.program o).1).get? id =
          some s := hs
      rw [hid, Table.get?_put_self] at hs
      cases hs
      cases herror
  rw [after_create]
  exact hadded.quietly (aside_created hspec o)

end Engine

end StepWorld
