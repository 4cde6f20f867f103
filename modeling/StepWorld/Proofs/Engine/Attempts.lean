import StepWorld.Proofs.Engine.Housekeeping
import StepWorld.Proofs.Engine.Registry
import StepWorld.Proofs.Syntax.Names

/-! The events that a step tries. Instances know their events by name, and a step looks them up in
the program by these names, so that of several events with one name the first is tried for each of
them. Where names differ, every declared event of every instance is tried once, in order, and then
the rules run. -/

namespace StepWorld

/-! ### Attempts -/

/-- An event that is to be tried for an instance. -/
structure Attempt where
  entity : EntityDecl
  id : String
  event : EventDecl

/-- One attempt for every declared event of every instance. Entities and events stand in the order
in which they are declared, and instances in theirs. -/
def Program.attempts (p : Program) (w : World) : List Attempt :=
  p.entities.flatMap fun entity => (w.instances entity.name).flatMap fun i =>
    entity.events.map (Attempt.mk entity i.id)

/-- What is tried if an event is looked up by its name: the first one of that name. -/
def Attempt.byName (x : Attempt) : Attempt :=
  { x with event := (x.entity.event? x.event.name).getD x.event }

/-- Tries an event that was found: its requirement is checked, then its effects are applied. -/
def Call.attempt (c : Call) (id : String) (parameters : Record) : Run Outcome := do
  let scope := c.scope parameters
  let stage : Stage := ⟨c.realm, [], [], [], (← get).ambient⟩
  if ← Run.eval (holds defaultPlaceholder (stage.bindings scope) c.event.condition) then
    c.apply id scope
  else return .skipped .requirementsNotMet

theorem runEvent_of_call {programs : Programs} {r : Request} {a : Arena} {c : Call}
    (h : r.call programs a.realms = .ok c) :
    (runEvent programs r).run.run a = (c.attempt r.worldId r.parameters).run.run a := by
  unfold runEvent
  rw [run_get_bind, h]
  rfl

/-- Makes an attempt in a step and counts it. Nothing comes of it if the instance is not there or
numbers fail. -/
def StepTarget.attempt? (t : StepTarget) (s : StepProgress) (x : Attempt) :
    Option StepProgress := do
  let realm ← s.arena.realms.get? t.world
  let actor ← realm.world.find? x.entity.name x.id
  match (Call.attempt ⟨realm, x.entity, actor, x.event⟩ t.world []).run.run s.arena with
  | (.ok o, arena) => some ({ s with arena }.countEvent (x.entity.name ++ "." ++ x.event.name) o)
  | (.error _, _) => none

theorem StepProgress.attempted_countEvent (s : StepProgress) (label : String) (o : Outcome) :
    (s.countEvent label o).statistics.eventsAttempted = s.statistics.eventsAttempted + 1 := by
  unfold countEvent
  dsimp only
  split <;> rfl

theorem StepTarget.attempted_foldlM {t : StepTarget} {xs : List Attempt} {s q : StepProgress}
    (h : xs.foldlM t.attempt? s = some q) :
    q.statistics.eventsAttempted = s.statistics.eventsAttempted + xs.length := by
  induction xs generalizing s with
  | nil =>
    cases h
    rfl
  | cons x rest ih =>
    rw [List.foldlM_cons] at h
    obtain ⟨r, hr, hrest⟩ := Option.bind_eq_some_iff.mp h
    unfold attempt? at hr
    obtain ⟨realm, -, hr⟩ := Option.bind_eq_some_iff.mp hr
    obtain ⟨actor, -, hr⟩ := Option.bind_eq_some_iff.mp hr
    split at hr
    · cases hr
      rw [ih hrest, StepProgress.attempted_countEvent, List.length_cons]
      change s.statistics.eventsAttempted + 1 + rest.length = _
      omega
    · cases hr

/-- Looking events up by name makes no difference exactly if no two different events of an entity
that has instances have the same name. -/
theorem Program.attempts_byName_iff (p : Program) (w : World) :
    (p.attempts w).map Attempt.byName = p.attempts w ↔
      ∀ entity ∈ p.entities, w.instances entity.name ≠ [] →
        ∀ first ∈ entity.events, ∀ second ∈ entity.events, first.name = second.name →
          first = second := by
  have hself : (p.attempts w).map Attempt.byName = p.attempts w ↔
      ∀ x ∈ p.attempts w, x.byName = x := by
    have hinj := List.map_inj_left (l := p.attempts w) (f := Attempt.byName) (g := id)
    rwa [List.map_id] at hinj
  have hmem (x : Attempt) : x ∈ p.attempts w ↔ ∃ entity ∈ p.entities,
      ∃ i ∈ w.instances entity.name, ∃ event ∈ entity.events, ⟨entity, i.id, event⟩ = x := by
    simp only [attempts, List.mem_flatMap, List.mem_map]
  rw [hself]
  constructor
  · intro h entity hentity hsome first hfirst second hsecond hname
    obtain ⟨i, hi⟩ := List.exists_mem_of_ne_nil _ hsome
    have hfound (event) (hevent : event ∈ entity.events) :
        (entity.event? event.name).getD event = event :=
      congrArg Attempt.event
        (h ⟨entity, i.id, event⟩ ((hmem _).mpr ⟨entity, hentity, i, hi, event, hevent, rfl⟩))
    have hthere : (entity.event? second.name).isSome :=
      List.find?_isSome.mpr ⟨second, hsecond, by simp⟩
    obtain ⟨found, heq⟩ := Option.isSome_iff_exists.mp hthere
    have hfirst := hfound first hfirst
    have hsecond := hfound second hsecond
    rw [hname, heq] at hfirst
    rw [heq] at hsecond
    exact hfirst.symm.trans hsecond
  · intro h x hx
    obtain ⟨entity, hentity, i, hi, event, hevent, rfl⟩ := (hmem x).mp hx
    have hthere : (entity.event? event.name).isSome :=
      List.find?_isSome.mpr ⟨event, hevent, by simp⟩
    obtain ⟨found, heq⟩ := Option.isSome_iff_exists.mp hthere
    have hname : found.name = event.name := by simpa using List.find?_some heq
    have hsame : found = event := h entity hentity (List.ne_nil_of_mem hi) found
      (List.mem_of_find?_eq_some heq) event hevent hname
    unfold Attempt.byName
    dsimp only
    rw [heq, hsame]
    rfl

/-! ### Worlds of a program -/

namespace World

variable {w v : World}

theorem SameLineup.map_id_instances (h : w.SameLineup v) (type : String) :
    (v.instances type).map Instance.id = (w.instances type).map Instance.id := by
  have hbare := congrArg (List.map Instance.id) (map_bare_instances h type)
  rwa [List.map_map, List.map_map] at hbare

theorem SameLineup.isSome_find? (h : w.SameLineup v) {type : String} {i : Instance}
    (hi : i ∈ w.instances type) : (v.find? type i.id).isSome := by
  have hmem : i.id ∈ (v.instances type).map Instance.id :=
    h.map_id_instances type ▸ List.mem_map_of_mem hi
  obtain ⟨j, hj, hid⟩ := List.mem_map.mp hmem
  exact List.find?_isSome.mpr ⟨j, hj, by simpa using hid⟩

def Ready (p : Program) (w : World) : Prop :=
  ∀ entity ∈ p.entities, ∀ i ∈ w.instances entity.name, i.id ≠ "" ∧ i.events = entity.eventNames

theorem Ready.lined {p : Program} (hw : w.Ready p) (h : w.SameLineup v) : v.Ready p := by
  intro entity hentity i hi
  have hmem := map_bare_instances h entity.name ▸ List.mem_map_of_mem (f := Instance.bare) hi
  obtain ⟨j, hj, hbare⟩ := List.mem_map.mp hmem
  obtain ⟨hid, hevents⟩ := hw entity hentity j hj
  have hsame : j.id = i.id := (congrArg Instance.id hbare : j.bare.id = i.bare.id)
  have hknown : j.events = i.events :=
    (congrArg Instance.events hbare : j.bare.events = i.bare.events)
  exact ⟨hsame ▸ hid, hknown ▸ hevents⟩

end World

/-- The entities of a program that have instances in a realm were declared for it with events of
the same names. A program that replaced another one may differ there. -/
def Program.Fits (p : Program) (r : Realm) : Prop :=
  ∀ entity ∈ p.entities, r.world.instances entity.name ≠ [] →
    (r.blueprint.get? entity.name).map EntityDecl.eventNames = some entity.eventNames

instance (p : Program) (r : Realm) : Decidable (p.Fits r) :=
  inferInstanceAs (Decidable (∀ entity ∈ p.entities, r.world.instances entity.name ≠ [] →
    (r.blueprint.get? entity.name).map EntityDecl.eventNames = some entity.eventNames))

theorem Realm.Kept.ready {issued : Nat} {entities : List EntityDecl} {r : Realm} {p : Program}
    (h : r.Kept issued entities) (hfits : p.Fits r) : r.world.Ready p := by
  intro entity hentity i hi
  have hentry : (entity.name, r.world.instances entity.name) ∈ r.world.entities := by
    unfold World.instances at hi ⊢
    cases hget : r.world.entities.get? entity.name with
    | none =>
      rw [hget] at hi
      cases hi
    | some is => exact Table.mem_of_get? hget
  have hid : i.id ∈ r.world.ids :=
    List.mem_map_of_mem (List.mem_flatMap.mpr ⟨_, hentry, hi⟩)
  obtain ⟨-, hevents⟩ := h.filed _ hentry i hi
  refine ⟨fun hnone => h.named (hnone ▸ hid), ?_⟩
  exact Option.some.inj (hevents.symm.trans (hfits entity hentity (List.ne_nil_of_mem hi)))

/-! ### The events of a step -/

structure StepTarget.Runs (t : StepTarget) (p : Program) : Prop where
  world : t.world ≠ ""
  program : t.programs t.specification = some p
  source : ∃ source, registrable source = .ok p

def StepTarget.Shows (t : StepTarget) (w : World) (s : StepProgress) : Prop :=
  ∃ v, s.arena.world? t.world = some v ∧ w.SameLineup v

theorem StepTarget.Shows.moved {t : StepTarget} {w : World} {s q : StepProgress}
    (h : t.Shows w s) (hmoved : StepProgress.Along (Arena.Along World.SameLineup t.world) s q) :
    t.Shows w q := by
  obtain ⟨v, hv, hsame⟩ := h
  obtain ⟨u, hu, hlater⟩ := hmoved.own v hv
  exact ⟨u, hu, Trans.trans hsame hlater⟩

namespace StepTarget.Runs

variable {t : StepTarget} {p : Program} {w : World} {s q : StepProgress} {entity : EntityDecl}

theorem composes_lined (h : t.Runs p) :
    t.Composes (Moves (StepProgress.Along (Arena.Along World.SameLineup t.world))) := by
  refine t.composes_along fun type id event => ?_
  have hsourced : (t.eventRequest type id event).Sourced t.programs := fun q hq =>
    Option.some.inj (h.program.symm.trans hq) ▸ h.source
  rw [← worldId_eventRequest h.world type id event]
  exact lined_runEvent hsourced

theorem entity? (h : t.Runs p) (hentity : entity ∈ p.entities) :
    p.entity? entity.name = some entity := by
  obtain ⟨source, hsource⟩ := h.source
  obtain ⟨-, -, hnames, -⟩ := registrable_eq_ok hsource
  have hthere : (p.entity? entity.name).isSome :=
    List.find?_isSome.mpr ⟨entity, hentity, by simp⟩
  obtain ⟨found, heq⟩ := Option.isSome_iff_exists.mp hthere
  have hname : found.name = entity.name := by simpa using List.find?_some heq
  rw [heq, List.inj_on_of_nodup_map hnames (List.mem_of_find?_eq_some heq) hentity hname]

theorem attempt_event (h : t.Runs p) (hentity : entity ∈ p.entities) {event : EventDecl}
    (hevent : event ∈ entity.events) {id : String} (hid : id ≠ "") {v : World}
    (hv : s.arena.world? t.world = some v) (hthere : (v.find? entity.name id).isSome)
    (hrun : (ExceptT.run (t.event entity.name id event.name)).run s = (.ok (), q)) :
    t.attempt? s (Attempt.byName ⟨entity, id, event⟩) = some q := by
  obtain ⟨realm, hrealm, rfl⟩ := Arena.realm_of_world? hv
  obtain ⟨actor, hactor⟩ := Option.isSome_iff_exists.mp hthere
  have hdeclared : (entity.event? event.name).isSome :=
    List.find?_isSome.mpr ⟨event, hevent, by simp⟩
  obtain ⟨found, hfound⟩ := Option.isSome_iff_exists.mp hdeclared
  have hname : found.name = event.name := by simpa using List.find?_some hfound
  obtain ⟨source, hsource⟩ := h.source
  have hnamed := named_of_registrable hsource
  have hworld := StepTarget.worldId_eventRequest h.world entity.name id event.name
  have hcall : (t.eventRequest entity.name id event.name).call t.programs s.arena.realms =
      .ok ⟨realm, entity, actor, found⟩ := by
    rw [← hworld] at hrealm
    have hword := (hnamed.entities entity hentity).ne_empty
    have hword' := (hnamed.events entity hentity event hevent).ne_empty
    unfold Request.call
    rw [hrealm]
    simp [eventRequest, present?, Option.filter, hword, hword', hid, h.program,
      h.entity? hentity, hactor, hfound]
    rfl
  obtain ⟨o, r, hr, hq⟩ := run_bind_eq_ok.mp hrun
  obtain ⟨arena, ho, rfl⟩ := Stepping.run_eq_ok hr
  obtain rfl : { s with arena }.countEvent (entity.name ++ "." ++ event.name) o = q :=
    congrArg Prod.snd hq
  have ho : (ExceptT.run (Call.attempt ⟨realm, entity, actor, found⟩ t.world [])).run s.arena =
      (.ok o, arena) := hworld ▸ (runEvent_of_call hcall).symm.trans ho
  unfold attempt? Attempt.byName
  dsimp only
  rw [hrealm, hfound]
  dsimp only [Option.bind_eq_bind, Option.bind_some, Option.getD_some]
  rw [hactor]
  dsimp only [Option.bind_some]
  rw [ho, hname]

/-! What is tried from a state in which the world of the step has the instances of `w`. -/

theorem attempts_events (h : t.Runs p) (hentity : entity ∈ p.entities) {i : Instance}
    (hi : i ∈ w.instances entity.name) (hid : i.id ≠ "") {events : List EventDecl}
    (hevents : events ⊆ entity.events) (hs : t.Shows w s)
    (hrun : (ExceptT.run (t.events entity.name i.id (events.map (·.name)))).run s = (.ok (), q)) :
    ((events.map (Attempt.mk entity i.id)).map Attempt.byName).foldlM t.attempt? s = some q := by
  induction events generalizing s with
  | nil =>
    cases hrun
    rfl
  | cons event rest ih =>
    obtain ⟨hevent, hrest⟩ := List.cons_subset.mp hevents
    obtain ⟨⟨⟩, r, hfirst, hrun⟩ := run_bind_eq_ok.mp hrun
    obtain ⟨v, hv, hsame⟩ := id hs
    have hmoved := h.composes_lined.event entity.name i.id event.name s
    rw [hfirst] at hmoved
    rw [List.map_cons, List.map_cons, List.foldlM_cons,
      h.attempt_event hentity hevent hid hv (hsame.isSome_find? hi) hfirst]
    exact ih hrest (hs.moved hmoved) hrun

theorem attempts_instances (h : t.Runs p) (hw : w.Ready p) (hentity : entity ∈ p.entities)
    {is : List Instance} (his : is ⊆ w.instances entity.name) (hs : t.Shows w s)
    (hrun : (ExceptT.run (t.instances entity.name is)).run s = (.ok (), q)) :
    ((is.flatMap fun i => entity.events.map (Attempt.mk entity i.id)).map
      Attempt.byName).foldlM t.attempt? s = some q := by
  induction is generalizing s with
  | nil =>
    cases hrun
    rfl
  | cons i rest ih =>
    obtain ⟨hi, hrest⟩ := List.cons_subset.mp his
    obtain ⟨hid, hevents⟩ := hw entity hentity i hi
    obtain ⟨v, hv, hsame⟩ := id hs
    have hthere : (s.arena.instance? t.world entity.name i.id).isSome := by
      rw [Arena.instance?, hv]
      exact hsame.isSome_find? hi
    have hrun := (run_get_bind _ s).symm.trans hrun
    dsimp only at hrun
    rw [if_pos hthere] at hrun
    obtain ⟨⟨⟩, r, hfirst, hrun⟩ := run_bind_eq_ok.mp hrun
    have hmoved := h.composes_lined.events entity.name i.id i.events s
    rw [hfirst] at hmoved
    rw [hevents] at hfirst
    rw [List.flatMap_cons, List.map_append, List.foldlM_append,
      h.attempts_events hentity hi hid (List.Subset.refl _) hs hfirst]
    exact ih hrest (hs.moved hmoved) hrun

theorem attempts_entities (h : t.Runs p) (hw : w.Ready p) {entities : List EntityDecl}
    (hentities : entities ⊆ p.entities) (hs : t.Shows w s)
    (hrun : (ExceptT.run (t.entities entities)).run s = (.ok (), q)) :
    ((entities.flatMap fun entity => (w.instances entity.name).flatMap fun i =>
      entity.events.map (Attempt.mk entity i.id)).map Attempt.byName).foldlM t.attempt? s =
      some q := by
  induction entities generalizing s with
  | nil =>
    cases hrun
    rfl
  | cons entity rest ih =>
    obtain ⟨hentity, hrest⟩ := List.cons_subset.mp hentities
    obtain ⟨v, hv, hsame⟩ := id hs
    have hrun := (run_get_bind _ s).symm.trans hrun
    dsimp only at hrun
    rw [hv] at hrun
    obtain ⟨⟨⟩, r, hfirst, hrun⟩ := run_bind_eq_ok.mp hrun
    have hfirst : (ExceptT.run (t.instances entity.name (v.instances entity.name))).run s =
        (.ok (), r) := hfirst
    have hmoved := h.composes_lined.instances entity.name (v.instances entity.name) s
    rw [hfirst] at hmoved
    have hnow : t.Shows v s := ⟨v, hv, Std.Refl.refl v⟩
    have hinstances := h.attempts_instances (hw.lined hsame) hentity (List.Subset.refl _) hnow
      hfirst
    have hids (u : World) : (u.instances entity.name).flatMap
        (fun i => entity.events.map (Attempt.mk entity i.id)) =
        ((u.instances entity.name).map Instance.id).flatMap
          fun id => entity.events.map (Attempt.mk entity id) := by rw [List.flatMap_map]
    rw [hids, hsame.map_id_instances, ← hids] at hinstances
    rw [List.flatMap_cons, List.map_append, List.foldlM_append, hinstances]
    exact ih hrest (hs.moved hmoved) hrun

end StepTarget.Runs

/-! ### Whole steps -/

namespace Engine

def target (e : Engine) (s : Simulation) : StepTarget := ⟨e.programs, s.specification, s.id⟩

/-- A step in which time has gone on and nothing has been tried. -/
def opening (e : Engine) (s : Simulation) (w : World) : StepProgress :=
  ⟨e.arena.keep s.id w.advance, [], [], 0, [], s.statistics⟩

/-- Whatever is called, and whatever is asked of the worlds from outside: a step that returns tries,
in order, every event that is declared for every instance, looked up by its name, and counts it;
and runs the rules only then. The events that are tried are the declared ones exactly if no two
events of an entity that has instances share a name. -/
theorem declared_events_tried (settings : Settings) (environment : Environment) (chance : Chance)
    (archive : Archive) (listener : String → Nat → List Reaction) {deeds : List Deed}
    (hdeeds : ∀ d ∈ deeds, d.Regular) {id : String} {s : Simulation} {p : Program} {r : Realm}
    {σ : StepSummary} :
    let e := (create settings environment chance archive listener).afterAll deeds
    e.runner? id = some s → e.programs s.specification = some p →
    e.arena.realms.get? s.id = some r → p.Fits r → (e.step s).1 = .ok σ →
    ∃ tried q,
      ((p.attempts r.world).map Attempt.byName).foldlM (e.target s).attempt?
        (e.opening s r.world) = some tried ∧
      tried.statistics.eventsAttempted =
        s.statistics.eventsAttempted + (p.attempts r.world).length ∧
      (ExceptT.run ((e.target s).rules p.rules)).run tried = (.ok (), q) ∧
      σ = e.ranSummary s (r.world.time + 1) q ∧
      (e.step s).2.arena.realms = (e.ranArena s q).realms ∧
      ((p.attempts r.world).map Attempt.byName = p.attempts r.world ↔
        ∀ entity ∈ p.entities, r.world.instances entity.name ≠ [] →
          ∀ first ∈ entity.events, ∀ second ∈ entity.events, first.name = second.name →
            first = second) := by
  intro e hs hp hr hfits hstep
  have hhoused : e.Housed := (housed_create settings environment chance archive listener).afterAll
    hdeeds
  obtain ⟨entities, hkept⟩ := hhoused.inOrder s.id r hr
  have hruns : (e.target s).Runs p := ⟨hhoused.runner_ne hs, hp, hhoused.registered.sourcedRequest
    ⟨s.specification, none, none, none, none, none, []⟩ p hp⟩
  obtain ⟨p', w, q, lines, hp', hw, hrun, hsummary, hstate⟩ := step_eq_ok hstep
  obtain rfl := Option.some.inj (hp'.symm.trans hp)
  obtain rfl : w = r.world := by
    rw [Arena.world?, hr] at hw
    exact (Option.some.inj hw).symm
  obtain ⟨⟨⟩, tried, hevents, hrules⟩ := run_bind_eq_ok.mp hrun
  have hshows : (e.target s).Shows r.world (e.opening s r.world) :=
    (Arena.Along.of_keep hr (rfl : r.world.SameLineup r.world.advance)).own r.world hw
  have htried := hruns.attempts_entities (hkept.ready hfits) (List.Subset.refl _) hshows hevents
  have hcount : tried.statistics.eventsAttempted =
      s.statistics.eventsAttempted + (p'.attempts r.world).length := by
    rw [StepTarget.attempted_foldlM htried, List.length_map]
    rfl
  exact ⟨tried, q, htried, hcount, hrules, hsummary, by rw [hstate]; rfl,
    p'.attempts_byName_iff _⟩

def seeStep? {β : Type} (e : Engine) (id : String)
    (see : Simulation → Program → Realm → StepSummary → β) : Option β := do
  let s ← e.runner? id
  let p ← e.programs s.specification
  let r ← e.arena.realms.get? s.id
  let σ ← (e.step s).1.toOption
  return see s p r σ

theorem exists_of_seeStep? {β : Type} {e : Engine} {id : String} {seen : β}
    {see : Simulation → Program → Realm → StepSummary → β} (h : e.seeStep? id see = some seen) :
    ∃ s p r σ, e.runner? id = some s ∧ e.programs s.specification = some p ∧
      e.arena.realms.get? s.id = some r ∧ (e.step s).1 = .ok σ ∧ see s p r σ = seen := by
  obtain ⟨s, hs, h⟩ := Option.bind_eq_some_iff.mp h
  obtain ⟨p, hp, h⟩ := Option.bind_eq_some_iff.mp h
  obtain ⟨r, hr, h⟩ := Option.bind_eq_some_iff.mp h
  obtain ⟨σ, hσ, h⟩ := Option.bind_eq_some_iff.mp h
  refine ⟨s, p, r, σ, hs, hp, hr, ?_, Option.some.inj h⟩
  cases hstep : (e.step s).1 with
  | ok =>
    rw [hstep] at hσ
    cases hσ
    rfl
  | error =>
    rw [hstep] at hσ
    cases hσ

/-- A simulation of a source, whose world gets another instance of a type. -/
def sown (source type : String) : List Deed :=
  [.register source none none,
    .life (.create "spec_000000000001" ⟨none, none, none, none, none⟩),
    .upkeep [.addInstance "sim_000000000002" type []]]

theorem regular_sown (source type : String) : ∀ d ∈ sown source type, d.Regular := by
  intro d hd
  simp only [sown, List.mem_cons, List.not_mem_nil, or_false] at hd
  obtain rfl | rfl | rfl := hd
  · trivial
  · trivial
  · exact ⟨_, fun _ => rfl⟩

def pots : String :=
  "Entity Pot { State { n: int }
      Event grow { effect: Self.n += 1 }
      Event spill { requires: Self.n > 5 effect: Self.n -= 5 } }
    Rule late { effect: time >= 3 -> GameOver }"

def potted : Engine := silent.afterAll (sown pots "Pot")

theorem sees_potted : potted.seeStep? "sim_000000000002" (fun s p r σ =>
      (decide (p.Fits r ∧ ∀ entity ∈ p.entities, entity.eventNames.Nodup),
        (p.attempts r.world).map fun x => (x.id, x.event.name),
        s.statistics.eventsAttempted, [σ.events, σ.rules])) =
    some (true, [("Pot_0", "grow"), ("Pot_0", "spill"), ("Pot_000000000003", "grow"),
      ("Pot_000000000003", "spill")], 0, [["Pot.grow", "Pot.grow"], ["late"]]) := by
  decide +kernel

/-- Both events of both pots are tried, one pot after the other, and then the rule runs. -/
theorem declared_events_tried_pots : ∃ s p r σ tried q,
    potted.runner? "sim_000000000002" = some s ∧
    potted.programs s.specification = some p ∧ potted.arena.realms.get? s.id = some r ∧
    p.Fits r ∧ (potted.step s).1 = .ok σ ∧
    (p.attempts r.world).map (fun x => (x.id, x.event.name)) =
      [("Pot_0", "grow"), ("Pot_0", "spill"), ("Pot_000000000003", "grow"),
        ("Pot_000000000003", "spill")] ∧
    (p.attempts r.world).foldlM (potted.target s).attempt? (potted.opening s r.world) =
      some tried ∧
    tried.statistics.eventsAttempted = 4 ∧
    (ExceptT.run ((potted.target s).rules p.rules)).run tried = (.ok (), q) ∧
    σ = potted.ranSummary s (r.world.time + 1) q ∧ σ.events = ["Pot.grow", "Pot.grow"] ∧
    σ.rules = ["late"] := by
  obtain ⟨s, p, r, σ, hs, hp, hr, hstep, hseen⟩ := exists_of_seeStep? sees_potted
  simp only [Prod.mk.injEq, decide_eq_true_eq, List.cons.injEq, and_true] at hseen
  obtain ⟨⟨hfits, hnames⟩, hlabels, hattempted, hevents, hrules⟩ := hseen
  obtain ⟨tried, q, htried, hcount, hrun, hsummary, -, hsame⟩ :=
    declared_events_tried .default [] (.cyclic [0] 0) (.memory ⟨[], [], []⟩) (fun _ _ => [])
      (regular_sown pots "Pot") hs hp hr hfits hstep
  have hdistinct : ∀ entity ∈ p.entities, r.world.instances entity.name ≠ [] →
      ∀ first ∈ entity.events, ∀ second ∈ entity.events, first.name = second.name →
        first = second := by
    intro entity hentity _ first hfirst second hsecond hname
    exact List.inj_on_of_nodup_map (hnames entity hentity) hfirst hsecond hname
  rw [hsame.mpr hdistinct] at htried
  have hlength : (p.attempts r.world).length = 4 := by
    simpa using congrArg List.length hlabels
  exact ⟨s, p, r, σ, tried, q, hs, hp, hr, hfits, hstep, hlabels, htried,
    by rw [hcount, hattempted, hlength], hrun, hsummary, hevents, hrules⟩

def twins : String :=
  "Entity Pot { State { n: int }
      Event grow { effect: Self.n += 1 }
      Event grow { requires: Self.n > 5 effect: Self.n += 10 } }"

def twinned : Engine := silent.afterAll (sown twins "Pot")

theorem sees_twinned : twinned.seeStep? "sim_000000000002" (fun s p r σ =>
      (decide (p.Fits r ∧ p.rules = []),
        ((p.attempts r.world).foldlM (twinned.target s).attempt?
          (twinned.opening s r.world)).map (·.events), σ.events)) =
    some (true, some ["Pot.grow", "Pot.grow"],
      ["Pot.grow", "Pot.grow", "Pot.grow", "Pot.grow"]) := by
  decide +kernel

/-- The second event of each pot asks for more than there is, so that its attempt comes to nothing.
The step does not make it: the first event runs twice. -/
theorem second_of_twins_untried : ∃ s p r σ,
    twinned.runner? "sim_000000000002" = some s ∧
    twinned.programs s.specification = some p ∧ twinned.arena.realms.get? s.id = some r ∧
    p.Fits r ∧ (twinned.step s).1 = .ok σ ∧
    ¬ ∃ tried q,
      (p.attempts r.world).foldlM (twinned.target s).attempt? (twinned.opening s r.world) =
        some tried ∧
      (ExceptT.run ((twinned.target s).rules p.rules)).run tried = (.ok (), q) ∧
      σ = twinned.ranSummary s (r.world.time + 1) q := by
  obtain ⟨s, p, r, σ, hs, hp, hr, hstep, hseen⟩ := exists_of_seeStep? sees_twinned
  simp only [Prod.mk.injEq, decide_eq_true_eq] at hseen
  obtain ⟨⟨hfits, hrules⟩, hdeclared, hevents⟩ := hseen
  refine ⟨s, p, r, σ, hs, hp, hr, hfits, hstep, ?_⟩
  rintro ⟨tried, q, htried, hrun, rfl⟩
  rw [htried] at hdeclared
  rw [hrules] at hrun
  cases hrun
  have hevents : tried.events = ["Pot.grow", "Pot.grow", "Pot.grow", "Pot.grow"] := hevents
  cases hevents.symm.trans (Option.some.inj hdeclared)

end Engine

end StepWorld
