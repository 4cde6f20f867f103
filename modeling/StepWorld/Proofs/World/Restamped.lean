import StepWorld.Proofs.World.Blind
import StepWorld.Proofs.World.Variables

/-! Two runs in one world at different times. Stamps, new ids and chance are shared by all worlds,
so that what happens elsewhere is seen in them. A program that takes no chances and adds no
instances comes to the same whatever they are, and the worlds that it leaves differ in their stamps
at most. -/

namespace StepWorld

/-! ### Programs that leave nothing to chance -/

def Expr.populates : Expr → Bool
  | .create .. | .remove .. => true
  | _ => false

/-- No call in a program draws, and no effect is rolled for. -/
structure Program.Chanceless (p : Program) : Prop where
  drawless : ∀ node ∈ p.nodes, node.isRand = false
  unweighted : ∀ entity ∈ p.entities, ∀ event ∈ entity.events, event.weighted = []

instance (p : Program) : Decidable p.Chanceless :=
  decidable_of_iff ((∀ node ∈ p.nodes, node.isRand = false) ∧
      ∀ entity ∈ p.entities, ∀ event ∈ entity.events, event.weighted = [])
    ⟨fun h => ⟨h.1, h.2⟩, fun h => ⟨h.drawless, h.unweighted⟩⟩

def Expr.Unpopulating (e : Expr) : Prop := ∀ part ∈ e.nodes, part.populates = false

structure EventDecl.Unpopulating (event : EventDecl) : Prop where
  effect : ∀ e, event.effect = some e → e.Unpopulating
  weighted : ∀ w ∈ event.weighted, w.effect.Unpopulating

def Program.Settled (p : Program) : Prop :=
  ∀ entity ∈ p.entities, ∀ event ∈ entity.events, event.Unpopulating

namespace Program.Chanceless

variable {p : Program} {entity : EntityDecl} {event : EventDecl} {e : Expr}

theorem of_event (h : p.Chanceless) (hentity : entity ∈ p.entities) (hevent : event ∈ entity.events)
    (he : e.asNodes ⊆ event.nodes) : e.Drawless := fun _ hpart =>
  h.drawless _ (p.nodes_of_event hentity hevent (he (Expr.mem_asNodes hpart)))

theorem condition (h : p.Chanceless) (hentity : entity ∈ p.entities)
    (hevent : event ∈ entity.events) (he : event.condition = some e) : e.Drawless :=
  h.of_event hentity hevent (EventDecl.nodes_of_condition he)

theorem effect (h : p.Chanceless) (hentity : entity ∈ p.entities)
    (hevent : event ∈ entity.events) (he : event.effect = some e) : e.Drawless :=
  h.of_event hentity hevent (EventDecl.nodes_of_effect he)

theorem rule (h : p.Chanceless) {rule : RuleDecl} (hrule : rule ∈ p.rules) : rule.Drawless :=
  fun node hnode => h.drawless node (p.nodes_of_rule hrule hnode)

end Program.Chanceless

/-! ### Effects -/

/-- The same stage with another stamp, other numbers for new ids and another source of chance. -/
structure Stage.Restamped (s t : Stage) : Prop where
  world : ∃ stamp, t.realm.world = s.realm.world.touch stamp
  departed : t.departed = s.departed
  changes : t.changes = s.changes
  warnings : t.warnings = s.warnings
  environment : t.ambient.environment = s.ambient.environment

namespace Stage

variable {s t : Stage}

theorem Restamped.find? (h : s.Restamped t) (type id : String) :
    t.realm.world.find? type id = s.realm.world.find? type id := by
  obtain ⟨stamp, hworld⟩ := h.world
  rw [hworld]
  rfl

theorem Restamped.instance? (h : s.Restamped t) (k : Handle) : t.instance? k = s.instance? k := by
  unfold Stage.instance?
  rw [h.find?, h.departed]

theorem Restamped.setProperty (h : s.Restamped t) (k : Handle) (property : String) (value : Value) :
    (s.setProperty k property value).Restamped (t.setProperty k property value) := by
  obtain ⟨stamp, hworld⟩ := h.world
  unfold Stage.setProperty
  rw [h.find?]
  split
  · exact ⟨⟨stamp, by rw [hworld]; rfl⟩, h.departed, h.changes, h.warnings, h.environment⟩
  · exact ⟨h.world, by simp only [h.departed], h.changes, h.warnings, h.environment⟩

theorem blind_restamped : Blind Restamped where
  owner := by
    rintro s t h scope owner
    obtain ⟨stamp, hworld⟩ := h.world
    unfold Stage.owner?
    rw [hworld]
    rfl
  state h k := congrArg (Option.map _) (h.instance? k)
  debugs h := congrArg (·.debugs "executor") h.environment
  shown {s t} h kind message := by
    refine ⟨h.world, h.departed, h.changes, h.warnings, ?_⟩
    exact (t.ambient.advances_debug kind message).environment.trans
      (h.environment.trans (s.ambient.advances_debug kind message).environment.symm)
  remarked h notice :=
    ⟨h.world, h.departed, h.changes, congrArg (· ++ [notice]) h.warnings, h.environment⟩
  assigned h k property value change :=
    have hset := h.setProperty k property value
    ⟨hset.world, hset.departed, congrArg (· ++ [change]) hset.changes, hset.warnings,
      hset.environment⟩

theorem agrees_certain {α : Type} {x : Eval α} (hx : x.Certain) :
    Agrees Restamped (Act.eval x) (Act.eval x) := by
  obtain ⟨result, hresult⟩ := hx
  intro s t hst
  unfold AgreesAt
  rw [Act.run_eval_certain hresult, Act.run_eval_certain hresult]
  exact ⟨rfl, hst⟩

theorem agreeable_restamped {part : Expr} (hdrawless : part.Drawless)
    (hsettled : part.populates = false) : part.Agreeable Restamped where
  value b := agrees_certain (certain_evaluate defaultPlaceholder b part hdrawless)
  create type properties hpart := by
    rw [hpart] at hsettled
    cases hsettled
  remove type id hpart := by
    rw [hpart] at hsettled
    cases hsettled

end Stage

/-! ### Worlds in two arenas -/

namespace Arena

def unstamped? (a : Arena) (id : String) : Option World := (a.world? id).map (·.touch 0)

structure Beside (id : String) (a b : Arena) : Prop where
  world : b.unstamped? id = a.unstamped? id
  environment : b.ambient.environment = a.ambient.environment

variable {id : String} {a b : Arena}

theorem Beside.refl (a : Arena) : a.Beside id a := ⟨rfl, rfl⟩

theorem Beside.of_none (h : a.Beside id b) (ha : a.world? id = none) : b.world? id = none := by
  have hworld := h.world
  unfold unstamped? at hworld
  rw [ha] at hworld
  exact Option.map_eq_none_iff.mp hworld

theorem Beside.of_some (h : a.Beside id b) {w : World} (ha : a.world? id = some w) :
    ∃ stamp, b.world? id = some (w.touch stamp) := by
  have hworld := h.world
  unfold unstamped? at hworld
  rw [ha] at hworld
  obtain ⟨v, hv, htouch⟩ := Option.map_eq_some_iff.mp hworld
  have hsame : v = w.touch v.stamp := congrArg (·.touch v.stamp) htouch
  exact ⟨v.stamp, hsame ▸ hv⟩

theorem unstamped?_keep (w : World) :
    (a.keep id w).unstamped? id = (a.world? id).map fun _ => w.touch 0 := by
  simp only [unstamped?, world?, keep, Table.get?_modify, if_true, Option.map_map]
  rfl

theorem unstamped?_update (f : World → World) :
    (a.update id f).unstamped? id = (a.world? id).map fun w => (f w).touch 0 := by
  simp only [unstamped?, world?, update, Table.get?_modify, if_true, Option.map_map]
  rfl

theorem unstamped?_settle (s : Stage) (stamped : List Change → Bool) :
    (a.settle id s stamped).unstamped? id = (a.world? id).map fun _ => s.realm.world.touch 0 := by
  have hambient : ({ a with ambient := s.ambient } : Arena).world? id = a.world? id := rfl
  unfold settle
  dsimp only
  split
  · exact (unstamped?_update _).trans (congrArg _ hambient)
  · exact (unstamped?_keep _).trans (congrArg _ hambient)

theorem Beside.isSome (h : a.Beside id b) {α : Type} (x : α) :
    (b.world? id).map (fun _ => x) = (a.world? id).map fun _ => x := by
  have hworld := congrArg (Option.map fun _ => x) h.world
  rw [unstamped?, unstamped?, Option.map_map, Option.map_map] at hworld
  exact hworld

theorem Beside.settle (h : a.Beside id b) {s t : Stage} (hst : s.Restamped t)
    (stamped : List Change → Bool) : (a.settle id s stamped).Beside id (b.settle id t stamped) where
  world := by
    obtain ⟨stamp, hworld⟩ := hst.world
    rw [unstamped?_settle, unstamped?_settle, hworld]
    exact h.isSome _
  environment := by
    have henvironment (a : Arena) (s : Stage) :
        (a.settle id s stamped).ambient.environment = s.ambient.environment := by
      unfold Arena.settle
      dsimp only
      split <;> rfl
    rw [henvironment, henvironment]
    exact hst.environment

theorem Beside.keep (h : a.Beside id b) {w v : World} (hwv : v.touch 0 = w.touch 0) :
    (a.keep id w).Beside id (b.keep id v) where
  world := by
    rw [unstamped?_keep, unstamped?_keep, hwv]
    exact h.isSome _
  environment := h.environment

theorem Beside.inhabitants (h : a.Beside id b) (type : String) :
    b.inhabitants id type = a.inhabitants id type := by
  unfold Arena.inhabitants
  cases ha : a.world? id with
  | none => rw [h.of_none ha]
  | some w =>
    obtain ⟨stamp, hb⟩ := h.of_some ha
    rw [hb]
    rfl

end Arena

/-! ### Events -/

section

variable {programs : Programs} {r : Request} {id : String} {a b : Arena}

theorem Request.call_beside (programs : Programs) (h : a.Beside r.worldId b) :
    (∃ error, r.call programs a.realms = .error error ∧ r.call programs b.realms = .error error) ∨
    ∃ c realm stamp, r.call programs a.realms = .ok c ∧
      r.call programs b.realms = .ok { c with realm } ∧
      realm.world = c.realm.world.touch stamp := by
  unfold Request.call
  split
  · next type id event _ _ _ =>
    cases hp : programs r.specification with
    | none => exact .inl ⟨_, rfl, rfl⟩
    | some program =>
      cases hr : a.realms.get? r.worldId with
      | none =>
        have hworld : a.world? r.worldId = none := congrArg (Option.map Realm.world) hr
        have hb := Option.map_eq_none_iff.mp (h.of_none hworld)
        simp only [hb]
        exact .inl ⟨_, rfl, rfl⟩
      | some realm =>
        have hworld : a.world? r.worldId = some realm.world := congrArg (Option.map Realm.world) hr
        obtain ⟨stamp, hb⟩ := h.of_some hworld
        obtain ⟨realm', hr', hsame⟩ := Arena.realm_of_world? hb
        have hfind : realm'.world.find? type id = realm.world.find? type id := by
          rw [hsame]
          rfl
        simp only [hr', hfind]
        cases he : program.entity? type with
        | none => exact .inl ⟨_, rfl, rfl⟩
        | some entity =>
          cases ha : realm.world.find? type id with
          | none => exact .inl ⟨_, rfl, rfl⟩
          | some actor =>
            cases hev : entity.event? event with
            | none => simp only [hev]; exact .inl ⟨_, rfl, rfl⟩
            | some found =>
              simp only [hev]
              exact .inr ⟨⟨realm, entity, actor, found⟩, realm', stamp, rfl, rfl, hsame⟩
  · exact .inl ⟨_, rfl, rfl⟩

theorem agrees_callApply_restamped {c : Call} {realm : Realm} {stamp : Nat}
    (hworld : realm.world = c.realm.world.touch stamp) (hweighted : c.event.weighted = [])
    (heffect : ∀ e, c.event.effect = some e → ∀ part ∈ e.nodes,
      part.Drawless ∧ part.populates = false) (scope : Scope) :
    Agrees (Arena.Beside id) (c.apply id scope) (Call.apply { c with realm } id scope) := by
  intro a b hab
  have hcall : Agrees Stage.Restamped (c.act scope) (c.act scope) := by
    refine (Stage.blind_restamped.composes scope).callAct (fun e he part hpart => ?_) ?_
    · obtain ⟨hdrawless, hsettled⟩ := heffect e he part hpart
      exact Stage.agreeable_restamped hdrawless hsettled
    · rw [hweighted]
      exact .of_pure _
  have hact : AgreesAt Stage.Restamped (c.act scope) (Call.act { c with realm } scope)
      (c.begun a) (Call.begun { c with realm } b) :=
    hcall _ _ ⟨⟨stamp, hworld⟩, rfl, rfl, rfl, hab.environment⟩
  unfold AgreesAt at hact ⊢
  rw [Call.run_apply, Call.run_apply]
  generalize (c.act scope).run.run (c.begun a) = first at hact ⊢
  generalize (Call.act { c with realm } scope).run.run (Call.begun { c with realm } b) = second
    at hact ⊢
  obtain ⟨result, s⟩ := first
  obtain ⟨_, t⟩ := second
  obtain ⟨rfl, hst⟩ := hact
  have hst : s.Restamped t := hst
  have hsettle := hab.settle hst
  have hchanges := hst.changes
  have hwarnings := hst.warnings
  match result with
  | .ok () => exact ⟨by simp only [hchanges, hwarnings], hsettle _⟩
  | .error (.rejected e) => exact ⟨by simp only [hchanges, hwarnings], hsettle _⟩
  | .error (.fault f) => exact ⟨rfl, hsettle _⟩

theorem agrees_runEval_certain {α : Type} {x : Eval α} (hx : x.Certain) :
    Agrees (Arena.Beside id) (Run.eval x) (Run.eval x) := by
  obtain ⟨result, hresult⟩ := hx
  intro a b hab
  unfold AgreesAt
  rw [Run.run_eval_certain hresult, Run.run_eval_certain hresult]
  exact ⟨rfl, hab⟩

theorem agrees_runEvent_restamped {p : Program} (hp : programs r.specification = some p)
    (hchance : p.Chanceless) (hsettled : p.Settled) :
    Agrees (Arena.Beside r.worldId) (runEvent programs r) (runEvent programs r) := by
  unfold runEvent
  refine .of_get_bind fun a b hab => ?_
  rcases Request.call_beside programs hab with
    ⟨error, ha, hb⟩ | ⟨c, realm, stamp, ha, hb, hworld⟩
  · rw [ha, hb]
    exact ⟨rfl, hab⟩
  · rw [ha, hb]
    obtain ⟨type, _, event, p', -, -, -, hp', -, he, -, hev⟩ := call_eq_ok ha
    obtain rfl := Option.some.inj (hp.symm.trans hp')
    have hentity : c.entity ∈ p.entities := List.mem_of_find?_eq_some he
    have hevent : c.event ∈ c.entity.events := List.mem_of_find?_eq_some hev
    have hscope : Call.scope { c with realm } r.parameters = c.scope r.parameters := by
      unfold Call.scope
      dsimp only
      rw [hworld]
      rfl
    dsimp only
    rw [hscope]
    refine Agrees.of_get_bind (fun a b hab => ?_) a b hab
    have hstage : (⟨c.realm, [], [], [], a.ambient⟩ : Stage).Restamped
        ⟨realm, [], [], [], b.ambient⟩ :=
      ⟨⟨stamp, hworld⟩, rfl, rfl, rfl, hab.environment⟩
    rw [Stage.blind_restamped.bindings hstage]
    have hcertain : (holds defaultPlaceholder ((⟨c.realm, [], [], [], a.ambient⟩ : Stage).bindings
        (c.scope r.parameters)) c.event.condition).Certain :=
      certain_holds fun e he => hchance.condition hentity hevent he
    refine Agrees.of_bind (agrees_runEval_certain hcertain) (fun met => ?_) a b hab
    refine .of_ite ?_ (.of_pure _)
    refine agrees_callApply_restamped hworld (hchance.unweighted _ hentity _ hevent) ?_ _
    intro e he part hpart
    have hdrawless := hchance.effect hentity hevent he
    exact ⟨fun q hq => hdrawless q (e.nodes_subset hpart hq),
      (hsettled _ hentity _ hevent).effect e he part hpart⟩

/-! ### Rules -/

theorem agrees_runRule_restamped
    (hrule : ∀ rule, r.namedRule programs = .ok rule → rule.Drawless) :
    Agrees (Arena.Beside r.worldId) (runRule programs r) (runRule programs r) := by
  intro a b hab
  cases ha : a.world? r.worldId with
  | none =>
    have hr : a.realms.get? r.worldId = none := Option.map_eq_none_iff.mp ha
    have hr' : b.realms.get? r.worldId = none := Option.map_eq_none_iff.mp (hab.of_none ha)
    have hsame : r.ruleIn programs b.realms = r.ruleIn programs a.realms := by
      unfold Request.ruleIn
      rw [hr, hr']
    unfold AgreesAt runRule
    rw [run_get_bind, run_get_bind, hsame]
    cases hfound : r.ruleIn programs a.realms with
    | error error => exact ⟨rfl, hab⟩
    | ok found =>
      rw [Request.realm_of_ruleIn hfound] at hr
      cases hr
  | some w =>
    obtain ⟨stamp, hb⟩ := hab.of_some ha
    have halike : a.AlikeIn true r.worldId r.worldId b :=
      ⟨⟨w, w.touch stamp, ha, hb, rfl⟩, fun hd => by cases hd⟩
    obtain ⟨hresult, hafter⟩ := agreesIn_runRule rfl rfl (fun _ => hrule) a b halike
    refine ⟨hresult, ⟨?_, ?_⟩⟩
    · obtain ⟨w', v', hw', hv', hvars⟩ := hafter.worlds
      obtain ⟨_, hw'', vars, stamp', rfl⟩ := (spared_runRule programs r a).own w ha
      obtain ⟨_, hv'', vars', stamp'', rfl⟩ := (spared_runRule programs r b).own _ hb
      obtain rfl := Option.some.inj (hw'.symm.trans hw'')
      obtain rfl := Option.some.inj (hv'.symm.trans hv'')
      have hvars : vars' = vars := hvars
      rw [Arena.unstamped?, Arena.unstamped?, hw', hv', hvars]
      rfl
    · exact (advances_runRule programs r b).ambient.environment.trans
        (hab.environment.trans (advances_runRule programs r a).ambient.environment.symm)

end

theorem StepTarget.agrees_program_restamped {t : StepTarget} {p : Program} (ht : t.world ≠ "")
    (hp : t.programs t.specification = some p) (hchance : p.Chanceless) (hsettled : p.Settled) :
    Agrees (StepProgress.Beside (Arena.Beside t.world)) (t.program p) (t.program p) := by
  refine t.agrees_program (fun a b hab => hab.inhabitants) (fun type id event => ?_)
    (fun name => ?_) p
  · have hevent := agrees_runEvent_restamped (r := t.eventRequest type id event) hp hchance hsettled
    rwa [worldId_eventRequest ht] at hevent
  · have hrule := agrees_runRule_restamped (r := t.ruleRequest name) fun rule hfound =>
      hchance.rule (mem_of_namedRule hp hfound)
    rwa [worldId_ruleRequest ht] at hrule

end StepWorld
