import StepWorld.Proofs.World.Variables

/-! The types of a world. Instances come and go, but events and rules give a world neither a new
type nor a new order of its types. -/

namespace StepWorld

variable {a b : Arena} {id : String} {entities : List EntityDecl}

def World.SameTypes (w v : World) : Prop := v.entities.keys = w.entities.keys

instance : Std.Refl World.SameTypes := ⟨fun _ => rfl⟩

instance : Trans World.SameTypes World.SameTypes World.SameTypes :=
  ⟨fun {u v w} (h : v.entities.keys = u.entities.keys) (h' : w.entities.keys = v.entities.keys) =>
    h'.trans h⟩

def Realm.Typed (r : Realm) : Prop := r.world.entities.keys = r.blueprint.keys

theorem World.keys_addInstance (w : World) {i : Instance} (h : i.type ∈ w.entities.keys) :
    (w.addInstance i).entities.keys = w.entities.keys := by
  simp [addInstance, Table.keys_put, h]

def Stage.TypesStay (s t : Stage) : Prop :=
  t.realm.blueprint = s.realm.blueprint ∧
    (s.realm.Typed → s.realm.world.SameTypes t.realm.world)

namespace Stage

instance : Std.Refl TypesStay := ⟨fun _ => ⟨rfl, fun _ => rfl⟩⟩

theorem TypesStay.trans {s t u : Stage} (h : s.TypesStay t) (h' : t.TypesStay u) :
    s.TypesStay u := by
  refine ⟨h'.1.trans h.1, fun hs => ?_⟩
  have ht : t.realm.Typed := ((h.2 hs).trans hs).trans (congrArg Table.keys h.1.symm)
  exact (h'.2 ht).trans (h.2 hs)

instance : Trans TypesStay TypesStay TypesStay := ⟨TypesStay.trans⟩

theorem allows_typesStay : Allows TypesStay where
  drawn _ _ := ⟨rfl, fun _ => rfl⟩
  shown _ _ _ := ⟨rfl, fun _ => rfl⟩
  remarked _ _ := ⟨rfl, fun _ => rfl⟩
  assigned s h property value _ := by
    unfold setProperty
    split
    · exact ⟨rfl, fun _ => Table.keys_modify _ _ _⟩
    · exact ⟨rfl, fun _ => rfl⟩
  created s type entity properties hentity := by
    refine ⟨rfl, fun hs => World.keys_addInstance _ ?_⟩
    rw [hs]
    exact Table.isSome_get?_iff.mp (Option.isSome_of_eq_some hentity)
  removed s type id i := ⟨rfl, fun _ => Table.keys_modify _ _ _⟩

end Stage

theorem sameTypes_runEvent {programs : Programs} {r : Request}
    (htyped : ∀ realm, a.realms.get? r.worldId = some realm → realm.Typed) :
    Arena.Along World.SameTypes r.worldId a ((runEvent programs r).run.run a).2 :=
  along_runEvent_of_act (fun _ _ => rfl) fun c hfound _ =>
    (Stage.allows_typesStay.callAct c _ _).2 (htyped c.realm (call_found hfound).1)

theorem sameTypes_runRule (programs : Programs) (r : Request) :
    Moves (Arena.Along World.SameTypes r.worldId) (runRule programs r) :=
  along_runRule ⟨fun _ _ _ => rfl, fun _ _ => rfl⟩ programs r

def Arena.Houses (a : Arena) (id : String) (entities : List EntityDecl) : Prop :=
  ∃ realm, a.realms.get? id = some realm ∧
    realm.blueprint = Blueprint.ofEntities entities ∧ realm.Typed

namespace Arena

theorem Houses.along {k : String} (h : a.Houses id entities) (hadvances : a.Advances b)
    (halong : Along World.SameTypes k a b) : b.Houses id entities := by
  obtain ⟨realm, hrealm, hblueprint, htyped⟩ := h
  by_cases hk : id = k
  · subst hk
    have hworld : a.world? id = some realm.world := by rw [world?, hrealm]; rfl
    obtain ⟨v, hv, hsame⟩ := halong.own _ hworld
    obtain ⟨realm', hrealm', rfl⟩ := realm_of_world? hv
    have hstays := hadvances.blueprints id
    rw [hrealm, hrealm'] at hstays
    have hstays : realm'.blueprint = realm.blueprint := Option.some.inj hstays
    refine ⟨realm', hrealm', hstays.trans hblueprint, ?_⟩
    exact (hsame.trans htyped).trans (congrArg Table.keys hstays.symm)
  · exact ⟨realm, (halong.others id hk).trans hrealm, hblueprint, htyped⟩

theorem houses_create (a : Arena) (id : String) (entities : List EntityDecl) :
    (a.create id entities).Houses id entities := by
  refine ⟨_, Table.get?_put_self id _ _, rfl, ?_⟩
  change Table.keys (List.map _ _) = _
  rw [Table.keys, List.map_map]
  rfl

theorem Houses.types (h : a.Houses id entities) (hnames : (entities.map (·.name)).Nodup) :
    ∃ w, a.world? id = some w ∧ w.entities.keys = entities.map (·.name) := by
  obtain ⟨realm, hrealm, hblueprint, htyped⟩ := h
  refine ⟨realm.world, by rw [world?, hrealm]; rfl, htyped.trans ?_⟩
  have hkeys : Table.keys (entities.map fun e => (e.name, e)) = entities.map (·.name) := by
    rw [Table.keys, List.map_map]
    rfl
  rw [hblueprint, Blueprint.ofEntities, Table.ofEntries_of_nodup (hkeys.symm ▸ hnames), hkeys]

end Arena

end StepWorld
