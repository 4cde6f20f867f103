import StepWorld.Proofs.World.Filed
import StepWorld.Proofs.World.Restamped

/-! The worlds under every sequence of requests from outside. A world is there as long as it is
declared; its types are the declared ones, its instances stand under their types with ids of their
own, and it can be built anew at any time. -/

namespace StepWorld

/-- What is asked of the worlds from outside. -/
inductive Upkeep where
  | create (id : String) (entities : List EntityDecl)
  | touch (id : String)
  | setProperties (id type instanceId : String) (updates : Record)
  | setVariable (id name : String) (value : Value)
  | record (id : String) (limit : Int) (events rules : List String)
  | addInstance (id type : String) (properties : Record)
  | removeInstance (id type instanceId : String)
  | reset (id : String)
  | delete (id : String)
  | clear

namespace Upkeep

def subject? : Upkeep → Option String
  | .create id _ | .touch id | .setProperties id _ _ _ | .setVariable id _ _ | .record id _ _ _
  | .addInstance id _ _ | .removeInstance id _ _ | .reset id | .delete id => some id
  | .clear => none

/-- The entities that each world was last declared with. -/
def declare (known : Table (List EntityDecl)) : Upkeep → Table (List EntityDecl)
  | .create id entities => known.put id entities
  | .delete id => known.remove id
  | .clear => []
  | _ => known

def declareAll (known : Table (List EntityDecl)) (requests : List Upkeep) :
    Table (List EntityDecl) := requests.foldl declare known

end Upkeep

namespace Arena

/-- The worlds after a request. What is asked of somebody who is not there does nothing. -/
def grant (a : Arena) : Upkeep → Arena
  | .create id entities => a.create id entities
  | .touch id => a.update id fun w => w
  | .setProperties id type instanceId updates =>
    (a.setProperties? id type instanceId updates).elim a fun b => b
  | .setVariable id name value => a.setVariable id name value
  | .record id limit events rules => (a.record? id limit events rules).elim a (·.2)
  | .addInstance id type properties => (a.addInstance? id type properties).elim a (·.2)
  | .removeInstance id type instanceId =>
    (a.removeInstance? id type instanceId).elim a fun b => b
  | .reset id => a.reset id
  | .delete id => a.delete id
  | .clear => a.clear

def grantAll (a : Arena) (requests : List Upkeep) : Arena := requests.foldl grant a

end Arena

theorem of_elim_map {α β γ : Type} {P : γ → Prop} {found : Option α} {f : α → β} {g : β → γ} {c : γ}
    (hmissing : P c) (hfound : ∀ a, found = some a → P (g (f a))) : P ((found.map f).elim c g) := by
  cases found with
  | none => exact hmissing
  | some a => exact hfound a rfl

theorem numberedId_ne_empty (name : String) (n : Nat) : numberedId name n ≠ "" := by
  intro h
  have hlist := congrArg String.toList h
  simp [numberedId, String.toList_append] at hlist

/-- A realm as the entities make it that it was declared with, whatever was asked of it since. -/
structure Realm.Kept (issued : Nat) (entities : List EntityDecl) (r : Realm) : Prop where
  blueprint : r.blueprint = Blueprint.ofEntities entities
  typed : r.Typed
  filed : r.world.Filed r.blueprint
  distinct : r.world.ids.Nodup
  unused : ∀ name n, issued < n → numberedId name n ∉ r.world.ids
  named : "" ∉ r.world.ids

namespace Realm.Kept

variable {issued : Nat} {entities : List EntityDecl} {r : Realm} {w : World}

theorem later (h : r.Kept issued entities) {issued' : Nat} (hle : issued ≤ issued') :
    r.Kept issued' entities :=
  ⟨h.blueprint, h.typed, h.filed, h.distinct,
    fun name n hn => h.unused name n (Nat.lt_of_le_of_lt hle hn), h.named⟩

theorem withWorld (h : r.Kept issued entities) (hkeys : w.entities.keys = r.world.entities.keys)
    (hfiled : w.Filed r.blueprint) (hids : w.ids.Sublist r.world.ids) :
    { r with world := w }.Kept issued entities :=
  ⟨h.blueprint, hkeys.trans h.typed, hfiled, h.distinct.sublist hids,
    fun name n hn hmem => h.unused name n hn (hids.subset hmem),
    fun hmem => h.named (hids.subset hmem)⟩

theorem sameEntities (h : r.Kept issued entities) (hentities : w.entities = r.world.entities) :
    { r with world := w }.Kept issued entities := by
  have hids : w.ids = r.world.ids := by rw [World.ids, World.inhabitants, hentities]; rfl
  refine h.withWorld (by rw [hentities]) ?_ (hids ▸ List.Sublist.refl _)
  have hfiled := h.filed
  unfold World.Filed at hfiled ⊢
  rwa [hentities]

theorem setProperties (h : r.Kept issued entities) (type id : String) (updates : Record) :
    { r with world := r.world.modifyInstance type id (·.setProperties updates) }.Kept
      issued entities :=
  have hids (is : List Instance) :
      (World.modifyFirst id (·.setProperties updates) is).map (·.id) = is.map (·.id) :=
    World.map_modifyFirst (g := Instance.id) (f := (·.setProperties updates)) (fun _ => rfl) is
  h.withWorld (Table.keys_modify _ _ _) (h.filed.modifyInstance fun _ => ⟨rfl, rfl⟩)
    (World.ids_modify_sublist fun is => hids is ▸ List.Sublist.refl _)

theorem removeInstance (h : r.Kept issued entities) (type id : String) :
    { r with world := r.world.removeInstance type id }.Kept issued entities :=
  h.withWorld (Table.keys_modify _ _ _) h.filed.removeInstance
    (World.ids_modify_sublist fun _ => List.eraseP_sublist.map _)

theorem addInstance (h : r.Kept issued entities) {type : String} {entity : EntityDecl}
    (hentity : r.blueprint.get? type = some entity) (properties : Record) :
    { r with
      world := r.world.addInstance
        (entity.instantiate type (numberedId type (issued + 1)) properties) }.Kept
      (issued + 1) entities := by
  have hperm := World.ids_addInstance r.world
    (entity.instantiate type (numberedId type (issued + 1)) properties)
  have hnew : numberedId type (issued + 1) ∉ r.world.ids :=
    h.unused type _ (Nat.lt_succ_self issued)
  refine ⟨h.blueprint, ?_, h.filed.addInstance hentity properties, ?_, fun name n hn hmem => ?_,
    fun hmem => ?_⟩
  · refine (World.keys_addInstance r.world ?_).trans h.typed
    change type ∈ r.world.entities.keys
    rw [h.typed]
    exact Table.isSome_get?_iff.mp (Option.isSome_of_eq_some hentity)
  · exact hperm.nodup_iff.mpr (List.nodup_cons.mpr ⟨hnew, h.distinct⟩)
  · rcases List.mem_cons.mp (hperm.mem_iff.mp hmem) with hid | hmem
    · have hsame : n = issued + 1 := numberedId_number hid
      omega
    · exact h.unused name n (Nat.lt_of_succ_lt hn) hmem
  · rcases List.mem_cons.mp (hperm.mem_iff.mp hmem) with hid | hmem
    · exact numberedId_ne_empty type (issued + 1) hid.symm
    · exact h.named hmem

end Realm.Kept

theorem Realm.kept_create (issued : Nat) (entities : List EntityDecl) (stamp : Nat) :
    (Realm.create entities stamp).Kept issued entities := by
  obtain ⟨hdistinct, hunused⟩ := ids_create entities stamp
  refine ⟨rfl, ?_, World.filed_build (Table.keys_ofEntries_nodup _) stamp, hdistinct,
    fun name n _ => hunused name n, fun hmem => ?_⟩
  · change Table.keys (List.map _ _) = _
    rw [Table.keys, List.map_map]
    rfl
  · have hids : (Realm.create entities stamp).world.ids =
        (Blueprint.ofEntities entities).keys.map (· ++ "_0") := ids_build _ _
    obtain ⟨key, -, hkey⟩ := List.mem_map.mp (hids ▸ hmem)
    have hlist := congrArg String.toList hkey
    simp [String.toList_append] at hlist

namespace Arena

structure Kept (known : Table (List EntityDecl)) (a : Arena) : Prop where
  keys : a.realms.keys = known.keys
  realms : ∀ id entities, known.get? id = some entities →
    ∃ r, a.realms.get? id = some r ∧ r.Kept a.ambient.issued entities

namespace Kept

variable {known : Table (List EntityDecl)} {a : Arena} {id : String}

theorem later (h : a.Kept known) {ambient : Ambient} (hle : a.ambient.issued ≤ ambient.issued) :
    { a with ambient }.Kept known where
  keys := h.keys
  realms k entities hk := by
    obtain ⟨r, hr, hkept⟩ := h.realms k entities hk
    exact ⟨r, hr, hkept.later hle⟩

theorem modify (h : a.Kept known) {f : Realm → Realm}
    (hf : ∀ r entities, a.realms.get? id = some r → r.Kept a.ambient.issued entities →
      (f r).Kept a.ambient.issued entities) :
    { a with realms := a.realms.modify id f }.Kept known where
  keys := (Table.keys_modify _ _ _).trans h.keys
  realms k entities hk := by
    obtain ⟨r, hr, hkept⟩ := h.realms k entities hk
    by_cases heq : k = id
    · subst heq
      exact ⟨f r, by rw [Table.get?_modify, if_pos rfl, hr]; rfl, hf r entities hr hkept⟩
    · exact ⟨r, by rw [Table.get?_modify, if_neg heq, hr], hkept⟩

theorem update (h : a.Kept known) {f : World → World}
    (hf : ∀ r entities, a.realms.get? id = some r → r.Kept a.ambient.issued entities →
      { r with world := f r.world }.Kept a.ambient.issued entities) :
    (a.update id f).Kept known := by
  have hticked : { a with ambient := a.ambient.tick.2 }.Kept known := h.later (Nat.le_refl _)
  refine hticked.modify (f := fun r => { r with world := (f r.world).touch a.ambient.tick.1 })
    fun r entities hr hkept => ?_
  exact (hf r entities hr hkept).sameEntities rfl

theorem create (h : a.Kept known) (id : String) (entities : List EntityDecl) :
    (a.create id entities).Kept (known.put id entities) where
  keys := by
    change (a.realms.put id _).keys = _
    rw [Table.keys_put, Table.keys_put, h.keys]
  realms k declared hk := by
    change ∃ r, (a.realms.put id _).get? k = some r ∧ r.Kept a.ambient.issued declared
    rw [Table.get?_put] at hk ⊢
    split at hk
    · next heq =>
      cases hk
      exact ⟨_, if_pos heq, Realm.kept_create _ _ _⟩
    · next hne =>
      rw [if_neg hne]
      exact h.realms k declared hk

theorem delete (h : a.Kept known) (id : String) : (a.delete id).Kept (known.remove id) where
  keys := by
    change (a.realms.remove id).keys = _
    rw [Table.keys_remove, Table.keys_remove, h.keys]
  realms k declared hk := by
    obtain ⟨hne, hk⟩ := Table.get?_of_remove hk
    change ∃ r, (a.realms.remove id).get? k = some r ∧ r.Kept a.ambient.issued declared
    rw [Table.get?_remove, if_neg hne]
    exact h.realms k declared hk

theorem addInstance (h : a.Kept known) {type : String} {entity : EntityDecl}
    (hentity : a.declaration? id type = some entity) (properties : Record) :
    ({ a with ambient := (a.ambient.issue type).2 }.update id
      (·.addInstance (entity.instantiate type (a.ambient.issue type).1 properties))).Kept
        known where
  keys := (Table.keys_modify _ _ _).trans h.keys
  realms k entities hk := by
    obtain ⟨r, hr, hkept⟩ := h.realms k entities hk
    change ∃ r, (a.realms.modify id _).get? k = some r ∧ r.Kept (a.ambient.issued + 1) entities
    by_cases heq : k = id
    · subst heq
      have hdeclared : r.blueprint.get? type = some entity := by rwa [declaration?, hr] at hentity
      refine ⟨_, by rw [Table.get?_modify, if_pos rfl, hr]; rfl, ?_⟩
      exact (hkept.addInstance hdeclared properties).sameEntities rfl
    · exact ⟨r, by rw [Table.get?_modify, if_neg heq, hr], hkept.later (Nat.le_succ _)⟩

theorem reset (h : a.Kept known) (id : String) : (a.reset id).Kept known := by
  have hticked : { a with ambient := a.ambient.tick.2 }.Kept known := h.later (Nat.le_refl _)
  refine hticked.modify (f := (·.reset a.ambient.tick.1)) fun r entities _ hkept => ?_
  have hreset : r.reset a.ambient.tick.1 = Realm.create entities a.ambient.tick.1 := by
    rw [Realm.reset, hkept.blueprint]
    rfl
  exact hreset ▸ Realm.kept_create _ _ _

theorem grant (h : a.Kept known) (request : Upkeep) :
    (a.grant request).Kept (request.declare known) := by
  cases request with
  | create id entities => exact h.create id entities
  | touch id => exact h.update (f := fun w => w) fun r entities _ hkept => hkept
  | setVariable id name value =>
    exact h.update (f := (·.setVariable name value))
      fun r entities _ hkept => hkept.sameEntities rfl
  | reset id => exact h.reset id
  | delete id => exact h.delete id
  | clear => exact ⟨rfl, fun _ _ hk => nomatch hk⟩
  | setProperties id type instanceId updates =>
    refine of_elim_map (P := Kept known) h fun _ _ => ?_
    exact h.update fun r entities _ hkept => hkept.setProperties type instanceId updates
  | record id limit events rules =>
    refine of_elim_map (P := Kept known) h fun _ _ => ?_
    exact h.update (f := (·.record limit events rules)) fun r entities _ hkept =>
      hkept.sameEntities rfl
  | addInstance id type properties =>
    exact of_elim_map (P := Kept known) h fun entity hentity => h.addInstance hentity properties
  | removeInstance id type instanceId =>
    refine of_elim_map (P := Kept known) h fun _ _ => ?_
    exact h.update fun r entities _ hkept => hkept.removeInstance type instanceId

theorem grantAll (h : a.Kept known) (requests : List Upkeep) :
    (a.grantAll requests).Kept (Upkeep.declareAll known requests) := by
  induction requests generalizing a known with
  | nil => exact h
  | cons request rest ih => exact ih (h.grant request)

theorem unstamped?_reset (h : a.Kept known) {entities : List EntityDecl}
    (hid : known.get? id = some entities) (c : Arena) :
    (a.reset id).unstamped? id = (c.create id entities).unstamped? id := by
  obtain ⟨r, hr, hkept⟩ := h.realms id entities hid
  have hcreated : (c.create id entities).world? id =
      some ((Blueprint.ofEntities entities).build c.ambient.tick.1) := by
    change ((c.realms.put id _).get? id).map _ = _
    rw [Table.get?_put_self]
    rfl
  have hreset : (a.reset id).world? id = some (r.blueprint.build a.ambient.tick.1) := by
    change ((a.realms.modify id _).get? id).map _ = _
    rw [Table.get?_modify, if_pos rfl, hr]
    rfl
  rw [unstamped?, unstamped?, hcreated, hreset, hkept.blueprint]
  rfl

end Kept

theorem grant_others (a : Arena) {request : Upkeep} {id other : String}
    (hsubject : request.subject? = some id) (hne : other ≠ id) :
    (a.grant request).realms.get? other = a.realms.get? other := by
  let P (b : Arena) : Prop := b.realms.get? other = a.realms.get? other
  have hmodify (f : Realm → Realm) (ambient : Ambient) : P ⟨a.realms.modify id f, ambient⟩ :=
    (Table.get?_modify _ _ _ _).trans (if_neg hne)
  cases request with
  | clear => cases hsubject
  | create =>
    cases hsubject
    exact (Table.get?_put _ _ _ _).trans (if_neg hne)
  | delete =>
    cases hsubject
    exact (Table.get?_remove _ _ _).trans (if_neg hne)
  | touch | setVariable | reset =>
    cases hsubject
    exact hmodify _ _
  | setProperties | record | addInstance | removeInstance =>
    cases hsubject
    exact of_elim_map (P := P) rfl fun _ _ => hmodify _ _

end Arena

theorem Blueprint.name_of_mem {entities : List EntityDecl} {entry : String × EntityDecl}
    (h : entry ∈ Blueprint.ofEntities entities) : entry.2.name = entry.1 := by
  have hfold (declared : Table EntityDecl) (entries : Table EntityDecl)
      (hdeclared : ∀ entry ∈ declared, entry.2.name = entry.1)
      (hentries : ∀ entry ∈ entries, entry.2.name = entry.1) :
      ∀ entry ∈ declared.putAll entries, entry.2.name = entry.1 := by
    unfold Table.putAll
    induction entries generalizing declared with
    | nil => exact hdeclared
    | cons first rest ih =>
      obtain ⟨hfirst, hrest⟩ := List.forall_mem_cons.mp hentries
      refine ih (declared.put first.1 first.2) (fun entry hentry => ?_) hrest
      rcases Table.mem_put hentry with hentry | rfl
      · exact hdeclared entry hentry
      · exact hfirst
  refine hfold [] _ (fun _ hentry => nomatch hentry) (fun entry hentry => ?_) entry h
  obtain ⟨entity, -, rfl⟩ := List.mem_map.mp hentry
  rfl

theorem Blueprint.keys_ofEntities (entities : List EntityDecl) :
    (Blueprint.ofEntities entities).keys = (Blueprint.ofEntities entities).values.map (·.name) := by
  unfold Table.keys Table.values
  rw [List.map_map]
  exact List.map_congr_left fun entry hentry => (name_of_mem hentry).symm

namespace Arena

/-- After any requests there are the worlds that were declared and not deleted, in order. The types
of a world are the names of its declarations, in order; every instance stands under its type with
the events of its declaration, and no two instances have the same id. Built anew, a world is the one
that its declarations make at any time. And a request for one world leaves all others. -/
theorem worlds_as_declared (ambient : Ambient) (requests : List Upkeep) :
    let a := (Arena.mk [] ambient).grantAll requests
    let known := Upkeep.declareAll [] requests
    a.realms.keys = known.keys ∧
    (∀ id entities, known.get? id = some entities → ∃ w, a.world? id = some w ∧
      (∀ type, a.declaration? id type = (Blueprint.ofEntities entities).get? type) ∧
      w.entities.keys = (Blueprint.ofEntities entities).values.map (·.name) ∧
      w.Filed (Blueprint.ofEntities entities) ∧ w.ids.Nodup ∧
      ∀ c : Arena, (a.reset id).unstamped? id = (c.create id entities).unstamped? id) ∧
    ∀ request id other, request.subject? = some id → other ≠ id →
      (a.grant request).realms.get? other = a.realms.get? other := by
  intro a known
  have hempty : Kept [] ⟨[], ambient⟩ := ⟨rfl, fun _ _ hid => nomatch hid⟩
  have hkept : a.Kept known := hempty.grantAll requests
  refine ⟨hkept.keys, fun id entities hid => ?_, fun request id other => a.grant_others⟩
  obtain ⟨r, hr, hrealm⟩ := hkept.realms id entities hid
  refine ⟨r.world, by rw [world?, hr]; rfl, fun type => ?_, ?_, hrealm.blueprint ▸ hrealm.filed,
    hrealm.distinct, hkept.unstamped?_reset hid⟩
  · rw [declaration?, hr, ← hrealm.blueprint]
    rfl
  · rw [← Blueprint.keys_ofEntities, ← hrealm.blueprint]
    exact hrealm.typed

/-- Two trees are planted, the first one of all is felled and one gets a property; a yard comes and
goes. -/
def gardening : List Upkeep :=
  [.create "park" [⟨"Tree", [⟨"height", .scalar .int⟩], [], 1⟩, ⟨"Bench", [], [], 2⟩],
    .create "yard" [⟨"Tree", [], [], 1⟩],
    .addInstance "park" "Tree" [("height", .int 3)],
    .addInstance "yard" "Tree" [],
    .addInstance "park" "Tree" [],
    .removeInstance "park" "Tree" "Tree_0",
    .setProperties "park" "Tree" "Tree_000000000003" [("age", .int 1)],
    .record "park" 10 [] [],
    .delete "yard"]

def gardened : Arena := (Arena.mk [] ⟨[], .cyclic [0] 0, 0, 0, []⟩).grantAll gardening

/-- Only the park is left, with the ids of two trees and a bench, and it can be built anew. -/
theorem worlds_as_declared_gardening :
    gardened.realms.keys = ["park"] ∧ ∃ w, gardened.world? "park" = some w ∧
      w.entities.keys = ["Tree", "Bench"] ∧
      w.ids = ["Tree_000000000001", "Tree_000000000003", "Bench_0"] ∧ w.ids.Nodup ∧
      ((gardened.reset "park").world? "park").map (·.ids) = some ["Tree_0", "Bench_0"] := by
  obtain ⟨hkeys, hworlds, -⟩ := worlds_as_declared ⟨[], .cyclic [0] 0, 0, 0, []⟩ gardening
  obtain ⟨w, hw, -, htypes, -, hdistinct, -⟩ := hworlds "park" _ rfl
  have hids : (gardened.world? "park").map (·.ids) =
      some ["Tree_000000000001", "Tree_000000000003", "Bench_0"] := by decide +kernel
  have hreset : ((gardened.reset "park").world? "park").map (·.ids) =
      some ["Tree_0", "Bench_0"] := by decide +kernel
  have hw : gardened.world? "park" = some w := hw
  rw [hw] at hids
  exact ⟨hkeys, w, hw, htypes, Option.some.inj hids, hdistinct, hreset⟩

end Arena

end StepWorld
