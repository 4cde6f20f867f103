import StepWorld.Proofs.Syntax.Populations
import StepWorld.Proofs.World.Filed

/-! What an event may touch. Effects find the instances they set by three rules, which may find the
same one: who acts, the first one of the type that is aimed at, and the first one of a type that is
named. All others stay as they are, also where an effect stops halfway. -/

namespace StepWorld

/-! ### Addressed instances -/

mutual

def Expr.setOwners : Expr → List String
  | .assignment _ (.property owner _) _ => [owner]
  | .sequence parts => setOwnersOf parts
  | _ => []

def Expr.setOwnersOf : List Expr → List String
  | [] => []
  | part :: rest => part.setOwners ++ setOwnersOf rest

end

theorem Expr.setOwners_subset {effects : List Expr} {part : Expr} (h : part ∈ effects) :
    part.setOwners ⊆ setOwnersOf effects := by
  induction h with
  | head rest => exact List.subset_append_left _ _
  | tail effect _ ih => exact List.subset_append_of_subset_right _ ih

/-- The owners of the properties that the effects of an event set. -/
def EventDecl.setOwners (event : EventDecl) : List String :=
  event.effect.elim [] Expr.setOwners ++ event.weighted.flatMap (·.effect.setOwners)

namespace EventDecl

variable {event : EventDecl}

theorem setOwners_of_effect {e : Expr} (he : event.effect = some e) :
    e.setOwners ⊆ event.setOwners := by
  intro owner howner
  rw [setOwners, he]
  exact List.mem_append_left _ howner

theorem setOwners_of_weighted {w : WeightedEffect} (hw : w ∈ event.weighted) :
    w.effect.setOwners ⊆ event.setOwners := fun _ howner =>
  List.mem_append_right _ (List.mem_flatMap.mpr ⟨w, hw, howner⟩)

end EventDecl

/-- The instances that an event is about, by type and place: who acts, the first one of the type
that is aimed at, and the first one of each type that its effects name as an owner. -/
inductive Call.Addresses (c : Call) : String → Nat → Prop
  | acting {place : Nat} :
      (c.realm.world.instances c.entity.name).findIdx? (·.id == c.actor.id) = some place →
      c.Addresses c.entity.name place
  | target {type : String} : c.event.target = some type → c.Addresses type 0
  | owner {type : String} : type ∈ c.event.setOwners → type ≠ "Self" → type ≠ "Target" →
      c.Addresses type 0

/-- What a request is about, if it finds what it names. -/
def Request.Addresses (r : Request) (programs : Programs) (realms : Table Realm) (type : String)
    (place : Nat) : Prop :=
  ∃ c, r.call programs realms = .ok c ∧ c.Addresses type place

def Instance.bare (i : Instance) : Instance := { i with state := [] }

namespace World

/-- Who is there: all instances of all types in order, apart from their states. -/
def lineup (w : World) : Table (List Instance) :=
  w.entities.map fun (type, is) => (type, is.map Instance.bare)

structure KeptBut (P : String → Nat → Prop) (w v : World) : Prop where
  apart : w.SameApart v
  lineup : v.lineup = w.lineup
  unaddressed : ∀ type place, ¬ P type place →
    (v.instances type)[place]? = (w.instances type)[place]?

variable {P : String → Nat → Prop} {u v w : World} {type id : String}

theorem map_bare_instances (h : v.lineup = w.lineup) (type : String) :
    (v.instances type).map Instance.bare = (w.instances type).map Instance.bare := by
  have hget (w : World) : (w.lineup.get? type).getD [] = (w.instances type).map Instance.bare :=
    get?_map_lists (List.map Instance.bare) w.entities type
  rw [← hget, h, hget]

instance : Std.Refl (KeptBut P) := ⟨fun w => ⟨Std.Refl.refl w, rfl, fun _ _ _ => rfl⟩⟩

theorem KeptBut.trans (h : u.KeptBut P v) (h' : v.KeptBut P w) : u.KeptBut P w where
  apart := h.apart.trans h'.apart
  lineup := h'.lineup.trans h.lineup
  unaddressed type place hP := (h'.unaddressed type place hP).trans (h.unaddressed type place hP)

instance : Trans (KeptBut P) (KeptBut P) (KeptBut P) := ⟨KeptBut.trans⟩

theorem keptBut_touch (w : World) (stamp : Nat) : w.KeptBut P (w.touch stamp) :=
  ⟨⟨_, _, rfl⟩, rfl, fun _ _ _ => rfl⟩

theorem place_of_lineup (h : v.lineup = w.lineup) (type id : String) :
    (v.instances type).findIdx? (·.id == id) = (w.instances type).findIdx? (·.id == id) := by
  have hbare (is : List Instance) :
      (is.map Instance.bare).findIdx? (·.id == id) = is.findIdx? (·.id == id) := List.findIdx?_map
  rw [← hbare, map_bare_instances h, hbare]

theorem lineup_modifyInstance {f : Instance → Instance} (hf : ∀ i, (f i).bare = i.bare)
    (w : World) (type id : String) : (w.modifyInstance type id f).lineup = w.lineup := by
  unfold lineup modifyInstance
  dsimp only
  induction w.entities with
  | nil => rfl
  | cons entry rest ih =>
    unfold Table.modify
    split
    · rw [List.map_cons, List.map_cons, map_modifyFirst hf]
    · rw [List.map_cons, List.map_cons, ih]

theorem getElem?_modifyFirst {f : Instance → Instance} {is : List Instance} {place : Nat}
    (h : is.findIdx? (·.id == id) ≠ some place) : (modifyFirst id f is)[place]? = is[place]? := by
  induction is generalizing place with
  | nil => rfl
  | cons first rest ih =>
    rw [List.findIdx?_cons] at h
    unfold modifyFirst
    split
    · next hfirst =>
      rw [if_pos hfirst] at h
      cases place with
      | zero => exact absurd rfl h
      | succ n => rfl
    · next hfirst =>
      rw [if_neg hfirst] at h
      cases place with
      | zero => rfl
      | succ n => exact ih fun hn => h (by rw [hn]; rfl)

theorem instances_modifyInstance (w : World) (type id : String) (f : Instance → Instance)
    (other : String) : (w.modifyInstance type id f).instances other =
      if other = type then modifyFirst id f (w.instances other) else w.instances other := by
  unfold instances modifyInstance
  rw [Table.get?_modify]
  split
  · cases w.entities.get? other <;> rfl
  · rfl

theorem KeptBut.modifyInstance (h : w.KeptBut P v) {f : Instance → Instance}
    (hf : ∀ i, (f i).bare = i.bare)
    (hplace : ∀ place, (v.instances type).findIdx? (·.id == id) = some place → P type place) :
    w.KeptBut P (v.modifyInstance type id f) where
  apart := h.apart.trans ⟨_, v.stamp, rfl⟩
  lineup := (lineup_modifyInstance hf v type id).trans h.lineup
  unaddressed other place hP := by
    rw [← h.unaddressed other place hP, instances_modifyInstance]
    split
    · next hother =>
      subst hother
      exact getElem?_modifyFirst fun hfound => hP (hplace place hfound)
    · rfl

theorem place_of_first? {i : Instance} (h : w.first? type = some i) :
    (w.instances type).findIdx? (·.id == i.id) = some 0 := by
  obtain ⟨rest, hrest⟩ := List.head?_eq_some_iff.mp h
  rw [hrest, List.findIdx?_cons, if_pos (beq_self_eq_true _)]

end World

/-! ### Effects -/

namespace Stage

def Within (c : Call) (s t : Stage) : Prop :=
  c.realm.world.KeptBut c.Addresses s.realm.world → c.realm.world.KeptBut c.Addresses t.realm.world

instance (c : Call) : Std.Refl (Within c) := ⟨fun _ h => h⟩

instance (c : Call) : Trans (Within c) (Within c) (Within c) := ⟨fun h h' hs => h' (h hs)⟩

variable {c : Call} {parameters : Record} {s t : Stage}

theorem Aside.within (h : Aside s t) : Within c s t := fun hs => by rwa [h.realm]

theorem addresses_owner (hs : c.realm.world.KeptBut c.Addresses s.realm.world) {owner : String}
    (howner : owner ∈ c.event.setOwners) {h : Handle}
    (ho : s.owner? (c.scope parameters) owner = some h) {place : Nat}
    (hplace : (s.realm.world.instances h.type).findIdx? (·.id == h.id) = some place) :
    c.Addresses h.type place := by
  have hfirst {type : String} (hf : (s.realm.world.first? type).map
      (fun i => (⟨type, i.id⟩ : Handle)) = some h) : h.type = type ∧ place = 0 := by
    obtain ⟨i, hi, rfl⟩ := Option.map_eq_some_iff.mp hf
    rw [World.place_of_first? hi] at hplace
    exact ⟨rfl, (Option.some.inj hplace).symm⟩
  unfold owner? at ho
  dsimp only at ho
  split at ho
  · obtain rfl := Option.some.inj ho
    rw [World.place_of_lineup hs.lineup] at hplace
    exact .acting hplace
  · next hself =>
    split at ho
    · obtain ⟨type, htarget, htype⟩ := Option.bind_eq_some_iff.mp ho
      obtain ⟨htype, rfl⟩ := hfirst htype
      exact htype ▸ .target htarget
    · next htarget =>
      obtain ⟨htype, rfl⟩ := hfirst ho
      exact htype ▸ .owner howner hself htarget

theorem within_assigned {owner property : String} {value : Value} {h : Handle} {change : Change}
    (howner : owner ∈ c.event.setOwners) (ho : s.owner? (c.scope parameters) owner = some h)
    (ht : Aside s t) : Within c s ((t.setProperty h property value).addChange change) := by
  intro hs
  change c.realm.world.KeptBut c.Addresses (t.setProperty h property value).realm.world
  unfold setProperty
  rw [ht.realm]
  split
  · exact hs.modifyInstance (fun _ => rfl) fun place => addresses_owner hs howner ho
  · exact hs

end Stage

section

variable {c : Call} {parameters : Record}

theorem composes_within : (c.scope parameters).Composes
    (fun effect => effect.Unpopulating ∧ effect.setOwners ⊆ c.event.setOwners)
    (Moves (Stage.Within c)) where
  parts h _ hpart :=
    ⟨fun node hnode => h.1 node (Expr.nodes_subset_of_child hpart hnode),
      List.Subset.trans (Expr.setOwners_subset hpart) h.2⟩
  done := .of_pure _
  next h hrest := .of_bind h fun _ => hrest
  warn _ := .of_modify fun _ hs => hs
  reject _ := .of_throw _
  assign h := moves_assignProperty Stage.Aside.within fun ho _ hu _ _ =>
    Stage.within_assigned (h.2 (List.mem_singleton_self _)) ho hu
  create h := nomatch h.1 _ (Expr.mem_nodes _)
  remove h := nomatch h.1 _ (Expr.mem_nodes _)

theorem within_applyWeighted {label : String} {weighted : List WeightedEffect}
    (h : ∀ w ∈ weighted, w.effect.Unpopulating ∧ w.effect.setOwners ⊆ c.event.setOwners) :
    Moves (Stage.Within c) (applyWeighted (c.scope parameters) label weighted) :=
  composes_within.applyWeighted (fun _ _ => moves_applyWeighted_cons fun _ _ _ hs => hs) h

theorem within_callAct (hsettled : c.event.Unpopulating) :
    Moves (Stage.Within c) (c.act (c.scope parameters)) :=
  composes_within.callAct
    (fun effect he => ⟨hsettled.effect effect he, EventDecl.setOwners_of_effect he⟩)
    (within_applyWeighted fun w hw =>
      ⟨hsettled.weighted w hw, EventDecl.setOwners_of_weighted hw⟩)

end

/-! ### Events -/

def Request.Sourced (r : Request) (programs : Programs) : Prop :=
  ∀ p, programs r.specification = some p → ∃ source, registrable source = .ok p

theorem keptBut_runEvent {programs : Programs} {r : Request} (h : r.Sourced programs) (a : Arena) :
    Arena.Along (World.KeptBut (r.Addresses programs a.realms)) r.worldId a
      ((runEvent programs r).run.run a).2 := by
  refine along_runEvent_of_act (fun w stamp => w.keptBut_touch stamp) fun c hfound ambient => ?_
  obtain ⟨type, id, event, p, -, -, -, hp, -, hentity, -, hevent⟩ := call_eq_ok hfound
  obtain ⟨source, hsource⟩ := h p hp
  have hsettled : c.event.Unpopulating := settled_of_registrable hsource c.entity
    (List.mem_of_find?_eq_some hentity) c.event (List.mem_of_find?_eq_some hevent)
  have hmoves : Moves (Stage.Within c) (c.act (c.scope r.parameters)) := within_callAct hsettled
  have hkept := hmoves ⟨c.realm, [], [], [], ambient⟩ (Std.Refl.refl _)
  exact ⟨hkept.apart, hkept.lineup, fun type place hnone =>
    hkept.unaddressed type place fun haddressed => hnone ⟨c, hfound, haddressed⟩⟩

/-- Whatever comes of an event of a registered program, all other worlds stay, and in its own world
at most the states of the instances that it is about are others, and the stamp. Nobody comes or goes
or changes places, and neither variables nor history nor clock change. -/
theorem runEvent_keeps_unaddressed {programs : Programs} {r : Request}
    (hregistered : ∀ p, programs r.specification = some p →
      ∃ source, registrable source = .ok p) (a : Arena) :
    let b := ((runEvent programs r).run.run a).2
    (∀ id, id ≠ r.worldId → b.realms.get? id = a.realms.get? id) ∧
    ∀ w, a.world? r.worldId = some w → ∃ v, b.world? r.worldId = some v ∧
      (∃ entities stamp, v = { w with entities, stamp }) ∧ v.lineup = w.lineup ∧
      ∀ type place, ¬ r.Addresses programs a.realms type place →
        (v.instances type)[place]? = (w.instances type)[place]? := by
  intro b
  have halong := keptBut_runEvent hregistered a
  refine ⟨halong.others, fun w hw => ?_⟩
  obtain ⟨v, hv, hkept⟩ := halong.own w hw
  exact ⟨v, hv, hkept.apart, hkept.lineup, hkept.unaddressed⟩

/-- A hero strikes: he gains, a goblin and an elf lose, and then he aims at somebody who is not
there. -/
def feud : String :=
  "Entity Hero \x7b Event strike \x7b target: Goblin effect: Self.hp += 1 " ++
  "effect: Target.hp = 5 P[Elf.hp = 2] = 1 P[Nobody.hp = 0] = 1 \x7d \x7d " ++
  "Entity Goblin { } Entity Elf { }"

def feuding (type id : String) : Instance := ⟨id, type, [("hp", .int 9)], []⟩

def feudWorld : World where
  time := 3
  step := 2
  entities := [("Hero", [feuding "Hero" "a", feuding "Hero" "b", feuding "Hero" "c"]),
    ("Goblin", [feuding "Goblin" "a", feuding "Goblin" "b"]),
    ("Elf", [feuding "Elf" "a", feuding "Elf" "b"])]
  vars := baseVariables
  history := []
  totalSteps := 2
  stamp := 0

def feudArena : Arena := ⟨[("world", ⟨[], feudWorld⟩)], ⟨[], .cyclic [0] 0, 0, 0, []⟩⟩

def feudPrograms : Programs := fun _ => (registrable feud).toOption

def feudRequest : Request :=
  ⟨"spec", some "world", some "Hero", some "b", some "strike", none, []⟩

def World.hitPoints (w : World) : List (List String) :=
  w.entities.map fun (_, is) => is.filterMap fun i => (i.state.get? "hp").map Value.text

/-- The event fails at its end. The second hero and the first goblin and elf have changed by then;
the other heroes, goblins and elves have not. -/
theorem runEvent_keeps_unaddressed_feud :
    (∀ p, feudPrograms feudRequest.specification = some p → ∃ source, registrable source = .ok p) ∧
    ∃ v, ((runEvent feudPrograms feudRequest).run.run feudArena).2.world? "world" = some v ∧
      v.hitPoints = [["9", "10", "9"], ["5", "9"], ["2", "9"]] ∧
      v.vars = feudWorld.vars ∧
      (v.instances "Hero")[0]? = some (feuding "Hero" "a") ∧
      (v.instances "Goblin")[1]? = some (feuding "Goblin" "b") := by
  have hregistered : ∀ p, feudPrograms feudRequest.specification = some p →
      ∃ source, registrable source = .ok p := by
    intro p hp
    unfold feudPrograms at hp
    cases hsource : registrable feud with
    | error refusal =>
      rw [hsource] at hp
      cases hp
    | ok q =>
      rw [hsource] at hp
      cases hp
      exact ⟨feud, hsource⟩
  have hpoints : (((runEvent feudPrograms feudRequest).run.run feudArena).2.world? "world").map
      World.hitPoints = some [["9", "10", "9"], ["5", "9"], ["2", "9"]] := by
    decide +kernel
  have hcall : (feudRequest.call feudPrograms feudArena.realms).toOption.map (fun c =>
      (c.entity.name, (c.realm.world.instances "Hero").findIdx? (·.id == c.actor.id),
        c.event.target, c.event.setOwners)) =
      some ("Hero", some 1, some "Goblin", ["Self", "Target", "Elf", "Nobody"]) := by
    decide +kernel
  have hspared {type : String} {place : Nat}
      (h : feudRequest.Addresses feudPrograms feudArena.realms type place) :
      (type = "Hero" ∧ place = 1) ∨ place = 0 ∧ type ≠ "Hero" := by
    obtain ⟨c, hc, haddressed⟩ := h
    rw [hc] at hcall
    have hcall := Option.some.inj hcall
    simp only [Prod.mk.injEq] at hcall
    obtain ⟨hname, hplace, htarget, howners⟩ := hcall
    cases haddressed with
    | acting hfound =>
      rw [hname, hplace] at hfound
      exact .inl ⟨hname, (Option.some.inj hfound).symm⟩
    | target htype =>
      obtain rfl := Option.some.inj (htarget.symm.trans htype)
      exact .inr ⟨rfl, by decide⟩
    | owner hmem =>
      rw [howners] at hmem
      exact .inr ⟨rfl, fun htype => absurd (htype ▸ hmem) (by decide)⟩
  obtain ⟨-, hown⟩ := runEvent_keeps_unaddressed hregistered feudArena
  obtain ⟨v, hv, ⟨_, _, hsame⟩, -, hunaddressed⟩ := hown feudWorld rfl
  have hv : ((runEvent feudPrograms feudRequest).run.run feudArena).2.world? "world" = some v := hv
  rw [hv] at hpoints
  refine ⟨hregistered, v, hv, Option.some.inj hpoints, by rw [hsame], ?_, ?_⟩
  · exact hunaddressed "Hero" 0 fun h => by simpa using hspared h
  · exact hunaddressed "Goblin" 1 fun h => by simpa using hspared h

end StepWorld
