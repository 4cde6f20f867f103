import StepWorld.Proofs.World.Addressed
import StepWorld.Proofs.World.Rolls

/-! Effects read their own writes. What an event binds when it begins are places, and nobody comes or
goes while it runs, so that at every point `Self` and `Target` have the properties that stand in the
world by then, whichever name they were set under. -/

namespace StepWorld

/-! ### Places -/

namespace World

variable {v w : World}

theorem bare_first? (h : v.lineup = w.lineup) (type : String) :
    (v.first? type).map Instance.bare = (w.first? type).map Instance.bare := by
  unfold first?
  rw [← List.head?_map, map_bare_instances h, List.head?_map]

theorem bare_find? (h : v.lineup = w.lineup) (type id : String) :
    (v.find? type id).map Instance.bare = (w.find? type id).map Instance.bare := by
  have hbare (is : List Instance) : (is.find? (·.id == id)).map Instance.bare =
      (is.map Instance.bare).find? (·.id == id) := by
    rw [List.find?_map]
    rfl
  unfold find?
  rw [hbare, hbare, map_bare_instances h]

theorem find?_modifyInstance {f : Instance → Instance} (hf : ∀ i, (f i).id = i.id)
    (w : World) (type id : String) :
    (w.modifyInstance type id f).find? type id = (w.find? type id).map f := by
  unfold find?
  rw [instances_modifyInstance, if_pos rfl]
  induction w.instances type with
  | nil => rfl
  | cons first rest ih =>
    unfold modifyFirst
    by_cases hid : first.id = id
    · simp [hf, hid]
    · simp [hid, ih]

end World

namespace Stage

variable {c : Call} {parameters : Record} {s t : Stage} {k : Handle}

theorem owner?_of_lineup (h : t.realm.world.lineup = s.realm.world.lineup) (scope : Scope)
    (owner : String) : t.owner? scope owner = s.owner? scope owner := by
  have hfirst (type : String) : (t.realm.world.first? type).map (fun i => (⟨type, i.id⟩ : Handle)) =
      (s.realm.world.first? type).map fun i => ⟨type, i.id⟩ := by
    have hbare := congrArg (Option.map fun i => (⟨type, i.id⟩ : Handle)) (World.bare_first? h type)
    rw [Option.map_map, Option.map_map] at hbare
    exact hbare
  unfold owner?
  simp only [hfirst]

theorem stateOf_of_find? {i : Instance} (h : s.realm.world.find? k.type k.id = some i) :
    s.stateOf k = some i.state := by
  unfold stateOf instance?
  rw [h]
  rfl

def ownerNow (s : Stage) (scope : Scope) (owner : String) : Option Instance :=
  (s.owner? scope owner).bind fun k => s.realm.world.find? k.type k.id

section

variable (hlineup : s.realm.world.lineup = c.realm.world.lineup)
  (hactor : (c.realm.world.find? c.entity.name c.actor.id).isSome)

include hlineup hactor

theorem acting_found : ∀ k, (c.scope parameters).acting = some k →
    (s.realm.world.find? k.type k.id).isSome := by
  rintro k hk
  obtain rfl := Option.some.inj hk
  have hbare := congrArg Option.isSome (World.bare_find? hlineup c.entity.name c.actor.id)
  rw [Option.isSome_map, Option.isSome_map] at hbare
  exact hbare.trans hactor

theorem fieldOf_owner (owner property : String) :
    Bindings.fieldOf ((s.owner? (c.scope parameters) owner).bind s.stateOf) property =
      ((s.ownerNow (c.scope parameters) owner).bind (·.state.get? property)).getD .null := by
  unfold ownerNow
  cases ho : s.owner? (c.scope parameters) owner with
  | none => rfl
  | some k =>
    obtain ⟨i, hi⟩ := find_owner (acting_found hlineup hactor) ho
    rw [Option.bind_some, Option.bind_some, stateOf_of_find? hi, hi]
    rfl

theorem evaluate_owner {owner : String} (howner : owner = "Self" ∨ owner = "Target")
    (property : String) :
    evaluate defaultPlaceholder (s.bindings (c.scope parameters)) (.property owner property) =
      pure (((s.ownerNow (c.scope parameters) owner).bind (·.state.get? property)).getD .null) := by
  rw [← fieldOf_owner hlineup hactor]
  rcases howner with rfl | rfl
  · rfl
  · have htarget := owner?_of_lineup (s := ⟨c.realm, [], [], [], s.ambient⟩) hlineup
      (c.scope parameters) "Target"
    rw [htarget]
    rfl

end

end Stage

/-! ### Points of an event -/

/-- Applying an effect comes to one of its parts, at the stage that the parts before it leave. -/
inductive Scope.Begins (scope : Scope) : Expr → Stage → Expr → Stage → Prop
  | whole (effect : Expr) (s : Stage) : scope.Begins effect s effect s
  | part {before after : List Expr} {effect inner : Expr} {s t u : Stage} :
      (applyEffects scope before).run.run s = (.ok (), t) → scope.Begins effect t inner u →
      scope.Begins (.sequence (before ++ effect :: after)) s inner u

/-- Where an event comes: to its requirement, and once that is met, to the parts of its effect and
of each weighted effect that fires. -/
inductive Call.Reaches (c : Call) (r : Request) (a : Arena) : Expr → Stage → Prop
  | requirement {condition : Expr} : c.event.condition = some condition →
      c.Reaches r a condition (c.begun a)
  | effect {effect part : Expr} {b : Arena} {s : Stage} : c.check r a = (.ok true, b) →
      c.event.effect = some effect →
      (c.scope r.parameters).Begins effect (c.begun b) part s → c.Reaches r a part s
  | weighted {i : Nat} {w : WeightedEffect} {part : Expr} {b : Arena} {s t : Stage} :
      c.check r a = (.ok true, b) → c.event.weighted[i]? = some w →
      ((c.upTo i).act (c.scope r.parameters)).run.run (c.begun b) = (.ok (), s) →
      w.firesOn s.ambient.chance.draw.1 →
      (c.scope r.parameters).Begins w.effect (s.roll c.label w) part t → c.Reaches r a part t

section

variable {c : Call} {parameters : Record} {r : Request} {a : Arena} {effect part : Expr}
  {s t : Stage}

theorem Scope.Begins.kept (h : (c.scope parameters).Begins effect s part t)
    (hsettled : effect.Unpopulating) (howners : effect.setOwners ⊆ c.event.setOwners)
    (hs : c.realm.world.KeptBut c.Addresses s.realm.world) :
    c.realm.world.KeptBut c.Addresses t.realm.world := by
  generalize hscope : c.scope parameters = scope at h
  induction h with
  | whole effect s => exact hs
  | @part before after effect inner s t u hbefore hrest ih =>
    have hcomposes : (c.scope parameters).Composes _ (Moves (Stage.Within c)) := composes_within
    have hparts := hcomposes.parts ⟨hsettled, howners⟩
    have hmoves : Moves (Stage.Within c) (applyEffects (c.scope parameters) before) :=
      hcomposes.applyEffects fun part hpart => hparts part (List.mem_append_left _ hpart)
    have hkept := hmoves s hs
    rw [hscope, hbefore] at hkept
    obtain ⟨hsettled, howners⟩ := hparts effect (List.mem_append_right _ List.mem_cons_self)
    exact ih hsettled howners hkept

theorem within_upTo (hsettled : c.event.Unpopulating) (n : Nat) :
    Moves (Stage.Within c) ((c.upTo n).act (c.scope parameters)) := by
  have hweighted : Moves (Stage.Within c)
      (applyWeighted (c.scope parameters) c.label (c.event.weighted.take n)) :=
    within_applyWeighted fun w hw => ⟨hsettled.weighted w (List.mem_of_mem_take hw),
      EventDecl.setOwners_of_weighted (List.mem_of_mem_take hw)⟩
  have heffect : Moves (Stage.Within c)
      (applyEffects (c.scope parameters) c.event.effect.toList) :=
    composes_within.applyEffects fun effect heffect =>
      have he := Option.mem_toList.mp heffect
      ⟨hsettled.effect effect he, EventDecl.setOwners_of_effect he⟩
  rw [Call.act_eq]
  exact .of_bind heffect fun _ => hweighted

theorem Call.Reaches.kept (h : c.Reaches r a part s) (hsettled : c.event.Unpopulating) :
    c.realm.world.KeptBut c.Addresses s.realm.world := by
  cases h with
  | requirement => exact Std.Refl.refl _
  | effect _ heffect hbegins =>
    exact hbegins.kept (hsettled.effect _ heffect) (EventDecl.setOwners_of_effect heffect)
      (Std.Refl.refl _)
  | @weighted i w _ b s _ _ hw hupTo _ hbegins =>
    have hmem : w ∈ c.event.weighted := List.mem_of_getElem? hw
    have hmoves : Moves (Stage.Within c) ((c.upTo i).act (c.scope r.parameters)) :=
      within_upTo hsettled i
    have hkept := hmoves (c.begun b) (Std.Refl.refl _)
    rw [hupTo] at hkept
    obtain ⟨chance, lines, hroll⟩ := s.roll_eq c.label w
    refine hbegins.kept (hsettled.weighted w hmem) (EventDecl.setOwners_of_weighted hmem) ?_
    rw [hroll]
    exact hkept

end

/-! ### Writes -/

/-- What became of an assignment. It is listed as one change of the instance that its owner meant,
a plain one to the value that its right side had with what was bound by then, and every owner that
meant this instance reads the new value. -/
structure Scope.Wrote (scope : Scope) (op owner property : String) (value : Expr) (s t : Stage)
    (change : Change) : Prop where
  listed : t.changes = s.changes ++ [change]
  names : change.property? = some property
  target : (s.owner? scope owner).map Handle.id = some change.target
  plain : op = "=" → ((evaluate defaultPlaceholder (s.bindings scope) value).run.run
    s.ambient.chance).1 = .ok change.new
  read (name : String) (hname : name = "Self" ∨ name = "Target")
    (hsame : s.owner? scope name = s.owner? scope owner) :
    evaluate defaultPlaceholder (t.bindings scope) (.property name property) = pure change.new

section

variable {scope : Scope} {op owner property : String} {value : Expr} {s t : Stage}

theorem Act.eval_eq_ok {α : Type} {x : Eval α} {a : α}
    (h : (Act.eval x).run.run s = (.ok a, t)) : (x.run.run s.ambient.chance).1 = .ok a := by
  unfold Act.eval at h
  simp only [ExceptT.run, ExceptT.mk, StateT.run] at h ⊢
  generalize x s.ambient.chance = evaluated at h ⊢
  obtain ⟨result, chance⟩ := evaluated
  cases result with
  | ok value =>
    cases h
    rfl
  | error fault => cases h

/-- An assignment that ends well has set one property of its owner, and nothing else. -/
theorem assigned_of_assignProperty
    (h : (assignProperty scope op owner property value).run.run s = (.ok (), t)) :
    ∃ k u change, s.owner? scope owner = some k ∧ Stage.Aside s u ∧ change.target = k.id ∧
      change.property? = some property ∧
      (op = "=" → ((evaluate defaultPlaceholder (s.bindings scope) value).run.run
        s.ambient.chance).1 = .ok change.new) ∧
      Stage.Aside ((u.setProperty k property change.new).addChange change) t := by
  unfold assignProperty at h
  rw [run_get_bind] at h
  cases hk : s.owner? scope owner with
  | none =>
    rw [hk] at h
    cases h
  | some k =>
    rw [hk] at h
    dsimp only at h
    rw [run_get_bind] at h
    obtain ⟨value', r, heval, h⟩ := run_bind_eq_ok.mp h
    have hr := Act.aside_eval (evaluate defaultPlaceholder (s.bindings scope) value) s
    rw [heval] at hr
    rw [run_get_bind] at h
    have hshown {u : Stage} {old new : Value} {change : Change}
        (hrun : (do
          modify fun s => (s.setProperty k property new).addChange change
          showChange k property old new : Act Unit).run.run u = (.ok (), t)) :
        Stage.Aside ((u.setProperty k property new).addChange change) t := by
      obtain ⟨_, v, hset, hrun⟩ := run_bind_eq_ok.mp hrun
      cases hset
      have ht := aside_showChange k property old new
        ((u.setProperty k property new).addChange change)
      rwa [hrun] at ht
    generalize ((r.stateOf k).bind (Table.get? property)).getD .null = old at h
    split at h
    · exact ⟨k, r, .assigned k.id property old value', rfl, hr, rfl, rfl,
        fun _ => Act.eval_eq_ok heval, hshown h⟩
    · next hop =>
      obtain ⟨new, u, hmodified, h⟩ := run_bind_eq_ok.mp h
      have hu := aside_modifiedValue op owner property old value' r
      rw [hmodified] at hu
      exact ⟨k, u, .modified k.id property old new, rfl, Trans.trans hr hu, rfl, rfl,
        fun hplain => absurd hplain hop, hshown h⟩

variable {c : Call} {parameters : Record}

theorem wrote_of_assignProperty (hlineup : s.realm.world.lineup = c.realm.world.lineup)
    (hactor : (c.realm.world.find? c.entity.name c.actor.id).isSome)
    (h : (assignProperty (c.scope parameters) op owner property value).run.run s = (.ok (), t)) :
    ∃ change, (c.scope parameters).Wrote op owner property value s t change := by
  obtain ⟨k, u, change, hk, hu, htarget, hproperty, hvalue, ht⟩ := assigned_of_assignProperty h
  obtain ⟨i, hi⟩ := Stage.find_owner (Stage.acting_found hlineup hactor) hk
  have hset : u.setProperty k property change.new = u.setWorld
      (s.realm.world.modifyInstance k.type k.id (·.setProperty property change.new)) := by
    unfold Stage.setProperty
    rw [hu.realm, hi]
    rfl
  rw [hset] at ht
  have hid (j : Instance) : (j.setProperty property change.new).id = j.id := rfl
  have hbare (j : Instance) : (j.setProperty property change.new).bare = j.bare := rfl
  have hsame : t.realm.world.lineup = s.realm.world.lineup := by
    rw [ht.realm]
    exact World.lineup_modifyInstance hbare _ _ _
  refine ⟨change, ?_, hproperty, by rw [hk, htarget]; rfl, hvalue, fun name hname howner => ?_⟩
  · rw [ht.changes]
    exact congrArg (· ++ [change]) hu.changes
  · have hnow : t.ownerNow (c.scope parameters) name =
        some (i.setProperty property change.new) := by
      unfold Stage.ownerNow
      rw [Stage.owner?_of_lineup hsame, howner, hk, ht.realm, Option.bind_some]
      show (s.realm.world.modifyInstance k.type k.id _).find? k.type k.id = _
      rw [World.find?_modifyInstance hid, hi]
      rfl
    rw [Stage.evaluate_owner (hsame.trans hlineup) hactor hname, hnow, Option.bind_some]
    show pure (((i.state.put property change.new).get? property).getD .null) = _
    rw [Table.get?_put_self]
    rfl

end

/-- What `Self` and `Target` come to at a stage: the properties that the acting instance and the
first one of the type that is aimed at have in its world. -/
structure Call.ReadsWorld (c : Call) (scope : Scope) (s : Stage) : Prop where
  acting : ∃ i, s.realm.world.find? c.entity.name c.actor.id = some i ∧ ∀ property,
    evaluate defaultPlaceholder (s.bindings scope) (.property "Self" property) =
      pure ((i.state.get? property).getD .null)
  target (property : String) :
    evaluate defaultPlaceholder (s.bindings scope) (.property "Target" property) =
      pure (((c.event.target.bind s.realm.world.first?).bind (·.state.get? property)).getD .null)

theorem Call.readsWorld {c : Call} {parameters : Record} {s : Stage}
    (hlineup : s.realm.world.lineup = c.realm.world.lineup)
    (hactor : (c.realm.world.find? c.entity.name c.actor.id).isSome) :
    c.ReadsWorld (c.scope parameters) s where
  acting := by
    have hfound : ∀ k, (c.scope parameters).acting = some k →
        (s.realm.world.find? k.type k.id).isSome := Stage.acting_found hlineup hactor
    obtain ⟨i, hi⟩ := Option.isSome_iff_exists.mp (hfound _ rfl)
    refine ⟨i, hi, fun property => ?_⟩
    have hnow : s.ownerNow (c.scope parameters) "Self" = some i := hi
    rw [Stage.evaluate_owner hlineup hactor (.inl rfl), hnow]
    rfl
  target property := by
    have hnow : s.ownerNow (c.scope parameters) "Target" =
        c.event.target.bind s.realm.world.first? := by
      show (c.event.target.bind fun type =>
        (s.realm.world.first? type).map fun i => (⟨type, i.id⟩ : Handle)).bind _ = _
      cases c.event.target with
      | none => rfl
      | some type =>
        rw [Option.bind_some, Option.bind_some]
        cases hi : s.realm.world.first? type with
        | none => rfl
        | some i => exact World.find?_of_first? hi
    rw [Stage.evaluate_owner hlineup hactor (.inr rfl), hnow]

/-- Wherever an event of a registered program comes, `Self` and `Target` have the properties that
stand in the world by then. An assignment works out its value with them, and after it they have that
value, whichever owner it named. -/
theorem reads_own_writes {programs : Programs} {r : Request} {a : Arena} {c : Call} {part : Expr}
    {s : Stage} (hregistered : ∀ p, programs r.specification = some p →
      ∃ source, registrable source = .ok p)
    (hcall : r.call programs a.realms = .ok c) (hreaches : c.Reaches r a part s) :
    c.ReadsWorld (c.scope r.parameters) s ∧
    ∀ op owner property value t, part = .assignment op (.property owner property) value →
      (applyEffect (c.scope r.parameters) part).run.run s = (.ok (), t) →
      ∃ change, (c.scope r.parameters).Wrote op owner property value s t change := by
  obtain ⟨type, id, event, p, -, -, -, hp, -, hentity, -, hevent⟩ := call_eq_ok hcall
  obtain ⟨source, hsource⟩ := hregistered p hp
  have hsettled : c.event.Unpopulating := settled_of_registrable hsource c.entity
    (List.mem_of_find?_eq_some hentity) c.event (List.mem_of_find?_eq_some hevent)
  have hlineup := (hreaches.kept hsettled).lineup
  have hactor : (c.realm.world.find? c.entity.name c.actor.id).isSome := by
    rw [(call_found hcall).2]
    rfl
  refine ⟨Call.readsWorld hlineup hactor, ?_⟩
  rintro op owner property value t rfl hrun
  exact wrote_of_assignProperty hlineup hactor hrun

/-- Heroes heal: one is set to five hit points as the target, and gets as many again as the first
of the heroes. -/
def healing : String :=
  "Entity Hero \x7b Event heal \x7b target: Hero effect: Target.hp = 5 " ++
  "P[Hero.hp += Self.hp] = 1 P[Self.mp = Target.hp] = 1 \x7d \x7d"

def healWorld : World where
  time := 0
  step := 0
  entities := [("Hero", [⟨"a", "Hero", [("hp", .int 1)], []⟩, ⟨"b", "Hero", [("hp", .int 9)], []⟩])]
  vars := baseVariables
  history := []
  totalSteps := 0
  stamp := 0

def healArena : Arena := ⟨[("world", ⟨[], healWorld⟩)], ⟨[], .cyclic [0] 0, 0, 0, []⟩⟩

def healPrograms : Programs := fun _ => (registrable healing).toOption

def healRequest : Request :=
  ⟨"spec", some "world", some "Hero", some "a", some "heal", none, []⟩

def Call.weightedPoint? (c : Call) (r : Request) (a : Arena) (i : Nat) : Option (Expr × Stage) :=
  match c.check r a, c.event.weighted[i]? with
  | (.ok true, b), some w =>
    match ((c.upTo i).act (c.scope r.parameters)).run.run (c.begun b) with
    | (.ok (), s) =>
      if w.firesOn s.ambient.chance.draw.1 then some (w.effect, s.roll c.label w) else none
    | _ => none
  | _, _ => none

theorem Call.reaches_of_weightedPoint? {c : Call} {r : Request} {a : Arena} {i : Nat} {part : Expr}
    {s : Stage} (h : c.weightedPoint? r a i = some (part, s)) : c.Reaches r a part s := by
  unfold weightedPoint? at h
  split at h
  · next b w hcheck hw =>
    split at h
    · next t hupTo =>
      split at h
      · next hfires =>
        cases h
        exact .weighted hcheck hw hupTo hfires (.whole _ _)
      · cases h
    · cases h
  · cases h

theorem healPoint : (healRequest.call healPrograms healArena.realms).toOption.bind (fun c =>
    (c.weightedPoint? healRequest healArena 1).map fun (_, s) =>
      (c.entity.name, c.actor.id, c.event.target,
        (s.realm.world.first? "Hero").map fun i => (i.id, (i.state.get? "hp").map Value.text))) =
    some ("Hero", "a", some "Hero", some ("a", some "10")) := by decide +kernel

/-- The acting hero is the target, and the first hero too. He reads what was set under all names. -/
theorem reads_own_writes_healing : ∃ c part s hp,
    healRequest.call healPrograms healArena.realms = .ok c ∧
    c.Reaches healRequest healArena part s ∧
    evaluate defaultPlaceholder (s.bindings (c.scope [])) (.property "Self" "hp") = pure hp ∧
    evaluate defaultPlaceholder (s.bindings (c.scope [])) (.property "Target" "hp") = pure hp ∧
    hp.text = "10" := by
  obtain ⟨c, hc, hpoint⟩ := Option.bind_eq_some_iff.mp healPoint
  obtain ⟨⟨part, s⟩, hpart, hfacts⟩ := Option.map_eq_some_iff.mp hpoint
  simp only [Prod.mk.injEq] at hfacts
  obtain ⟨hname, hid, htarget, hfirst⟩ := hfacts
  obtain ⟨i, hi, hfacts⟩ := Option.map_eq_some_iff.mp hfirst
  obtain ⟨hfirstId, hstate⟩ := Prod.mk.inj hfacts
  obtain ⟨hp, hhp, htext⟩ := Option.map_eq_some_iff.mp hstate
  have hcall : healRequest.call healPrograms healArena.realms = .ok c :=
    toOption_eq_some_iff.mp hc
  have hreaches := Call.reaches_of_weightedPoint? hpart
  obtain ⟨⟨⟨j, hj, hself⟩, haimed⟩, -⟩ := reads_own_writes
    (fun p hp => ⟨healing, toOption_eq_some_iff.mp hp⟩) hcall hreaches
  obtain rfl : j = i := by
    have hfound := World.find?_of_first? hi
    rw [hfirstId, ← hname, ← hid, hj] at hfound
    exact Option.some.inj hfound
  refine ⟨c, part, s, hp, hcall, hreaches, ?_, ?_, htext⟩
  · have hself := hself "hp"
    rw [hhp] at hself
    exact hself
  · have haimed := haimed "hp"
    rw [htarget, Option.bind_some, hi, Option.bind_some, hhp] at haimed
    exact haimed

end StepWorld
