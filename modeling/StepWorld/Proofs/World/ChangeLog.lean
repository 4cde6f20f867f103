import StepWorld.Proofs.World.Replay

/-! The log of an event is exact. Whatever an effect does to a world stands in its list of
changes, in order and with the old values, also where it stops halfway. -/

namespace StepWorld

mutual

def Expr.removals : Expr → List Handle
  | .sequence parts => removalsOf parts
  | .remove type id => [⟨type, id⟩]
  | _ => []

def Expr.removalsOf : List Expr → List Handle
  | [] => []
  | part :: rest => part.removals ++ removalsOf rest

end

theorem Expr.removals_subset {effects : List Expr} {part : Expr} (h : part ∈ effects) :
    part.removals ⊆ removalsOf effects := by
  induction h with
  | head rest => exact List.subset_append_left _ _
  | tail effect _ ih => exact List.subset_append_of_subset_right _ ih

def EventDecl.removals (event : EventDecl) : List Handle :=
  event.effect.elim [] Expr.removals ++ event.weighted.flatMap (·.effect.removals)

namespace Stage

/-- Whether a stage is fit for effects. Its instances have ids of their own, which are not issued
again, and the acting instance is there. -/
structure Sound (s : Stage) (scope : Scope) : Prop where
  distinct : s.realm.world.ids.Nodup
  unused : ∀ type n, s.ambient.issued < n → numberedId type n ∉ s.realm.world.ids
  acting : ∀ h, scope.acting = some h → (s.realm.world.find? h.type h.id).isSome

structure Aside (s t : Stage) : Prop where
  realm : t.realm = s.realm
  changes : t.changes = s.changes
  issued : t.ambient.issued = s.ambient.issued
  clock : t.ambient.clock = s.ambient.clock

instance : Std.Refl Stage.Aside := ⟨fun _ => ⟨rfl, rfl, rfl, rfl⟩⟩

instance : Trans Stage.Aside Stage.Aside Stage.Aside :=
  ⟨fun h h' => ⟨h'.realm.trans h.realm, h'.changes.trans h.changes, h'.issued.trans h.issued,
    h'.clock.trans h.clock⟩⟩

theorem Aside.sound {s t : Stage} {scope : Scope} (h : Aside s t) (hs : s.Sound scope) :
    t.Sound scope := by
  refine ⟨?_, ?_, ?_⟩ <;> rw [h.realm]
  · exact hs.distinct
  · rw [h.issued]
    exact hs.unused
  · exact hs.acting

/-- From a sound stage to a sound stage. The changes that were added to the list lead from one
world to the other, and each of them fits. -/
structure Logged (scope : Scope) (s t : Stage) : Prop where
  sound : t.Sound scope
  blueprint : t.realm.blueprint = s.realm.blueprint
  clock : t.ambient.clock = s.ambient.clock
  log : ∃ added, t.changes = s.changes ++ added ∧
    Change.FitAll s.realm.blueprint s.realm.world added ∧
      t.realm.world = Change.replayAll s.realm.blueprint s.realm.world added

def Logs (scope : Scope) (s t : Stage) : Prop := s.Sound scope → Logged scope s t

variable {scope : Scope} {s t u : Stage}

theorem Aside.logs (h : Aside s t) : Logs scope s t := fun hs =>
  ⟨h.sound hs, by rw [h.realm], h.clock, [], by simp [h.changes], trivial, by rw [h.realm]; rfl⟩

theorem Logged.trans (h : Logged scope s t) (h' : Logged scope t u) : Logged scope s u := by
  obtain ⟨first, hchanges, hfit, hworld⟩ := h.log
  obtain ⟨second, hchanges', hfit', hworld'⟩ := h'.log
  rw [h.blueprint, hworld] at hfit' hworld'
  refine ⟨h'.sound, h'.blueprint.trans h.blueprint, h'.clock.trans h.clock, first ++ second, ?_, ?_, ?_⟩
  · rw [hchanges', hchanges, List.append_assoc]
  · exact Change.fitAll_append.mpr ⟨hfit, hfit'⟩
  · rw [hworld', Change.replayAll_append]

instance : Std.Refl (Stage.Logs scope) := ⟨fun s => Aside.logs (Std.Refl.refl s)⟩

theorem Logs.trans (h : Logs scope s t) (h' : Logs scope t u) : Logs scope s u :=
  fun hs => (h hs).trans (h' (h hs).sound)

instance : Trans (Stage.Logs scope) (Stage.Logs scope) (Stage.Logs scope) := ⟨Logs.trans⟩

theorem logs_change {change : Change} (world : World) {issued : Nat}
    (hissued : t.ambient.issued = issued) (hclock : t.ambient.clock = s.ambient.clock)
    (hblueprint : t.realm.blueprint = s.realm.blueprint) (hchanges : t.changes = s.changes ++ [change]) (hworld : t.realm.world = world)
    (hfits : s.Sound scope → change.Fits s.realm.blueprint s.realm.world ∧
      world = change.replay s.realm.blueprint s.realm.world)
    (hsound : s.Sound scope → world.ids.Nodup ∧
      (∀ type n, issued < n → numberedId type n ∉ world.ids) ∧
      ∀ h, scope.acting = some h → (world.find? h.type h.id).isSome) : Logs scope s t := by
  subst hissued hworld
  intro hs
  obtain ⟨hfit, hreplay⟩ := hfits hs
  obtain ⟨hdistinct, hunused, hacting⟩ := hsound hs
  exact ⟨⟨hdistinct, hunused, hacting⟩, hblueprint, hclock, [change], hchanges, ⟨hfit, trivial⟩, hreplay⟩

theorem find_owner {owner : String} {h : Handle}
    (hacting : ∀ h, scope.acting = some h → (s.realm.world.find? h.type h.id).isSome)
    (ho : s.owner? scope owner = some h) : ∃ i, s.realm.world.find? h.type h.id = some i := by
  have hfirst {type : String} (hf : (s.realm.world.first? type).map
      (fun i => (⟨type, i.id⟩ : Handle)) = some h) :
      ∃ i, s.realm.world.find? h.type h.id = some i := by
    obtain ⟨i, hi, rfl⟩ := Option.map_eq_some_iff.mp hf
    exact ⟨i, World.find?_of_first? hi⟩
  unfold owner? at ho
  dsimp only at ho
  split at ho
  · exact Option.isSome_iff_exists.mp (hacting h ho)
  · split at ho
    · obtain ⟨type, -, htype⟩ := Option.bind_eq_some_iff.mp ho
      exact hfirst htype
    · exact hfirst ho

theorem logs_assigned {owner property : String} {old new : Value} {h : Handle} {change : Change}
    (ho : s.owner? scope owner = some h) (ht : Aside s t) (hu : Aside s u)
    (hold : old = ((t.stateOf h).bind (Table.get? property)).getD .null)
    (hchange : change = .assigned h.id property old new ∨
      change = .modified h.id property old new) :
    Logs scope s ((u.setProperty h property new).addChange change) := by
  have hset (hs : s.Sound scope) : u.setProperty h property new =
      u.setWorld (s.realm.world.assign h.id property new) := by
    have hfound : (s.realm.world.find? h.type h.id).isSome :=
      Option.isSome_iff_exists.mpr (find_owner hs.acting ho)
    unfold setProperty
    rw [hu.realm, if_pos hfound, World.modifyInstance_eq_assign hs.distinct hfound]
  intro hs
  rw [hset hs]
  have hblueprint : u.realm.blueprint = s.realm.blueprint := by rw [hu.realm]
  refine logs_change (s.realm.world.assign h.id property new) hu.issued hu.clock hblueprint
    (congrArg (· ++ [change]) hu.changes) rfl (fun _ => ⟨?_, ?_⟩) (fun _ => ⟨?_, ?_, ?_⟩) hs
  · obtain ⟨i, hi⟩ := find_owner hs.acting ho
    have hstate : t.stateOf h = some i.state := by
      simp [stateOf, instance?, ht.realm, hi]
    have hfits : ∃ i, s.realm.world.holder? h.id = some i ∧
        old = (i.state.get? property).getD .null :=
      ⟨i, World.holder?_of_find? hs.distinct hi, by rw [hold, hstate]; rfl⟩
    rcases hchange with rfl | rfl <;> exact hfits
  · rcases hchange with rfl | rfl <;> rfl
  · rw [World.ids_assign]
    exact hs.distinct
  · rw [World.ids_assign]
    exact hs.unused
  · intro h' ha
    rw [World.find?_assign]
    exact hs.acting h' ha

end Stage

open Stage

namespace Act

variable {scope : Scope}

theorem aside_eval {α : Type} (x : Eval α) : Moves Stage.Aside (eval x) := by
  intro s
  unfold eval
  simp only [ExceptT.run, ExceptT.mk, StateT.run]
  split <;> exact ⟨rfl, rfl, rfl, rfl⟩

theorem aside_ofExcept {α : Type} (x : Except Fault α) : Moves Stage.Aside (ofExcept x) := by
  cases x with
  | ok a => exact .of_pure a
  | error f => exact .of_throw _

theorem aside_requireWritable (values : List Value) : Moves Stage.Aside (requireWritable values) := by
  unfold requireWritable
  split
  · exact .of_pure _
  · exact .of_throw _

theorem logs_warn (notice : Notice) : Moves (Stage.Logs scope) (warn notice) :=
  .of_modify fun _ => Aside.logs ⟨rfl, rfl, rfl, rfl⟩

end Act

open Act in
theorem aside_modifiedValue (op owner property : String) (old value : Value) :
    Moves Stage.Aside (modifiedValue op owner property old value) := by
  unfold modifiedValue
  split
  · repeat' split
    all_goals first
      | exact aside_ofExcept _
      | exact .of_throw _
  · exact .of_bind (aside_requireWritable _) fun _ => .of_throw _

theorem aside_debug (s : Stage) (a : Ambient) (hissued : a.issued = s.ambient.issued)
    (hclock : a.clock = s.ambient.clock) (kind : LineKind) (message : Unit → String) :
    Aside s { s with ambient := a.debug kind message } := by
  refine ⟨rfl, rfl, ?_, ?_⟩ <;> unfold Ambient.debug <;> split
  · exact hissued
  · exact hissued
  · exact hclock
  · exact hclock

variable {scope : Scope}

def showChange (h : Handle) (property : String) (old new : Value) : Act Unit := do
  if (← get).ambient.debugs then Act.requireWritable [old, new]
  modify fun s => { s with ambient := s.ambient.debug .deterministic fun _ =>
    h.id ++ "." ++ property ++ ": " ++ old.text ++ " -> " ++ new.text }

theorem aside_showChange (h : Handle) (property : String) (old new : Value) :
    Moves Stage.Aside (showChange h property old new) := by
  unfold showChange
  refine .of_bind .of_get fun s => ?_
  have hdebug (message : Unit → String) : Moves Stage.Aside (modify fun s => { s with
      ambient := s.ambient.debug .deterministic message } : Act Unit) :=
    .of_modify fun s => aside_debug s s.ambient rfl rfl _ _
  dsimp only
  split
  · exact .of_bind (Act.aside_requireWritable _) fun _ => hdebug _
  · exact hdebug _

theorem moves_assignProperty {R : Stage → Stage → Prop} [Trans R R R] {op owner property : String}
    {value : Expr} (haside : ∀ {s t : Stage}, Aside s t → R s t)
    (hassigned : ∀ {s t u : Stage} {old new : Value} {h : Handle} {change : Change},
      s.owner? scope owner = some h → Aside s t → Aside s u →
      old = ((t.stateOf h).bind (Table.get? property)).getD .null →
      (change = .assigned h.id property old new ∨ change = .modified h.id property old new) →
      R s ((u.setProperty h property new).addChange change)) :
    Moves R (assignProperty scope op owner property value) := by
  unfold assignProperty
  refine .of_get_bind fun s => ?_
  split
  · exact haside (Std.Refl.refl s)
  · next h ho =>
    rw [run_get_bind]
    refine Moves.bind_from (Act.aside_eval _ s) (fun t => haside) fun value t ht => ?_
    rw [run_get_bind]
    have hnote {u : Stage} {old new : Value} {change : Change} (hu : Aside s u)
        (hold : old = ((t.stateOf h).bind (Table.get? property)).getD .null)
        (hchange : change = .assigned h.id property old new ∨
          change = .modified h.id property old new) :
        R s (((do
          modify fun s => (s.setProperty h property new).addChange change
          showChange h property old new : Act Unit).run.run u).2) :=
      Moves.bind_from (P := R s) (hassigned ho ht hu hold hchange)
        (fun _ hv => hv) fun _ v hv =>
          Trans.trans hv (haside (aside_showChange h property old new v))
    dsimp only
    split
    · exact hnote ht rfl (.inl rfl)
    · refine Moves.bind_from (P := R s) (aside_modifiedValue _ _ _ _ _ t)
        (fun u hu => haside (Trans.trans ht hu)) fun new u hu => ?_
      exact hnote (Trans.trans ht hu) rfl (.inr rfl)

theorem logs_assignProperty (op owner property : String) (value : Expr) :
    Moves (Stage.Logs scope) (assignProperty scope op owner property value) :=
  moves_assignProperty Aside.logs logs_assigned

theorem logs_createInstance (type : String) (properties : Record) :
    Moves (Stage.Logs scope) (createInstance type properties) := by
  unfold createInstance
  refine .of_get_bind fun s => ?_
  split
  · exact Std.Refl.refl s
  · next entity hentity =>
    let i := entity.instantiate type (numberedId type (s.ambient.issued + 1)) properties
    have hperm := s.realm.world.ids_addInstance i
    refine logs_change (s.realm.world.addInstance i) rfl rfl rfl rfl rfl (fun hs => ?_)
      (fun hs => ⟨?_, fun name n hn => ?_, fun h ha => ?_⟩)
    · refine ⟨⟨hs.unused type _ (Nat.lt_succ_self _), by rw [hentity]; rfl⟩, ?_⟩
      simp [Change.replay, hentity, i]
    · rw [hperm.nodup_iff, List.nodup_cons]
      exact ⟨hs.unused type _ (Nat.lt_succ_self _), hs.distinct⟩
    · rw [hperm.mem_iff, List.mem_cons, not_or]
      refine ⟨fun he => ?_, hs.unused name n (Nat.lt_of_succ_lt hn)⟩
      exact absurd (numberedId_number he) (Nat.ne_of_gt hn)
    · exact World.find?_addInstance i (hs.acting h ha)

theorem logs_removeInstance {type id : String} (h : ∀ k, scope.acting = some k → k ≠ ⟨type, id⟩) :
    Moves (Stage.Logs scope) (removeInstance type id) := by
  unfold removeInstance
  refine .of_get_bind fun s => ?_
  split
  · exact Std.Refl.refl s
  · next i hi =>
    have hfound : (s.realm.world.find? type id).isSome := Option.isSome_iff_exists.mpr ⟨i, hi⟩
    intro hs
    have hremove := World.removeInstance_eq_discard hs.distinct hfound
    refine logs_change (s.realm.world.discard id) rfl rfl rfl rfl hremove (fun hs => ?_)
      (fun hs => ⟨?_, fun name n hn => ?_, fun k ha => ?_⟩) hs
    · exact ⟨⟨i, World.holder?_of_find? hs.distinct hi, rfl⟩, rfl⟩
    · exact hs.distinct.sublist World.ids_discard_sublist
    · exact fun hmem => hs.unused name n hn (World.ids_discard_sublist.subset hmem)
    · rw [World.find?_discard fun hid => ?_]
      · exact hs.acting k ha
      · have hacting := hs.acting k ha
        rw [hid] at hacting
        obtain rfl := World.type_unique hs.distinct hfound hacting
        exact h k ha (by rw [← hid])

theorem composes_logs : scope.Composes (fun effect => ∀ k, scope.acting = some k →
    k ∉ effect.removals) (Moves (Stage.Logs scope)) where
  parts h _ hpart k hk hmem := h k hk (Expr.removals_subset hpart hmem)
  done := .of_pure _
  next h hrest := .of_bind h fun _ => hrest
  warn := Act.logs_warn
  reject _ := .of_throw _
  assign _ := logs_assignProperty _ _ _ _
  create _ := logs_createInstance _ _
  remove h := logs_removeInstance fun k hk he => h k hk (he ▸ List.mem_singleton_self _)

theorem logs_callAct {c : Call} (h : ∀ k, scope.acting = some k → k ∉ c.event.removals) :
    Moves (Stage.Logs scope) (c.act scope) := by
  refine composes_logs.callAct (fun effect he k hk hmem => h k hk ?_) ?_
  · rw [EventDecl.removals, he]
    exact List.mem_append_left _ hmem
  · refine composes_logs.applyWeighted (fun _ _ => moves_applyWeighted_cons fun s kind message => ?_)
      fun w hw k hk hmem => h k hk ?_
    · exact (aside_debug s s.ambient.draw.2 rfl rfl kind message).logs
    · exact List.mem_append_right _ (List.mem_flatMap.mpr ⟨w, hw, hmem⟩)

theorem call_eq_ok {programs : Programs} {r : Request} {realms : Table Realm} {c : Call}
    (h : r.call programs realms = .ok c) : ∃ type id event program,
      present? r.entityType = some type ∧ present? r.instanceId = some id ∧
      present? r.event = some event ∧ programs r.specification = some program ∧
      realms.get? r.worldId = some c.realm ∧ program.entity? type = some c.entity ∧
      c.realm.world.find? type id = some c.actor ∧ c.entity.event? event = some c.event := by
  unfold Request.call at h
  split at h
  · next type id event htype hid hevent =>
    cases hp : programs r.specification with
    | none => simp [hp] at h
    | some program =>
      cases hr : realms.get? r.worldId with
      | none => simp [hp, hr] at h
      | some realm =>
        cases he : program.entity? type with
        | none => simp [hp, hr, he] at h
        | some entity =>
          cases ha : realm.world.find? type id with
          | none => simp [hp, hr, he, ha] at h
          | some actor =>
            cases hev : entity.event? event with
            | none => simp [hp, hr, he, ha, hev] at h
            | some found =>
              simp only [hp, hr, he, ha, hev] at h
              cases h
              exact ⟨type, id, event, program, htype, hid, hevent, rfl, rfl, he, ha, hev⟩
  · cases h

theorem call_found {programs : Programs} {r : Request} {realms : Table Realm} {c : Call}
    (h : r.call programs realms = .ok c) : realms.get? r.worldId = some c.realm ∧
      c.realm.world.find? c.entity.name c.actor.id = some c.actor := by
  obtain ⟨type, id, event, program, -, -, -, -, hr, he, ha, -⟩ := call_eq_ok h
  have hname : c.entity.name = type := by simpa using List.find?_some he
  have hid := World.id_of_find? ha
  exact ⟨hr, by rw [hname, hid]; exact ha⟩

/-- A list of changes says all that became of a world. Its replay gives the instances that the
world has now, each old value is the one that the replay meets, nothing but instances has changed,
and the stamp is renewed just if there are changes. All other worlds stay. -/
structure ExactLog (a b : Arena) (id : String) (realm : Realm) (changes : List Change) : Prop where
  world : ∃ world, b.realms.get? id = some { realm with world } ∧
    world.entities = (Change.replayAll realm.blueprint realm.world changes).entities ∧
    world.time = realm.world.time ∧ world.step = realm.world.step ∧
    world.vars = realm.world.vars ∧ world.history = realm.world.history ∧
    world.totalSteps = realm.world.totalSteps ∧
    world.stamp = if changes = [] then realm.world.stamp else a.ambient.clock + 1
  fits : ∀ before c after, changes = before ++ c :: after →
    c.Fits realm.blueprint (Change.replayAll realm.blueprint realm.world before)
  others : ∀ other, other ≠ id → b.realms.get? other = a.realms.get? other

variable {a b : Arena} {id : String} {realm : Realm}

theorem exactLog_nil (hrealm : a.realms.get? id = some realm) (h : b.realms = a.realms) :
    ExactLog a b id realm [] where
  world := ⟨realm.world, by rw [h]; exact hrealm, rfl, rfl, rfl, rfl, rfl, rfl, rfl⟩
  fits before c after hsplit := by simp at hsplit
  others other _ := by rw [h]

theorem exactLog_settle {s t : Stage} {scope : Scope} (hrealm : a.realms.get? id = some s.realm)
    (hclock : s.ambient.clock = a.ambient.clock) (hempty : s.changes = [])
    (h : Logged scope s t) : ExactLog a (a.settle id t anyChange) id s.realm t.changes := by
  obtain ⟨added, hchanges, hfit, hworld⟩ := h.log
  rw [hempty, List.nil_append] at hchanges
  subst hchanges
  obtain ⟨htime, hstep, hvars, hhistory, htotal, hstamp⟩ :=
    Change.replayAll_kept s.realm.blueprint s.realm.world t.changes
  have hfits : ∀ before c after, t.changes = before ++ c :: after →
      c.Fits s.realm.blueprint (Change.replayAll s.realm.blueprint s.realm.world before) :=
    fun before c after hsplit => Change.FitAll.fits (hsplit ▸ hfit)
  by_cases hnone : t.changes = []
  · have hsettle : a.settle id t anyChange = { a with ambient := t.ambient }.keep id t.realm.world := by
      simp [Arena.settle, anyChange, hnone]
    rw [hsettle]
    refine ⟨⟨t.realm.world, ?_, ?_⟩, hfits, fun other ho => ?_⟩
    · simp [Arena.keep, Table.get?_modify, hrealm]
    · rw [hworld, if_pos hnone]
      exact ⟨rfl, htime, hstep, hvars, hhistory, htotal, hstamp⟩
    · simp [Arena.keep, Table.get?_modify, ho]
  · have hsettle : a.settle id t anyChange =
        { a with ambient := t.ambient }.restamp id t.realm.world := by
      simp [Arena.settle, anyChange, hnone]
    rw [hsettle]
    refine ⟨⟨t.realm.world.touch (a.ambient.clock + 1), ?_, ?_⟩, hfits, fun other ho => ?_⟩
    · have hclock' := h.clock.trans hclock
      simp [Arena.restamp, Arena.update, Table.get?_modify, hrealm, Ambient.tick, hclock']
    · rw [hworld, if_neg hnone]
      exact ⟨rfl, htime, hstep, hvars, hhistory, htotal, rfl⟩
    · simp [Arena.restamp, Arena.update, Table.get?_modify, ho]

theorem exactLog_apply {c : Call} {scope : Scope} {o : Outcome}
    (hrealm : a.realms.get? id = some c.realm)
    (hsound : Sound ⟨c.realm, [], [], [], a.ambient⟩ scope)
    (hacting : ∀ k, scope.acting = some k → k ∉ c.event.removals)
    (hrun : (c.apply id scope).run.run a = (.ok o, b)) : ExactLog a b id c.realm o.changes := by
  have hlogged := logs_callAct hacting (c.begun a) hsound
  have hexact := @exactLog_settle a id _ _ _ hrealm rfl rfl hlogged
  rw [c.run_apply] at hrun
  generalize (c.act scope).run.run (c.begun a) = result at hrun hexact
  obtain ⟨result, t⟩ := result
  cases result with
  | ok =>
    cases hrun
    exact hexact
  | error halt =>
    cases halt with
    | rejected error =>
      cases hrun
      exact hexact
    | fault fault => cases hrun

/-- The log of an event that returns is exact, whether the event succeeds or not. Instances have ids
of their own, which are not issued again, and no effect removes the acting instance. -/
theorem runEvent_log {programs : Programs} {r : Request} {o : Outcome}
    (hrealm : a.realms.get? r.worldId = some realm) (hdistinct : realm.world.ids.Nodup)
    (hunused : ∀ type n, a.ambient.issued < n → numberedId type n ∉ realm.world.ids)
    (hacting : ∀ c, r.call programs a.realms = .ok c →
      (⟨c.entity.name, c.actor.id⟩ : Handle) ∉ c.event.removals)
    (hrun : (runEvent programs r).run.run a = (.ok o, b)) :
    ExactLog a b r.worldId realm o.changes := by
  unfold runEvent at hrun
  rw [run_get_bind] at hrun
  cases hcall : r.call programs a.realms with
  | error error =>
    rw [hcall] at hrun
    cases hrun
    exact exactLog_nil hrealm rfl
  | ok c =>
    obtain ⟨hfound, hactor⟩ := call_found hcall
    obtain rfl : c.realm = realm := Option.some.inj (hfound.symm.trans hrealm)
    rw [hcall] at hrun
    dsimp only at hrun
    rw [run_get_bind, run_bind] at hrun
    simp only [Run.eval, ExceptT.run, ExceptT.mk, StateT.run] at hrun
    generalize holds defaultPlaceholder _ c.event.condition a.ambient.chance = evaluated at hrun
    obtain ⟨result, chance⟩ := evaluated
    cases result with
    | error fault => cases hrun
    | ok met =>
      dsimp only at hrun
      cases met with
      | false =>
        cases hrun
        exact exactLog_nil hrealm rfl
      | true =>
        rw [if_pos rfl] at hrun
        have hown : ∀ k, (c.scope r.parameters).acting = some k →
            (c.realm.world.find? k.type k.id).isSome ∧ k ∉ c.event.removals := by
          rintro k hk
          obtain rfl := Option.some.inj hk
          exact ⟨by rw [hactor]; rfl, hacting c hcall⟩
        have hexact := exactLog_apply (a := { a with ambient := { a.ambient with chance } }) hrealm
          ⟨hdistinct, hunused, fun k hk => (hown k hk).1⟩ (fun k hk => (hown k hk).2) hrun
        exact ⟨hexact.world, hexact.fits, hexact.others⟩

/-- Heroes and goblins. A hero counts, calls a goblin, drives another one off, gives the new one a
level and then aims at somebody who is not there. -/
def raid : Program where
  entities := [
    ⟨"Hero", [⟨"count", .scalar .int⟩], [⟨"raid", none, none, some (.sequence [
      .assignment "+=" (.property "Self" "count") (.literal (.int 1)),
      .create "Goblin" [("level", .int 7)],
      .remove "Goblin" "Goblin_0",
      .assignment "=" (.property "Goblin" "level") (.property "Self" "count"),
      .assignment "=" (.property "Nobody" "level") (.literal (.int 0))]), []⟩], 1⟩,
    ⟨"Goblin", [], [], 2⟩]
  rules := []
  warnings := []

def raidArena : Arena :=
  ⟨[("world", Realm.create raid.entities 0)], ⟨[], .cyclic [0] 0, 0, 0, []⟩⟩

def raidRequest : Request :=
  ⟨"spec", some "world", some "Hero", some "Hero_0", some "raid", none, []⟩

def raidChanges : List Change :=
  [.modified "Hero_0" "count" (.int 0) (.int 1),
    .created "Goblin_000000000001" "Goblin" [("level", .int 7)],
    .removed "Goblin_0" "Goblin" [],
    .assigned "Goblin_000000000001" "level" (.int 7) (.int 1)]

theorem runEvent_log_raid : ∃ b, (runEvent (fun _ => some raid) raidRequest).run.run raidArena =
    (.ok ⟨false, raidChanges, [.effect (.targetNotFound "Nobody")], []⟩, b) ∧
      ExactLog raidArena b "world" (Realm.create raid.entities 0) raidChanges := by
  have hrun : ∃ b, (runEvent (fun _ => some raid) raidRequest).run.run raidArena =
      (.ok ⟨false, raidChanges, [.effect (.targetNotFound "Nobody")], []⟩, b) :=
    ⟨_, by with_unfolding_all rfl⟩
  obtain ⟨b, hrun⟩ := hrun
  obtain ⟨hdistinct, hunused⟩ := ids_create raid.entities 0
  have hacting : ∀ c, raidRequest.call (fun _ => some raid) raidArena.realms = .ok c →
      (⟨c.entity.name, c.actor.id⟩ : Handle) ∉ c.event.removals := by
    rintro c hc
    cases hc
    decide
  exact ⟨b, hrun, runEvent_log rfl hdistinct (fun name n _ => hunused name n) hacting hrun⟩

end StepWorld
