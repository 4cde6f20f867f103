import StepWorld.Proofs.World.Certain
import StepWorld.Proofs.World.Frame

/-! What a rule looks at and what it changes. A rule comes to the same in worlds with the same
variables, and it leaves all else in its world alone. -/

namespace StepWorld

def Node.isRand : Node → Bool
  | .expr e => e.isRand
  | _ => false

def RuleDecl.Drawless (rule : RuleDecl) : Prop := ∀ node ∈ rule.nodes, node.isRand = false

instance (rule : RuleDecl) : Decidable rule.Drawless :=
  inferInstanceAs (Decidable (∀ node ∈ rule.nodes, node.isRand = false))

namespace RuleDecl.Drawless

variable {rule : RuleDecl}

theorem of_nodes (h : rule.Drawless) {e : Expr} (he : e.asNodes ⊆ rule.nodes) : e.Drawless :=
  fun _ hpart => h _ (he (Expr.mem_asNodes hpart))

theorem condition (h : rule.Drawless) {e : Expr} (he : rule.condition = some e) : e.Drawless :=
  h.of_nodes (nodes_of_condition he)

theorem effect (h : rule.Drawless) {e : Expr} (he : rule.effect = some e) : e.Drawless :=
  h.of_nodes (nodes_of_effect he)

theorem temporal (h : rule.Drawless) {c : TemporalClause} (hc : c ∈ rule.temporal) :
    c.toExpr.Drawless := h.of_nodes (nodes_of_temporal hc)

end RuleDecl.Drawless

/-! ### The parts of a rule, side by side -/

/-- Two worlds on which a rule runs look the same to it: the variables are the same, and so is the
source of chance if anything may be drawn. -/
structure RuleStage.Alike (drawless : Bool) (s t : RuleStage) : Prop where
  vars : t.vars = s.vars
  world : t.world.vars = s.world.vars
  changes : t.changes = s.changes
  chance : drawless = false → t.chance = s.chance

variable {drawless : Bool}

theorem Eval.result_eq {α : Type} {x : Eval α} {c c' : Chance} (hx : drawless = true → x.Certain)
    (hc : drawless = false → c' = c) : (x.run.run c').1 = (x.run.run c).1 ∧
      (drawless = false → (x.run.run c').2 = (x.run.run c).2) := by
  cases drawless with
  | false =>
    rw [hc rfl]
    exact ⟨rfl, fun _ => rfl⟩
  | true =>
    obtain ⟨result, hresult⟩ := hx rfl
    rw [hresult, hresult]
    exact ⟨rfl, fun h => by cases h⟩

theorem RuleAct.run_holds (condition : Expr) (s : RuleStage) :
    (RuleAct.holds condition).run.run s =
      (((StepWorld.holds defaultPlaceholder s.bindings (some condition)).run.run s.chance).1,
        { s with
          chance :=
            ((StepWorld.holds defaultPlaceholder s.bindings (some condition)).run.run
              s.chance).2 }) := rfl

theorem RuleAct.agrees_holds {condition : Expr} (h : drawless = true → condition.Drawless) :
    Agrees (RuleStage.Alike drawless) (RuleAct.holds condition) (RuleAct.holds condition) := by
  intro s t hst
  have hbindings : t.bindings = s.bindings := by
    unfold RuleStage.bindings
    rw [hst.vars]
  have hcertain : drawless = true →
      (StepWorld.holds defaultPlaceholder s.bindings (some condition)).Certain :=
    fun hd => certain_holds fun e he => by cases he; exact h hd
  obtain ⟨hresult, hchance⟩ := Eval.result_eq hcertain hst.chance
  unfold AgreesAt
  rw [RuleAct.run_holds, RuleAct.run_holds, hbindings]
  exact ⟨hresult.symm, hst.vars, hst.world, hst.changes, hchance⟩

theorem RuleStage.Alike.raiseFlag {s t : RuleStage} (h : s.Alike drawless t) (flag : String) :
    (s.raiseFlag flag).Alike drawless (t.raiseFlag flag) where
  vars := by simp only [RuleStage.raiseFlag, h.vars]
  world := by simp only [RuleStage.raiseFlag, World.setVariable, h.world]
  changes := by simp only [RuleStage.raiseFlag, h.world, h.changes]
  chance := h.chance

theorem RuleAct.composes_agrees : Composes (fun e => drawless = true → e.Drawless)
    fun _ task => Agrees (RuleStage.Alike drawless) task task where
  parts h hpart hd node hnode := h hd node (Expr.nodes_subset_of_child hpart hnode)
  done _ := .of_pure _
  next := .of_bind
  holds := RuleAct.agrees_holds
  raise {flag} _ := .of_modify fun _ _ hst => hst.raiseFlag flag

theorem RuleDecl.agrees_act {rule : RuleDecl} (h : drawless = true → rule.Drawless) :
    Agrees (RuleStage.Alike drawless) rule.act rule.act :=
  RuleAct.composes_agrees.act (fun _ he hd => (h hd).effect he) fun _ hc hd => (h hd).temporal hc

/-! ### A rule leaves all but the variables -/

def World.SameBeside (w v : World) : Prop := ∃ vars stamp, v = { w with vars, stamp }

theorem World.SameBeside.refl (w : World) : w.SameBeside w := ⟨w.vars, w.stamp, rfl⟩

theorem World.SameBeside.trans {u v w : World} (h : u.SameBeside v) (h' : v.SameBeside w) :
    u.SameBeside w := by
  obtain ⟨vars, stamp, rfl⟩ := h
  obtain ⟨vars', stamp', rfl⟩ := h'
  exact ⟨vars', stamp', rfl⟩

instance : Std.Refl World.SameBeside := ⟨World.SameBeside.refl⟩

instance : Trans World.SameBeside World.SameBeside World.SameBeside := ⟨World.SameBeside.trans⟩

/-- A relation between worlds allows what a rule does: to raise a flag that ends a run, and to stamp
its world. -/
structure World.AllowsFlags (R : World → World → Prop) : Prop where
  raised (w : World) {flag : String} (h : flag ∈ terminalFlags) :
    R w (w.setVariable flag (.bool true))
  stamped (w : World) (stamp : Nat) : R w (w.touch stamp)

theorem World.allowsFlags_sameBeside : World.AllowsFlags World.SameBeside where
  raised _ _ _ := ⟨_, _, rfl⟩
  stamped _ _ := ⟨_, _, rfl⟩

structure RuleStage.Allows (R : RuleStage → RuleStage → Prop) : Prop where
  drawn (s : RuleStage) (chance : Chance) : R s { s with chance }
  raised (s : RuleStage) {flag : String} (h : flag ∈ terminalFlags) : R s (s.raiseFlag flag)

namespace RuleStage.Allows

variable {R : RuleStage → RuleStage → Prop}

theorem holds (h : Allows R) (condition : Expr) : Moves R (RuleAct.holds condition) :=
  fun s => h.drawn s _

variable [Std.Refl R] [Trans R R R]

theorem composes (h : Allows R) : RuleAct.Composes (fun _ => True) fun _ => Moves R where
  parts _ _ := trivial
  done _ := .of_pure _
  next := .of_bind
  holds _ := h.holds _
  raise hflag := .of_modify fun s => h.raised s hflag

theorem act (h : Allows R) (rule : RuleDecl) : Moves R rule.act :=
  h.composes.act (fun _ _ => trivial) fun _ _ => trivial

end RuleStage.Allows

namespace RuleStage

variable {R : World → World → Prop}

def Along (R : World → World → Prop) (s t : RuleStage) : Prop := R s.world t.world

instance [Std.Refl R] : Std.Refl (Along R) := ⟨fun s => Std.Refl.refl s.world⟩

instance [Trans R R R] : Trans (Along R) (Along R) (Along R) :=
  ⟨fun {a b c} (h : R a.world b.world) (h' : R b.world c.world) => (Trans.trans h h' : R _ _)⟩

theorem along_act [Std.Refl R] [Trans R R R] (hR : World.AllowsFlags R) (rule : RuleDecl) :
    Moves (Along R) rule.act :=
  Allows.act ⟨fun s _ => Std.Refl.refl s.world, fun s _ h => hR.raised s.world h⟩ rule

def OnlyFlags (s t : RuleStage) : Prop :=
  (∀ change ∈ s.changes, ∃ flag old, change = .flagged flag old) →
    ∀ change ∈ t.changes, ∃ flag old, change = .flagged flag old

instance : Std.Refl OnlyFlags := ⟨fun _ h => h⟩

instance : Trans OnlyFlags OnlyFlags OnlyFlags := ⟨fun h h' hs => h' (h hs)⟩

theorem allows_onlyFlags : Allows OnlyFlags where
  drawn _ _ h := h
  raised s flag _ h := by
    intro change hchange
    rcases List.mem_append.mp hchange with hchange | hchange
    · exact h change hchange
    · exact ⟨flag, _, List.mem_singleton.mp hchange⟩

end RuleStage

/-! ### Whole rules -/

def Request.namedRule (r : Request) (programs : Programs) : Except RunError RuleDecl :=
  match present? r.rule with
  | none => .error .missingParameters
  | some name =>
    match programs r.specification with
    | none => .error (.specificationNotFound r.specification)
    | some program =>
      match program.rule? name with
      | none => .error (.ruleNotFound name)
      | some rule => .ok rule

theorem Request.ruleIn_eq {r : Request} {programs : Programs} {realms : Table Realm} {realm : Realm}
    (h : realms.get? r.worldId = some realm) :
    r.ruleIn programs realms = (r.namedRule programs).map fun rule => (realm, rule) := by
  unfold Request.ruleIn Request.namedRule
  cases present? r.rule with
  | none => rfl
  | some name =>
    cases programs r.specification with
    | none => rfl
    | some program =>
      cases hr : program.rule? name with
      | none => simp [h, hr, Except.map]
      | some rule =>
        simp only [h, hr, Except.map]
        rfl

theorem Request.realm_of_ruleIn {r : Request} {programs : Programs} {realms : Table Realm}
    {realm : Realm} {rule : RuleDecl} (h : r.ruleIn programs realms = .ok (realm, rule)) :
    realms.get? r.worldId = some realm := by
  cases hr : realms.get? r.worldId with
  | some found =>
    rw [Request.ruleIn_eq hr] at h
    cases hnamed : r.namedRule programs with
    | error e => rw [hnamed] at h; cases h
    | ok rule => rw [hnamed] at h; cases h; rfl
  | none =>
    unfold Request.ruleIn at h
    rw [hr] at h
    split at h
    · cases hp : programs r.specification <;> simp [hp] at h
    · cases h

namespace Arena

structure AlikeIn (drawless : Bool) (k k' : String) (a b : Arena) : Prop where
  worlds : ∃ w w', a.world? k = some w ∧ b.world? k' = some w' ∧ w'.vars = w.vars
  chance : drawless = false → b.ambient.chance = a.ambient.chance

variable {k k' : String} {a b : Arena}

theorem realm_of_world? {w : World} (h : a.world? k = some w) :
    ∃ realm, a.realms.get? k = some realm ∧ realm.world = w :=
  Option.map_eq_some_iff.mp h

theorem world?_keep {w : World} (h : a.world? k = some w) (v : World) :
    (a.keep k v).world? k = some v := by
  obtain ⟨realm, hrealm, -⟩ := realm_of_world? h
  simp [keep, world?, Table.get?_modify, hrealm]

theorem world?_restamp {w : World} (h : a.world? k = some w) (v : World) :
    ∃ stamp, (a.restamp k v).world? k = some (v.touch stamp) := by
  obtain ⟨realm, hrealm, -⟩ := realm_of_world? h
  exact ⟨a.ambient.tick.1, by simp [restamp, update, world?, Table.get?_modify, hrealm]⟩

theorem world?_of_delete {j : String} {v : World} (h : (a.delete j).world? k = some v) :
    a.world? k = some v := by
  rw [world?, delete, Table.get?_remove] at h
  split at h
  · cases h
  · exact h

variable {drawless : Bool}

theorem AlikeIn.chance_with (h : a.AlikeIn drawless k k' b) {c c' : Chance}
    (hc : drawless = false → c' = c) :
    Arena.AlikeIn drawless k k' { a with ambient := { a.ambient with chance := c } }
      { b with ambient := { b.ambient with chance := c' } } :=
  ⟨h.worlds, hc⟩

theorem AlikeIn.restamp (h : a.AlikeIn drawless k k' b) {v v' : World} (hv : v'.vars = v.vars) :
    (a.restamp k v).AlikeIn drawless k k' (b.restamp k' v') := by
  obtain ⟨w, w', hw, hw', -⟩ := h.worlds
  obtain ⟨stamp, hstamp⟩ := world?_restamp hw v
  obtain ⟨stamp', hstamp'⟩ := world?_restamp hw' v'
  exact ⟨⟨_, _, hstamp, hstamp', hv⟩, h.chance⟩

theorem AlikeIn.keep (h : a.AlikeIn drawless k k' b) {v v' : World} (hv : v'.vars = v.vars) :
    (a.keep k v).AlikeIn drawless k k' (b.keep k' v') := by
  obtain ⟨w, w', hw, hw', -⟩ := h.worlds
  exact ⟨⟨_, _, world?_keep hw v, world?_keep hw' v', hv⟩, h.chance⟩

end Arena

variable {k k' : String}

theorem agreesIn_runEval {α : Type} {x : Eval α} (hx : drawless = true → x.Certain) :
    Agrees (Arena.AlikeIn drawless k k') (Run.eval x) (Run.eval x) := by
  intro a b hab
  obtain ⟨hresult, hchance⟩ := Eval.result_eq hx hab.chance
  exact ⟨hresult.symm, hab.chance_with hchance⟩

theorem agreesIn_ruleApply {rule : RuleDecl} {realm realm' : Realm} {vars : Record}
    (hrule : drawless = true → rule.Drawless) (hworld : realm'.world.vars = realm.world.vars) :
    Agrees (Arena.AlikeIn drawless k k') (rule.apply realm k vars) (rule.apply realm' k' vars) := by
  intro a b hab
  have hact := RuleDecl.agrees_act hrule ⟨realm.world, vars, [], a.ambient.chance⟩
    ⟨realm'.world, vars, [], b.ambient.chance⟩ ⟨rfl, hworld, rfl, hab.chance⟩
  unfold AgreesAt RuleDecl.apply at *
  simp only [ExceptT.run, ExceptT.mk, StateT.run] at hact ⊢
  generalize rule.act ⟨realm.world, vars, [], a.ambient.chance⟩ = first at hact ⊢
  generalize rule.act ⟨realm'.world, vars, [], b.ambient.chance⟩ = second at hact ⊢
  obtain ⟨result, s⟩ := first
  obtain ⟨_, t⟩ := second
  obtain ⟨rfl, hst⟩ := hact
  have hst : s.Alike drawless t := hst
  have hchanges : t.changes = s.changes := hst.changes
  have hdrawn := hab.chance_with hst.chance
  cases result with
  | ok notices =>
    dsimp only
    rw [hchanges]
    exact ⟨rfl, hdrawn.restamp hst.world⟩
  | error fault =>
    dsimp only
    rw [hchanges]
    refine ⟨rfl, ?_⟩
    split
    · exact hdrawn.restamp hst.world
    · exact hdrawn.keep hst.world

theorem agreesIn_runRule {programs programs' : Programs} {r r' : Request}
    (hname : r'.namedRule programs' = r.namedRule programs)
    (hparameters : r'.parameters = r.parameters)
    (hrule : drawless = true → ∀ rule, r.namedRule programs = .ok rule → rule.Drawless) :
    Agrees (Arena.AlikeIn drawless r.worldId r'.worldId) (runRule programs r)
      (runRule programs' r') := by
  unfold runRule
  refine .of_get_bind fun a b hab => ?_
  obtain ⟨w, w', hw, hw', hvars⟩ := hab.worlds
  obtain ⟨realm, hrealm, rfl⟩ := Arena.realm_of_world? hw
  obtain ⟨realm', hrealm', rfl⟩ := Arena.realm_of_world? hw'
  rw [Request.ruleIn_eq hrealm, Request.ruleIn_eq hrealm', hname]
  cases hnamed : r.namedRule programs with
  | error e => exact ⟨rfl, hab⟩
  | ok rule =>
    have hdrawless : drawless = true → rule.Drawless := fun hd => hrule hd rule hnamed
    have hcertain : drawless = true → (holds defaultPlaceholder
        ⟨none, none, realm.world.vars.putAll r.parameters⟩ rule.condition).Certain :=
      fun hd => certain_holds fun e he => (hdrawless hd).condition he
    simp only [Except.map, hparameters, hvars]
    refine Agrees.of_bind (agreesIn_runEval hcertain) (fun met => ?_) a b hab
    exact .of_ite (agreesIn_ruleApply hdrawless hvars) (.of_pure _)

/-! ### What a rule leaves alone -/

structure Arena.Along (R : World → World → Prop) (k : String) (a b : Arena) : Prop where
  own : ∀ w, a.world? k = some w → ∃ v, b.world? k = some v ∧ R w v
  others : ∀ j, j ≠ k → b.realms.get? j = a.realms.get? j

abbrev Arena.SparedIn : String → Arena → Arena → Prop := Arena.Along World.SameBeside

theorem Arena.others_keep (a : Arena) (w : World) (j : String) (hj : j ≠ k) :
    (a.keep k w).realms.get? j = a.realms.get? j := by
  simp [keep, Table.get?_modify, hj]

theorem Arena.others_update (a : Arena) (f : World → World) (j : String) (hj : j ≠ k) :
    (a.update k f).realms.get? j = a.realms.get? j := by
  simp [update, Table.get?_modify, hj]

namespace Arena.Along

variable {R : World → World → Prop} {a b c : Arena}

section

variable [Std.Refl R]

theorem of_ambient (a : Arena) (ambient : Ambient) : Along R k a { a with ambient } :=
  ⟨fun w hw => ⟨w, hw, Std.Refl.refl w⟩, fun _ _ => rfl⟩

theorem refl (a : Arena) : Along R k a a := of_ambient a a.ambient

instance : Std.Refl (Along R k) := ⟨refl⟩

end

variable [Trans R R R]

theorem trans (h : Along R k a b) (h' : Along R k b c) : Along R k a c where
  own w hw := by
    obtain ⟨v, hv, hwv⟩ := h.own w hw
    obtain ⟨u, hu, hvu⟩ := h'.own v hv
    exact ⟨u, hu, Trans.trans hwv hvu⟩
  others j hj := (h'.others j hj).trans (h.others j hj)

instance : Trans (Along R k) (Along R k) (Along R k) := ⟨trans⟩

omit [Trans R R R] in
theorem of_keep {realm : Realm} (hrealm : a.realms.get? k = some realm) {v : World}
    (hv : R realm.world v) : Along R k a (a.keep k v) where
  own w hw := by
    obtain ⟨realm', hrealm', rfl⟩ := Arena.realm_of_world? hw
    obtain rfl := Option.some.inj (hrealm.symm.trans hrealm')
    exact ⟨v, Arena.world?_keep hw v, hv⟩
  others := a.others_keep v

omit [Trans R R R] in
theorem mono {S : World → World → Prop} (h : Along R k a b) (hRS : ∀ w v, R w v → S w v) :
    Along S k a b where
  own w hw := by
    obtain ⟨v, hv, hwv⟩ := h.own w hw
    exact ⟨v, hv, hRS w v hwv⟩
  others := h.others

omit [Trans R R R] in
theorem of_update {f : World → World} (hf : ∀ w stamp, R w ((f w).touch stamp)) :
    Along R k a (a.update k f) where
  own w hw := by
    obtain ⟨realm, hrealm, rfl⟩ := Arena.realm_of_world? hw
    refine ⟨_, ?_, hf realm.world a.ambient.tick.1⟩
    simp [Arena.update, Arena.world?, Table.get?_modify, hrealm]
  others := a.others_update _

theorem of_restamp (hR : ∀ w stamp, R w (World.touch w stamp)) {realm : Realm}
    (hrealm : a.realms.get? k = some realm) {v : World} (hv : R realm.world v) :
    Along R k a (a.restamp k v) where
  own w hw := by
    obtain ⟨realm', hrealm', rfl⟩ := Arena.realm_of_world? hw
    obtain rfl := Option.some.inj (hrealm.symm.trans hrealm')
    obtain ⟨stamp, hstamp⟩ := Arena.world?_restamp hw v
    exact ⟨_, hstamp, Trans.trans hv (hR v stamp)⟩
  others := a.others_update _

end Arena.Along

section

variable {R : World → World → Prop} [Std.Refl R] [Trans R R R]

theorem along_ruleApply (hR : World.AllowsFlags R) {a : Arena} {realm : Realm}
    (hrealm : a.realms.get? k = some realm) (rule : RuleDecl) (vars : Record) :
    Arena.Along R k a ((rule.apply realm k vars).run.run a).2 := by
  have hact := RuleStage.along_act hR rule ⟨realm.world, vars, [], a.ambient.chance⟩
  unfold RuleDecl.apply
  simp only [ExceptT.run, ExceptT.mk, StateT.run] at hact ⊢
  generalize rule.act ⟨realm.world, vars, [], a.ambient.chance⟩ = result at hact ⊢
  obtain ⟨result, s⟩ := result
  have hrealm' : ({ a with ambient := { a.ambient with chance := s.chance } } : Arena).realms.get?
      k = some realm := hrealm
  have hdrawn := Arena.Along.of_ambient (R := R) (k := k) a
    { a.ambient with chance := s.chance }
  cases result with
  | ok notices => exact hdrawn.trans (.of_restamp hR.stamped hrealm' hact)
  | error fault =>
    dsimp only
    split
    · exact hdrawn.trans (.of_restamp hR.stamped hrealm' hact)
    · exact hdrawn.trans (.of_keep hrealm' hact)

theorem along_runRule (hR : World.AllowsFlags R) (programs : Programs) (r : Request) :
    Moves (Arena.Along R r.worldId) (runRule programs r) := by
  intro a
  unfold runRule
  rw [run_get_bind]
  cases hfound : r.ruleIn programs a.realms with
  | error e => exact .refl a
  | ok found =>
    obtain ⟨realm, rule⟩ := found
    have hrealm : a.realms.get? r.worldId = some realm := r.realm_of_ruleIn hfound
    have hsame : ((Run.eval (holds defaultPlaceholder ⟨none, none,
        realm.world.vars.putAll r.parameters⟩ rule.condition)).run.run a).2.realms = a.realms := rfl
    refine Moves.bind_from (Q := fun b => b.realms = a.realms) hsame ?_ ?_
    · rintro ⟨_, ambient⟩ rfl
      exact .of_ambient a ambient
    · rintro met ⟨_, ambient⟩ rfl
      have hambient := Arena.Along.of_ambient (R := R) (k := r.worldId) a ambient
      split
      · exact hambient.trans (along_ruleApply hR (a := ⟨a.realms, ambient⟩) hrealm rule _)
      · exact hambient

end

theorem spared_runRule (programs : Programs) (r : Request) :
    Moves (Arena.SparedIn r.worldId) (runRule programs r) :=
  along_runRule World.allowsFlags_sameBeside programs r

theorem flags_of_runRule {programs : Programs} {r : Request} {a b : Arena} {o : Outcome}
    (hrun : (runRule programs r).run.run a = (.ok o, b)) {change : Change}
    (hmem : change ∈ o.changes) : ∃ flag old, change = .flagged flag old := by
  unfold runRule at hrun
  rw [run_get_bind] at hrun
  cases hfound : r.ruleIn programs a.realms with
  | error e =>
    rw [hfound] at hrun
    cases hrun
    cases hmem
  | ok found =>
    obtain ⟨realm, rule⟩ := found
    rw [hfound] at hrun
    dsimp only at hrun
    obtain ⟨met, u, -, hrun⟩ := run_bind_eq_ok.mp hrun
    split at hrun
    · have hflags := RuleStage.allows_onlyFlags.act rule ⟨realm.world,
        realm.world.vars.putAll r.parameters, [], u.ambient.chance⟩ (List.forall_mem_nil _)
      unfold RuleDecl.apply at hrun
      simp only [ExceptT.run, ExceptT.mk, StateT.run] at hrun hflags
      split at hrun
      · next hact =>
        rw [hact] at hflags
        cases hrun
        exact hflags change hmem
      · cases hrun
    · cases hrun
      cases hmem

theorem runRule_same {programs : Programs} {r : Request} {other : Option String} {a b : Arena}
    {w v : World} (hw : a.world? r.worldId = some w)
    (hv : b.world? { r with world := other }.worldId = some v) (hvars : v.vars = w.vars)
    (hchance : b.ambient.chance = a.ambient.chance) :
    ∃ result a' b' w' v', (runRule programs r).run.run a = (result, a') ∧
      (runRule programs { r with world := other }).run.run b = (result, b') ∧
      b'.ambient.chance = a'.ambient.chance ∧ a'.world? r.worldId = some w' ∧
      b'.world? { r with world := other }.worldId = some v' ∧ v'.vars = w'.vars ∧
      w.SameBeside w' ∧ v.SameBeside v' := by
  have hname : Request.namedRule { r with world := other } programs = r.namedRule programs := rfl
  have hab : a.AlikeIn false r.worldId { r with world := other }.worldId b :=
    ⟨⟨w, v, hw, hv, hvars⟩, fun _ => hchance⟩
  have hagrees := agreesIn_runRule hname rfl (fun hd => by cases hd) a b hab
  have hspared := (spared_runRule programs r a).own w hw
  have hspared' := (spared_runRule programs { r with world := other } b).own v hv
  unfold AgreesAt at hagrees
  generalize (runRule programs r).run.run a = first at *
  generalize (runRule programs { r with world := other }).run.run b = second at *
  obtain ⟨result, a'⟩ := first
  obtain ⟨result', b'⟩ := second
  obtain ⟨rfl, halike⟩ := hagrees
  obtain ⟨w', v', hw', hv', hsame⟩ := halike.worlds
  obtain ⟨u, hu, hbeside⟩ := hspared
  obtain ⟨u', hu', hbeside'⟩ := hspared'
  obtain rfl := Option.some.inj (hw'.symm.trans hu)
  obtain rfl := Option.some.inj (hv'.symm.trans hu')
  exact ⟨_, a', b', w', v', rfl, rfl, halike.chance rfl, hw', hv', hsame, hbeside, hbeside'⟩

end StepWorld
