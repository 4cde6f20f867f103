import StepWorld.Proofs.World.ChangeLog
import StepWorld.Proofs.World.Exact
import StepWorld.Proofs.World.Variables

/-! Worlds without floats. A program that brings in none and divides nothing keeps its world free of
them, and nothing that it does in a step fails, unless a text would have to show an integer of too
many digits. -/

namespace StepWorld

/-! ### Programs -/

def Node.isExact : Node → Bool
  | .expr e => e.isExact
  | .type t => t != .scalar .float
  | _ => true

/-- No property of a program is a float, and none of its expressions brings one in. Weights and
thresholds may be any number. -/
def Program.Exact (p : Program) : Prop := ∀ node ∈ p.nodes, node.isExact = true

instance (p : Program) : Decidable p.Exact :=
  inferInstanceAs (Decidable (∀ node ∈ p.nodes, node.isExact = true))

structure EventDecl.Exact (event : EventDecl) : Prop where
  condition : ∀ e, event.condition = some e → e.Exact
  effect : ∀ e, event.effect = some e → e.Exact
  weighted : ∀ w ∈ event.weighted, w.effect.Exact

structure RuleDecl.Exact (rule : RuleDecl) : Prop where
  condition : ∀ e, rule.condition = some e → e.Exact
  effect : ∀ e, rule.effect = some e → e.Exact
  temporal : ∀ c ∈ rule.temporal, c.toExpr.Exact

/-- The properties of a fresh instance are free of floats. -/
def EntityDecl.Exact (entity : EntityDecl) : Prop := entity.defaultState.Exact

namespace Program.Exact

variable {p : Program} {entity : EntityDecl}

theorem of_nodes (h : p.Exact) {e : Expr} (he : e.asNodes ⊆ p.nodes) : e.Exact := fun _ hpart =>
  h _ (he (Expr.mem_asNodes hpart))

theorem event (h : p.Exact) (hentity : entity ∈ p.entities) {event : EventDecl}
    (hevent : event ∈ entity.events) : event.Exact where
  condition _ he := h.of_nodes
    (List.Subset.trans (EventDecl.nodes_of_condition he) (p.nodes_of_event hentity hevent))
  effect _ he := h.of_nodes
    (List.Subset.trans (EventDecl.nodes_of_effect he) (p.nodes_of_event hentity hevent))
  weighted _ hw := h.of_nodes
    (List.Subset.trans (EventDecl.nodes_of_weighted hw) (p.nodes_of_event hentity hevent))

theorem rule (h : p.Exact) {rule : RuleDecl} (hrule : rule ∈ p.rules) : rule.Exact where
  condition _ he := h.of_nodes
    (List.Subset.trans (RuleDecl.nodes_of_condition he) (p.nodes_of_rule hrule))
  effect _ he := h.of_nodes
    (List.Subset.trans (RuleDecl.nodes_of_effect he) (p.nodes_of_rule hrule))
  temporal _ hc := h.of_nodes
    (List.Subset.trans (RuleDecl.nodes_of_temporal hc) (p.nodes_of_rule hrule))

theorem declared (h : p.Exact) (hentity : entity ∈ p.entities) : entity.Exact := by
  refine Table.All.putAll (P := fun v : Value => v.isExact = true) .nil fun entry hentry => ?_
  obtain ⟨property, hproperty, rfl⟩ := List.mem_map.mp hentry
  have htype : (Node.type property.type).isExact = true :=
    h _ (p.nodes_of_property hentity hproperty (by simp [PropertyDecl.nodes]))
  have hdefault (type : PropertyType) (htype : (Node.type type).isExact = true) :
      type.default.isExact = true := by
    cases type with
    | scalar type =>
      cases type with
      | float => cases htype
      | _ => rfl
    | enum values => cases values <;> rfl
    | _ => rfl
  exact hdefault property.type htype

end Program.Exact

/-! ### Worlds -/

/-- No float stands in a world, its history apart. -/
structure World.Exact (w : World) : Prop where
  vars : w.vars.Exact
  entities : w.entities.All fun is => ∀ i ∈ is, i.state.Exact

namespace World.Exact

variable {w : World}

theorem find? (h : w.Exact) {type id : String} {i : Instance} (hi : w.find? type id = some i) :
    i.state.Exact := by
  obtain ⟨entry, hentry, hmem⟩ := mem_inhabitants.mp (mem_of_find? hi)
  exact h.entities entry hentry i hmem

theorem setVariable (h : w.Exact) {name : String} {value : Value} (hv : value.isExact = true) :
    (w.setVariable name value).Exact := ⟨h.vars.put hv, h.entities⟩

theorem modifyInstance (h : w.Exact) {type id : String} {f : Instance → Instance}
    (hf : ∀ i, i.state.Exact → (f i).state.Exact) : (w.modifyInstance type id f).Exact := by
  refine ⟨h.vars, h.entities.modify fun is his => ?_⟩
  induction is with
  | nil => exact his
  | cons first rest ih =>
    obtain ⟨hfirst, hrest⟩ := List.forall_mem_cons.mp his
    unfold modifyFirst
    split
    · exact List.forall_mem_cons.mpr ⟨hf first hfirst, hrest⟩
    · exact List.forall_mem_cons.mpr ⟨hfirst, ih hrest⟩

theorem addInstance (h : w.Exact) {i : Instance} (hi : i.state.Exact) : (w.addInstance i).Exact := by
  refine ⟨h.vars, h.entities.put fun j hj => ?_⟩
  rcases List.mem_append.mp hj with hj | hj
  · obtain ⟨entry, hentry, hmem⟩ := mem_inhabitants.mp (mem_of_mem_instances hj)
    exact h.entities entry hentry j hmem
  · exact List.mem_singleton.mp hj ▸ hi

theorem removeInstance (h : w.Exact) (type id : String) : (w.removeInstance type id).Exact :=
  ⟨h.vars, h.entities.modify fun _ his i hi => his i (List.mem_of_mem_eraseP hi)⟩

theorem advance (h : w.Exact) : w.advance.Exact :=
  setVariable (w := { w with time := w.time + 1 }) ⟨h.vars, h.entities⟩ rfl

theorem finishStep (h : w.Exact) (step : Nat) (limit : Int) (events rules : List String) :
    (w.finishStep step limit events rules).Exact := by
  have hstepped : ({ w with step }.setVariable "step" (.int step)).Exact :=
    setVariable (w := { w with step }) ⟨h.vars, h.entities⟩ rfl
  unfold World.finishStep
  dsimp only
  split
  · exact hstepped
  · exact ⟨hstepped.vars, hstepped.entities⟩

end World.Exact

/-- No float stands in a world or in what its new instances start with. -/
structure Realm.Exact (r : Realm) : Prop where
  blueprint : r.blueprint.All EntityDecl.Exact
  world : r.world.Exact

theorem EntityDecl.Exact.instantiate {entity : EntityDecl} (h : entity.Exact) (type id : String)
    {properties : Record} (hp : properties.Exact) :
    (entity.instantiate type id properties).state.Exact :=
  Record.Exact.madeFor (Table.All.putAll h hp) id

theorem Program.Exact.realm {p : Program} (h : p.Exact) (stamp : Nat) :
    (Realm.create p.entities stamp).Exact := by
  have hblueprint : (Blueprint.ofEntities p.entities).All EntityDecl.Exact := by
    refine Table.All.putAll .nil fun entry hentry => ?_
    obtain ⟨entity, hentity, rfl⟩ := List.mem_map.mp hentry
    exact h.declared hentity
  have hvars : Record.Exact baseVariables := by decide
  refine ⟨hblueprint, hvars, fun entry hentry => ?_⟩
  obtain ⟨⟨name, entity⟩, hentity, rfl⟩ := List.mem_map.mp hentry
  intro i hi
  obtain rfl := List.mem_singleton.mp hi
  exact (hblueprint _ hentity).instantiate _ _ .nil

/-! ### Effects -/

structure Stage.Exact (s : Stage) : Prop where
  realm : s.realm.Exact
  departed : ∀ i ∈ s.departed, i.state.Exact

namespace Stage.Exact

variable {s : Stage}

theorem setWorld (h : s.Exact) {world : World} (hworld : world.Exact) : (s.setWorld world).Exact :=
  ⟨⟨h.realm.blueprint, hworld⟩, h.departed⟩

theorem stateOf (h : s.Exact) {k : Handle} {r : Record} (hr : s.stateOf k = some r) : r.Exact := by
  obtain ⟨i, hi, rfl⟩ := Option.map_eq_some_iff.mp hr
  rcases Option.or_eq_some_iff.mp hi with hi | ⟨-, hi⟩
  · exact h.realm.world.find? hi
  · exact h.departed i (List.mem_of_find?_eq_some hi)

theorem bindings (h : s.Exact) {scope : Scope} (hvars : scope.vars.Exact) :
    (s.bindings scope).Exact := by
  refine ⟨fun r hr => ?_, fun r hr => ?_, hvars⟩
  all_goals
    obtain ⟨k, -, hk⟩ := Option.bind_eq_some_iff.mp hr
    exact h.stateOf hk

theorem setProperty (h : s.Exact) (k : Handle) (property : String) {value : Value}
    (hv : value.isExact = true) : (s.setProperty k property value).Exact := by
  have hset (i : Instance) (hi : i.state.Exact) : (i.setProperty property value).state.Exact :=
    Table.All.put hi hv
  unfold Stage.setProperty
  split
  · exact h.setWorld (h.realm.world.modifyInstance hset)
  · refine ⟨h.realm, fun i hi => ?_⟩
    obtain ⟨j, hj, rfl⟩ := List.mem_map.mp hi
    split
    · exact hset j (h.departed j hj)
    · exact h.departed j hj

end Stage.Exact

def Halt.Bearable : Halt → Prop
  | .rejected _ => True
  | .fault f => f = .longInteger

namespace Act

variable {α : Type} {P : α → Prop} {scope : Scope}

theorem meets_eval {x : Eval α} (h : x.Yields P) : Meets Stage.Exact Halt.Bearable P (eval x) := by
  intro s hs
  obtain ⟨hresult, -⟩ := h s.ambient.chance trivial
  have hchance (chance : Chance) : { s with ambient := { s.ambient with chance } }.Exact :=
    ⟨hs.realm, hs.departed⟩
  suffices hrun : Admits Halt.Bearable P ((eval x).run.run s).1 ∧ ((eval x).run.run s).2.Exact from
    ⟨hrun.1, hrun.2⟩
  unfold eval
  simp only [ExceptT.run, ExceptT.mk, StateT.run] at hresult ⊢
  split
  · next a chance hrun =>
    rw [hrun] at hresult
    exact ⟨hresult, hchance chance⟩
  · next fault chance hrun =>
    rw [hrun] at hresult
    exact hresult.elim

theorem meets_requireWritable (values : List Value) :
    Meets Stage.Exact Halt.Bearable (fun _ => True) (requireWritable values) :=
  .of_ite (fun _ => .of_pure trivial) fun _ => .of_throw rfl

theorem meets_warn (notice : Notice) :
    Meets Stage.Exact Halt.Bearable (fun _ => True) (warn notice) :=
  .of_modify fun _ hs => ⟨hs.realm, hs.departed⟩

theorem meets_modifiedValue {op : String} (hop : op ≠ "/=") (owner property : String)
    {old value : Value} (hold : old.isExact = true) (hvalue : value.isExact = true) :
    Meets Stage.Exact Halt.Bearable (·.isExact = true)
      (modifiedValue op owner property old value) := by
  unfold modifiedValue
  split
  · next a b ha hb =>
    obtain ⟨m, rfl⟩ := Value.whole_of_number? hold ha
    obtain ⟨n, rfl⟩ := Value.whole_of_number? hvalue hb
    refine .of_ite (fun _ => .of_pure rfl) fun _ => .of_ite (fun _ => ?_) fun _ =>
      .of_ite (fun _ => .of_pure rfl) fun _ => .of_ite (fun h => absurd h hop) fun _ =>
        .of_throw trivial
    have hdifference : floorDifference (.whole m) (.whole n) =
        .ok (if (Number.whole (m - n)).relation (.whole 0) = .greater then Number.whole (m - n)
          else .whole 0).toValue := rfl
    rw [hdifference]
    refine .of_pure ?_
    split <;> rfl
  · exact .of_bind (meets_requireWritable _) fun _ _ => .of_throw trivial

theorem meets_assignProperty (hscope : scope.vars.Exact) {op : String} (hop : op ≠ "/=")
    (owner property : String) {value : Expr} (hvalue : value.Exact) :
    Meets Stage.Exact Halt.Bearable (fun _ => True)
      (assignProperty scope op owner property value) := by
  unfold assignProperty
  refine .of_get_bind fun s hs => ?_
  split
  · exact ⟨trivial, hs⟩
  · next k _ =>
    have hnote (old new : Value) (change : Change) (hnew : new.isExact = true) :
        Meets Stage.Exact Halt.Bearable (fun _ => True) (do
          modify fun s => (s.setProperty k property new).addChange change
          if (← get).ambient.debugs then Act.requireWritable [old, new]
          modify fun s => { s with ambient := s.ambient.debug .deterministic fun _ =>
            k.id ++ "." ++ property ++ ": " ++ old.text ++ " -> " ++ new.text } : Act Unit) := by
      refine .of_bind (.of_modify fun s hs => ?_) fun _ _ => .of_get_bind fun s hs => ?_
      · exact ⟨(hs.setProperty k property hnew).realm, (hs.setProperty k property hnew).departed⟩
      have hdebug : Meets Stage.Exact Halt.Bearable (fun _ => True) (modify fun s => { s with
          ambient := s.ambient.debug .deterministic fun _ =>
            k.id ++ "." ++ property ++ ": " ++ old.text ++ " -> " ++ new.text } : Act Unit) :=
        .of_modify fun _ hs => ⟨hs.realm, hs.departed⟩
      dsimp only
      split
      · exact Meets.of_bind (meets_requireWritable _) (fun _ _ => hdebug) s hs
      · exact hdebug s hs
    refine Meets.of_get_bind (fun s hs => ?_) s hs
    refine (meets_eval (yields_evaluate _ (hs.bindings hscope) value hvalue) s hs).bind
      fun v t hv ht => Meets.of_get_bind (fun t ht => ?_) t ht
    have hold : (((t.stateOf k).bind (Table.get? property)).getD .null).isExact = true := by
      cases hget : (t.stateOf k).bind (Table.get? property) with
      | none => rfl
      | some old =>
        obtain ⟨r, hr, hold⟩ := Option.bind_eq_some_iff.mp hget
        exact (ht.stateOf hr).get? hold
    dsimp only
    split
    · exact hnote _ v _ hv t ht
    · exact (meets_modifiedValue hop owner property hold hv t ht).bind fun new u hnew hu =>
        hnote _ new _ hnew u hu

theorem meets_createInstance (type : String) {properties : Record} (hp : properties.Exact) :
    Meets Stage.Exact Halt.Bearable (fun _ => True) (createInstance type properties) := by
  unfold createInstance
  refine .of_get_bind fun s hs => ?_
  split
  · exact ⟨trivial, hs⟩
  · next entity hentity =>
    have hinstance (s : Stage) := EntityDecl.Exact.instantiate (hs.realm.blueprint.get? hentity)
      type (s.ambient.issue type).1 hp
    refine Meets.of_modify (fun s hs => ?_) s hs
    exact ⟨(hs.setWorld (hs.realm.world.addInstance (hinstance s))).realm, hs.departed⟩

theorem meets_removeInstance (type id : String) :
    Meets Stage.Exact Halt.Bearable (fun _ => True) (removeInstance type id) := by
  unfold removeInstance
  refine .of_get_bind fun s hs => ?_
  split
  · exact ⟨trivial, hs⟩
  · next i hi =>
    refine ⟨trivial, (hs.setWorld (hs.realm.world.removeInstance type id)).realm, ?_⟩
    exact List.forall_mem_cons.mpr ⟨hs.realm.world.find? hi, hs.departed⟩

theorem composes_meets (hscope : scope.vars.Exact) : scope.Composes Expr.Exact
    (Meets Stage.Exact Halt.Bearable fun _ => True) where
  parts h _ hpart node hnode := h node (Expr.nodes_subset_of_child hpart hnode)
  done := .of_pure trivial
  next h hrest := .of_bind h fun _ _ => hrest
  warn := meets_warn
  reject _ := .of_throw trivial
  assign {op _ _ value} h := by
    have hop : op ≠ "/=" := by simpa [Expr.isExact] using h _ (Expr.mem_nodes _)
    have hvalue : value.Exact := fun node hnode => h node
      (Expr.nodes_subset_of_child (List.mem_cons_of_mem _ List.mem_cons_self) hnode)
    exact meets_assignProperty hscope hop _ _ hvalue
  create h := meets_createInstance _ (Value.fieldsExact_iff.mp (h _ (Expr.mem_nodes _)))
  remove _ := meets_removeInstance _ _

theorem meets_applyWeighted_cons {label : String} {w : WeightedEffect}
    {rest : List WeightedEffect}
    (hfirst : Meets Stage.Exact Halt.Bearable (fun _ => True) (applyEffect scope w.effect))
    (hrest : Meets Stage.Exact Halt.Bearable (fun _ => True) (applyWeighted scope label rest)) :
    Meets Stage.Exact Halt.Bearable (fun _ => True) (applyWeighted scope label (w :: rest)) := by
  unfold applyWeighted
  refine .of_get_bind fun s hs => ?_
  refine Meets.of_bind (P := fun _ => True) (.of_modify fun _ hs => ?_) (fun _ _ => ?_) s hs
  · exact ⟨hs.realm, hs.departed⟩
  · exact .of_ite (fun _ => .of_bind hfirst fun _ _ => hrest) fun _ => hrest

theorem meets_callAct {c : Call} (hscope : scope.vars.Exact) (h : c.event.Exact) :
    Meets Stage.Exact Halt.Bearable (fun _ => True) (c.act scope) :=
  (composes_meets hscope).callAct h.effect <|
    (composes_meets hscope).applyWeighted (fun _ _ => meets_applyWeighted_cons) h.weighted

end Act

/-! ### Events and rules -/

/-- The world of an id is free of floats, if it is there. -/
def Arena.ExactIn (id : String) (a : Arena) : Prop :=
  ∀ realm, a.realms.get? id = some realm → realm.Exact

namespace Arena.ExactIn

variable {a : Arena} {k : String}

theorem of_realm {b : Arena} (h : a.ExactIn k) (hb : b.realms.get? k = a.realms.get? k) :
    b.ExactIn k := fun realm hrealm => h realm (hb ▸ hrealm)

theorem delete (h : a.ExactIn k) (j : String) : (a.delete j).ExactIn k := by
  intro realm hrealm
  rw [Arena.delete, Table.get?_remove] at hrealm
  split at hrealm
  · cases hrealm
  · exact h realm hrealm

theorem update (h : a.ExactIn k) {f : World → World} (hf : ∀ w, w.Exact → (f w).Exact) :
    (a.update k f).ExactIn k := by
  intro realm hrealm
  have hrealm : (a.realms.modify k fun r => { r with world := (f r.world).touch a.ambient.tick.1 }).get?
    k = some realm := hrealm
  rw [Table.get?_modify, if_pos rfl] at hrealm
  obtain ⟨old, hold, rfl⟩ := Option.map_eq_some_iff.mp hrealm
  have hworld := hf old.world (h old hold).world
  exact ⟨(h old hold).blueprint, hworld.vars, hworld.entities⟩

theorem keep (h : a.ExactIn k) {world : World} (hw : world.Exact) : (a.keep k world).ExactIn k := by
  intro realm hrealm
  have hrealm : (a.realms.modify k fun r => { r with world }).get? k = some realm := hrealm
  rw [Table.get?_modify, if_pos rfl] at hrealm
  obtain ⟨old, hold, rfl⟩ := Option.map_eq_some_iff.mp hrealm
  exact ⟨(h old hold).blueprint, hw⟩

theorem restamp (h : a.ExactIn k) {world : World} (hw : world.Exact) :
    (a.restamp k world).ExactIn k := h.update fun _ _ => hw

theorem settle (h : a.ExactIn k) {s : Stage} (hs : s.Exact) (stamped : List Change → Bool) :
    (a.settle k s stamped).ExactIn k := by
  have hambient : Arena.ExactIn k { a with ambient := s.ambient } := h
  unfold Arena.settle
  dsimp only
  split
  · exact hambient.restamp hs.realm.world
  · exact hambient.keep hs.realm.world

end Arena.ExactIn

variable {programs : Programs} {k : String}

theorem meets_runEval {α : Type} {P : α → Prop} {x : Eval α} (h : x.Yields P) :
    Meets (Arena.ExactIn k) (· = .longInteger) P (Run.eval x) := by
  intro a ha
  obtain ⟨hresult, -⟩ := h a.ambient.chance trivial
  refine ⟨?_, ha⟩
  change Admits _ P (x.run.run a.ambient.chance).1
  cases hrun : (x.run.run a.ambient.chance).1 with
  | ok value =>
    rw [hrun] at hresult
    exact hresult
  | error fault =>
    rw [hrun] at hresult
    exact hresult.elim

theorem meets_callApply {c : Call} {scope : Scope} (hrealm : c.realm.Exact)
    (hscope : scope.vars.Exact) (h : c.event.Exact) :
    Meets (Arena.ExactIn k) (· = .longInteger) (fun _ => True) (c.apply k scope) := by
  intro a ha
  obtain ⟨hresult, hstage⟩ := Act.meets_callAct hscope h (c.begun a)
    ⟨hrealm, List.forall_mem_nil _⟩
  suffices hrun : Admits (· = Fault.longInteger) (fun _ => True) ((c.apply k scope).run.run a).1 ∧
      ((c.apply k scope).run.run a).2.ExactIn k from ⟨hrun.1, hrun.2⟩
  rw [c.run_apply]
  split
  · next hrun =>
    rw [hrun] at hstage
    exact ⟨trivial, ha.settle hstage _⟩
  · next hrun =>
    rw [hrun] at hstage
    exact ⟨trivial, ha.settle hstage _⟩
  · next hrun =>
    rw [hrun] at hresult hstage
    exact ⟨hresult, ha.settle hstage _⟩

theorem meets_runEvent {r : Request} (hp : ∀ p, programs r.specification = some p → p.Exact)
    (hparameters : r.parameters.Exact) :
    Meets (Arena.ExactIn r.worldId) (· = .longInteger) (fun _ => True) (runEvent programs r) := by
  unfold runEvent
  refine .of_get_bind fun a ha => ?_
  split
  · exact ⟨trivial, ha⟩
  · next c hfound =>
    obtain ⟨_, _, _, p, -, -, -, hprogram, hrealm, hentity, -, hevent⟩ := call_eq_ok hfound
    have hrealm : c.realm.Exact := ha c.realm hrealm
    have hevent : c.event.Exact := (hp p hprogram).event (List.mem_of_find?_eq_some hentity)
      (List.mem_of_find?_eq_some hevent)
    have hscope : (c.scope r.parameters).vars.Exact := Table.All.putAll hrealm.world.vars hparameters
    refine Meets.of_get_bind (fun a ha => ?_) a ha
    have hstage : (⟨c.realm, [], [], [], a.ambient⟩ : Stage).Exact :=
      ⟨hrealm, List.forall_mem_nil _⟩
    refine Meets.of_bind (meets_runEval (yields_holds _ (hstage.bindings hscope) hevent.condition))
      (fun met _ => ?_) a ha
    exact .of_ite (fun _ => meets_callApply hrealm hscope hevent) fun _ => .of_pure trivial

structure RuleStage.Exact (s : RuleStage) : Prop where
  world : s.world.Exact
  vars : s.vars.Exact

namespace RuleAct

theorem meets_holds {condition : Expr} (h : condition.Exact) :
    Meets RuleStage.Exact (· = .longInteger) (fun _ => True) (RuleAct.holds condition) := by
  intro s hs
  have hbindings : s.bindings.Exact := .of_vars hs.vars
  have hcondition (e : Expr) (he : some condition = some e) : e.Exact := Option.some.inj he ▸ h
  obtain ⟨hresult, -⟩ := yields_holds defaultPlaceholder hbindings hcondition s.chance trivial
  refine ⟨?_, by rw [run_holds]; exact ⟨hs.world, hs.vars⟩⟩
  rw [run_holds]
  dsimp only
  generalize ((StepWorld.holds defaultPlaceholder s.bindings (some condition)).run.run s.chance).1 =
    result at hresult
  cases result with
  | ok met => trivial
  | error fault => exact hresult.elim

theorem composes_meets : Composes Expr.Exact fun _ =>
    Meets RuleStage.Exact (· = .longInteger) fun _ => True where
  parts h hpart node hnode := h node (Expr.nodes_subset_of_child hpart hnode)
  done _ := .of_pure trivial
  next h hrest := .of_bind h fun a _ => hrest a
  holds := meets_holds
  raise _ := .of_modify fun _ hs => ⟨hs.world.setVariable rfl, hs.vars.put rfl⟩

theorem meets_act {rule : RuleDecl} (h : rule.Exact) :
    Meets RuleStage.Exact (· = .longInteger) (fun _ => True) rule.act :=
  composes_meets.act h.effect h.temporal

end RuleAct

theorem meets_ruleApply {rule : RuleDecl} (h : rule.Exact) {realm : Realm} (hrealm : realm.Exact)
    {vars : Record} (hvars : vars.Exact) :
    Meets (Arena.ExactIn k) (· = .longInteger) (fun _ => True) (rule.apply realm k vars) := by
  intro a ha
  obtain ⟨hresult, hstage⟩ := RuleAct.meets_act h ⟨realm.world, vars, [], a.ambient.chance⟩
    ⟨hrealm.world, hvars⟩
  have hchance (chance : Chance) :
      Arena.ExactIn k { a with ambient := { a.ambient with chance } } := ha
  suffices hrun : Admits (· = Fault.longInteger) (fun _ => True)
      ((rule.apply realm k vars).run.run a).1 ∧ ((rule.apply realm k vars).run.run a).2.ExactIn k from
    ⟨hrun.1, hrun.2⟩
  unfold RuleDecl.apply
  simp only [ExceptT.run, ExceptT.mk, StateT.run] at hresult hstage ⊢
  split
  · next hrun =>
    rw [hrun] at hstage
    exact ⟨trivial, (hchance _).restamp hstage.world⟩
  · next hrun =>
    rw [hrun] at hresult hstage
    refine ⟨hresult, ?_⟩
    split
    · exact (hchance _).restamp hstage.world
    · exact (hchance _).keep hstage.world

theorem meets_runRule {r : Request} (hp : ∀ p, programs r.specification = some p → p.Exact)
    (hparameters : r.parameters.Exact) :
    Meets (Arena.ExactIn r.worldId) (· = .longInteger) (fun _ => True) (runRule programs r) := by
  unfold runRule
  refine .of_get_bind fun a ha => ?_
  split
  · exact ⟨trivial, ha⟩
  · next realm rule hfound =>
    have hget := Request.realm_of_ruleIn hfound
    have hrealm : realm.Exact := ha realm hget
    have hnamed : r.namedRule programs = .ok rule := by
      rw [Request.ruleIn_eq hget] at hfound
      cases hnamed : r.namedRule programs with
      | error e => rw [hnamed] at hfound; cases hfound
      | ok found => rw [hnamed] at hfound; cases hfound; rfl
    have hrule : rule.Exact := by
      cases hprogram : programs r.specification with
      | none =>
        unfold Request.namedRule at hnamed
        rw [hprogram] at hnamed
        split at hnamed <;> cases hnamed
      | some p => exact (hp p hprogram).rule (StepTarget.mem_of_namedRule hprogram hnamed)
    have hvars : Record.Exact (realm.world.vars.putAll r.parameters) :=
      Table.All.putAll hrealm.world.vars hparameters
    refine Meets.of_bind (meets_runEval (yields_holds _ (.of_vars hvars) hrule.condition))
      (fun met _ => ?_) a ha
    exact .of_ite (fun _ => meets_ruleApply hrule hrealm hvars) fun _ => .of_pure trivial

/-! ### Steps -/

namespace StepTarget

variable {t : StepTarget}

def ExactAt (t : StepTarget) (q : StepProgress) : Prop := q.arena.ExactIn t.world

theorem meets_run {α : Type} {P : α → Prop} {run : Run α}
    (h : Meets (Arena.ExactIn t.world) (· = .longInteger) P run) :
    Meets t.ExactAt (· = .longInteger) P (Stepping.run run) :=
  fun q hq => ⟨(h q.arena hq).result, (h q.arena hq).state⟩

variable (ht : t.world ≠ "") (hp : ∀ p, t.programs t.specification = some p → p.Exact)

include ht hp

theorem composes_meets : t.Composes (Meets t.ExactAt (· = .longInteger) fun _ => True) where
  done := .of_pure trivial
  next h hrest := .of_bind h fun _ _ => hrest
  look h := .of_get_bind fun q hq => h _ q hq
  event type id event := by
    have hevent := @meets_runEvent t.programs (t.eventRequest type id event) hp .nil
    rw [worldId_eventRequest ht] at hevent
    refine .of_bind (meets_run hevent) fun o _ => .of_modify fun q hq => ?_
    exact hq.of_realm (congrArg (·.realms.get? t.world)
      (along_countEvent (R := fun a b => b = a) q _ o))

theorem meets_rules (rules : List RuleDecl) :
    Meets t.ExactAt (· = .longInteger) (fun _ => True) (t.rules rules) := by
  refine rules_of (.of_pure trivial) (fun name rest hrest => ?_) rules
  have hrule := @meets_runRule t.programs (t.ruleRequest name) hp .nil
  rw [worldId_ruleRequest ht] at hrule
  refine .of_bind (meets_run hrule) fun o _ => .of_bind (.of_modify fun q hq => ?_) fun _ _ => hrest
  exact hq.of_realm (congrArg (·.realms.get? t.world)
    (along_countRule (R := fun a b => b = a) q _ o))

theorem meets_program (p : Program) :
    Meets t.ExactAt (· = .longInteger) (fun _ => True) (t.program p) :=
  (composes_meets ht hp).program (meets_rules ht hp) p

end StepTarget

namespace Engine

variable {e : Engine} {s : Simulation}

theorem exact_step (hs : s.id ≠ "") (hp : ∀ p, e.programs s.specification = some p → p.Exact)
    (ha : e.arena.ExactIn s.id) :
    (e.step s).2.arena.ExactIn s.id ∧
      ((∃ σ, (e.step s).1 = .ok σ) ∨ (e.step s).1 = .error (.fault .longInteger) ∨
        e.programs s.specification = none ∨ e.arena.world? s.id = none) := by
  have hran {p : Program} {w : World} {result : Except Fault Unit} {q : StepProgress}
      (hprogram : e.programs s.specification = some p) (hw : e.arena.world? s.id = some w)
      (hrun : e.runOf s p w = (result, q)) :
      Admits (· = .longInteger) (fun _ => True) result ∧ q.arena.ExactIn s.id := by
    obtain ⟨realm, hrealm, rfl⟩ := Arena.realm_of_world? hw
    obtain ⟨hresult, hstate⟩ := StepTarget.meets_program
      (t := ⟨e.programs, s.specification, s.id⟩) hs hp p
      ⟨e.arena.keep s.id realm.world.advance, [], [], 0, [], s.statistics⟩
      (ha.keep (ha realm hrealm).world.advance)
    change Admits _ _ (e.runOf s p realm.world).1 at hresult
    change (e.runOf s p realm.world).2.arena.ExactIn s.id at hstate
    rw [hrun] at hresult hstate
    exact ⟨hresult, hstate⟩
  have houtcome := e.step_outcome s
  generalize e.step s = result at houtcome ⊢
  cases houtcome with
  | unknown hprogram => exact ⟨ha, .inr (.inr (.inl hprogram))⟩
  | gone hprogram hworld => exact ⟨ha, .inr (.inr (.inr hworld))⟩
  | failed hprogram hworld hrun =>
    obtain ⟨rfl, hstate⟩ := hran hprogram hworld hrun
    exact ⟨hstate, .inr (.inl rfl)⟩
  | counted hprogram hworld hrun =>
    obtain ⟨-, hstate⟩ := hran hprogram hworld hrun
    refine ⟨hstate.update fun w hw => hw.finishStep _ _ _ _, ?_⟩
    dsimp only
    split
    · exact .inr (.inl rfl)
    · exact .inl ⟨_, rfl⟩

end Engine

end StepWorld
