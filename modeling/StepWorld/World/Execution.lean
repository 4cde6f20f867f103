import StepWorld.Options
import StepWorld.World.Arena
import StepWorld.World.Effect

/-! Running one event of an instance, or one rule. What cannot be found, an unmet requirement
and a rejected effect are reported in the outcome; only failing numbers stop a run. -/

namespace StepWorld

abbrev Programs := String → Option Program

/-- Works on the arena and may meet a fault; what was done before it stays. -/
abbrev Run := ExceptT Fault (StateM Arena)

def present? (text : Option String) : Option String := text.filter (· != "")

namespace Request

/-- The world a request is about: the named one or that of the specification. -/
def worldId (r : Request) : String := (present? r.world).getD r.specification

end Request

structure Call where
  realm : Realm
  entity : EntityDecl
  actor : Instance
  event : EventDecl

def Request.call (r : Request) (programs : Programs) (realms : Table Realm) :
    Except RunError Call := do
  match present? r.entityType, present? r.instanceId, present? r.event with
  | some type, some id, some event =>
    let some program := programs r.specification
      | .error (.specificationNotFound r.specification)
    let some realm := realms.get? r.worldId | .error .worldNotFound
    let some entity := program.entity? type | .error (.typeNotFound type)
    let some actor := realm.world.find? type id | .error (.instanceNotFound id)
    let some event := entity.event? event | .error (.eventNotFound event type)
    return ⟨realm, entity, actor, event⟩
  | _, _, _ => .error .missingParameters

def Call.scope (c : Call) (parameters : Record) : Scope where
  acting := some ⟨c.entity.name, c.actor.id⟩
  targetType := c.event.target
  target := c.event.target.bind fun type =>
    (c.realm.world.first? type).map fun i => ⟨type, i.id⟩
  vars := c.realm.world.vars.putAll parameters

/-- The effects of an event: its effect and then its weighted effects. -/
def Call.act (c : Call) (scope : Scope) : Act Unit := do
  match c.event.effect with
  | some effect => applyEffect scope effect
  | none => pure ()
  applyWeighted scope (c.entity.name ++ "." ++ c.event.name) c.event.weighted

/-- Puts back the world of a stage. It is stamped if `stamped` says so of the changes. -/
def Arena.settle (a : Arena) (id : String) (s : Stage) (stamped : List Change → Bool) : Arena :=
  let a := { a with ambient := s.ambient }
  if stamped s.changes then a.restamp id s.realm.world else a.keep id s.realm.world

def anyChange (changes : List Change) : Bool := !changes.isEmpty

def anyStamp (changes : List Change) : Bool := changes.any Change.stamps

def Call.apply (c : Call) (id : String) (scope : Scope) : Run Outcome := ExceptT.mk fun a =>
  match (c.act scope).run ⟨c.realm, [], [], [], a.ambient⟩ with
  | (.ok (), s) => (.ok ⟨true, s.changes, [], s.warnings⟩, a.settle id s anyChange)
  | (.error (.rejected e), s) =>
    (.ok ⟨false, s.changes, [.effect e], s.warnings⟩, a.settle id s anyChange)
  | (.error (.fault f), s) => (.error f, a.settle id s anyStamp)

def Run.eval {α : Type} (x : Eval α) : Run α := ExceptT.mk fun a =>
  let (result, chance) := x.run a.ambient.chance
  (result, { a with ambient := { a.ambient with chance } })

/-- Runs one event of one instance: the requirement is checked, then the effect is applied,
then each weighted effect is rolled for. -/
def runEvent (programs : Programs) (r : Request) : Run Outcome := do
  match r.call programs (← get).realms with
  | .error e => return .failure e
  | .ok c =>
    let scope := c.scope r.parameters
    let stage : Stage := ⟨c.realm, [], [], [], (← get).ambient⟩
    if ← Run.eval (holds defaultPlaceholder (stage.bindings scope) c.event.condition) then
      c.apply r.worldId scope
    else return .skipped .requirementsNotMet

/-- A world while a rule runs on it. The variables are those that the rule sees. -/
structure RuleStage where
  world : World
  vars : Record
  changes : List Change
  chance : Chance

abbrev RuleAct := ExceptT Fault (StateM RuleStage)

namespace RuleStage

def bindings (s : RuleStage) : Bindings := ⟨none, none, s.vars⟩

def raiseFlag (s : RuleStage) (flag : String) : RuleStage :=
  { s with
    world := s.world.setVariable flag (.bool true)
    vars := s.vars.put flag (.bool true)
    changes := s.changes ++
      [.flagged flag ((s.world.vars.get? flag).getD (.bool false))] }

end RuleStage

def RuleAct.holds (condition : Expr) : RuleAct Bool := ExceptT.mk fun s =>
  let (result, chance) :=
    (StepWorld.holds defaultPlaceholder s.bindings (some condition)).run s.chance
  (result, { s with chance })

mutual

/-- Raises the flags that an effect implies. Only implications of a flag that ends a run do
anything; all other effects of rules are accepted and ignored. -/
def applyRuleEffect : Expr → RuleAct Unit
  | .sequence parts => applyRuleEffects parts
  | .binary op condition (.identifier flag) => do
    if op = "->" ∧ flag ∈ terminalFlags then
      if ← RuleAct.holds condition then modify (·.raiseFlag flag)
  | _ => pure ()

def applyRuleEffects : List Expr → RuleAct Unit
  | [] => pure ()
  | part :: rest => do
    applyRuleEffect part
    applyRuleEffects rest

end

def temporalNotices : List TemporalClause → RuleAct (List Notice)
  | [] => return []
  | c :: rest => do
    let satisfied ← RuleAct.holds c.toExpr
    let notices ← temporalNotices rest
    return if satisfied then notices else .temporalNotSatisfied c.op :: notices

/-- The remarks on probability clauses whose threshold the placeholder misses. -/
def probabilityNotices (clauses : List ProbabilityClause) : List Notice :=
  (clauses.filter fun c => !meetsThreshold defaultPlaceholder c.comparison c.threshold).map
    fun c => .probabilityNotSatisfied c.event

def RuleDecl.act (rule : RuleDecl) : RuleAct (List Notice) := do
  match rule.effect with
  | some effect => applyRuleEffect effect
  | none => pure ()
  let notices ← temporalNotices rule.temporal
  return notices ++ probabilityNotices rule.probability

def Request.ruleIn (r : Request) (programs : Programs) (realms : Table Realm) :
    Except RunError (Realm × RuleDecl) := do
  match present? r.rule with
  | some name =>
    let some program := programs r.specification
      | .error (.specificationNotFound r.specification)
    let some realm := realms.get? r.worldId | .error .worldNotFound
    let some rule := program.rule? name | .error (.ruleNotFound name)
    return (realm, rule)
  | none => .error .missingParameters

def RuleDecl.apply (rule : RuleDecl) (realm : Realm) (id : String) (vars : Record) :
    Run Outcome := ExceptT.mk fun a =>
  match rule.act.run ⟨realm.world, vars, [], a.ambient.chance⟩ with
  | (.ok notices, s) =>
    (.ok ⟨true, s.changes, [], notices⟩,
      { a with ambient := { a.ambient with chance := s.chance } }.restamp id s.world)
  | (.error f, s) =>
    let a := { a with ambient := { a.ambient with chance := s.chance } }
    (.error f, if anyStamp s.changes then a.restamp id s.world else a.keep id s.world)

/-- Runs one rule. Clauses that do not hold are remarked and undo nothing. -/
def runRule (programs : Programs) (r : Request) : Run Outcome := do
  match r.ruleIn programs (← get).realms with
  | .error e => return .failure e
  | .ok (realm, rule) =>
    let vars := realm.world.vars.putAll r.parameters
    if ← Run.eval (holds defaultPlaceholder ⟨none, none, vars⟩ rule.condition) then
      rule.apply realm r.worldId vars
    else return .skipped .conditionNotMet

end StepWorld
