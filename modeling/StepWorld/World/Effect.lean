import StepWorld.Evaluation
import StepWorld.World.Ambient
import StepWorld.World.Change

/-! Applying effects to a world. Every change is listed as it is made, and what was changed
before an effect fails stays changed. An owner in an effect means the acting instance
(`Self`), the first instance of the event's target type (`Target`) or the first instance of
the type of that name. -/

namespace StepWorld

structure Handle where
  type : String
  id : String
deriving DecidableEq, Repr

/-- What an effect sees: who acts, which type is aimed at, who was aimed at when the event
began, and the variables. -/
structure Scope where
  acting : Option Handle
  targetType : Option String
  target : Option Handle
  vars : Record

/-- A world while effects are applied to it. Instances that were removed meanwhile can still
act. -/
structure Stage where
  realm : Realm
  departed : List Instance
  changes : List Change
  warnings : List Notice
  ambient : Ambient

/-- Why effects stop: one was rejected, or numbers failed. -/
inductive Halt where
  | rejected (error : EffectError)
  | fault (fault : Fault)

/-- A part of an effect: it changes the stage and may stop. -/
abbrev Act := ExceptT Halt (StateM Stage)

namespace Stage

def instance? (s : Stage) (h : Handle) : Option Instance :=
  (s.realm.world.find? h.type h.id).or
    (s.departed.find? fun i => i.type == h.type && i.id == h.id)

def stateOf (s : Stage) (h : Handle) : Option Record := (s.instance? h).map (·.state)

def bindings (s : Stage) (scope : Scope) : Bindings :=
  ⟨scope.acting.bind s.stateOf, scope.target.bind s.stateOf, scope.vars⟩

def setWorld (s : Stage) (world : World) : Stage := { s with realm := { s.realm with world } }

def setProperty (s : Stage) (h : Handle) (property : String) (value : Value) : Stage :=
  if (s.realm.world.find? h.type h.id).isSome then
    s.setWorld (s.realm.world.modifyInstance h.type h.id (·.setProperty property value))
  else
    { s with departed := s.departed.map fun i =>
        if i.type == h.type && i.id == h.id then i.setProperty property value else i }

def addChange (s : Stage) (change : Change) : Stage := { s with changes := s.changes ++ [change] }

def owner? (s : Stage) (scope : Scope) (owner : String) : Option Handle :=
  let first (type : String) : Option Handle :=
    (s.realm.world.first? type).map fun i => ⟨type, i.id⟩
  if owner = "Self" then scope.acting
  else if owner = "Target" then scope.targetType.bind first
  else first owner

end Stage

namespace Act

def reject {α : Type} (error : EffectError) : Act α := throw (.rejected error)

def ofExcept {α : Type} : Except Fault α → Act α
  | .ok a => pure a
  | .error fault => throw (.fault fault)

def eval {α : Type} (x : Eval α) : Act α := ExceptT.mk fun s =>
  match x.run s.ambient.chance with
  | (.ok a, chance) => (.ok a, { s with ambient := { s.ambient with chance } })
  | (.error fault, chance) =>
    (.error (.fault fault), { s with ambient := { s.ambient with chance } })

def requireWritable (values : List Value) : Act Unit :=
  if values.all (·.isWritable) then pure () else throw (.fault .longInteger)

def warn (notice : Notice) : Act Unit :=
  modify fun s => { s with warnings := s.warnings ++ [notice] }

end Act

/-- The difference of two numbers, but at least zero. It is a float if either number is. -/
def floorDifference (a b : Number) : Except Fault Value := do
  let difference ← a.subtract b
  let floor : Number := if a.isReal || b.isReal then .real 0 else .whole 0
  return (if difference.relation floor = .greater then difference else floor).toValue

/-- The new value of a property under a modifying operator. A rejection shows both operands. -/
def modifiedValue (op owner property : String) (old value : Value) : Act Value :=
  match old.number?, value.number? with
  | some a, some b =>
    if op = "+=" then Act.ofExcept (Number.toValue <$> a.add b)
    else if op = "-=" then Act.ofExcept (floorDifference a b)
    else if op = "*=" then Act.ofExcept (Number.toValue <$> a.multiply b)
    else if op = "/=" then
      if b.isZero then Act.reject (.divisionByZero owner property value)
      else Act.ofExcept (Number.toValue <$> a.divide b)
    else Act.reject (.unsupportedOperator op)
  | _, _ => do
    Act.requireWritable [old, value]
    Act.reject (.notNumbers op owner property old value)

/-- Sets a property of an owner. The value is worked out after the owner is found. -/
def assignProperty (scope : Scope) (op owner property : String) (value : Expr) : Act Unit := do
  match (← get).owner? scope owner with
  | none => Act.reject (.targetNotFound owner)
  | some h =>
    let value ← Act.eval (evaluate defaultPlaceholder ((← get).bindings scope) value)
    let old := (((← get).stateOf h).bind (Table.get? property)).getD .null
    let new ← if op = "=" then pure value else modifiedValue op owner property old value
    let change : Change :=
      if op = "=" then .assigned h.id property old new else .modified h.id property old new
    modify fun s => (s.setProperty h property new).addChange change
    if (← get).ambient.debugs then Act.requireWritable [old, new]
    modify fun s => { s with ambient := s.ambient.debug .deterministic fun _ =>
      h.id ++ "." ++ property ++ ": " ++ old.text ++ " -> " ++ new.text }

def assign (scope : Scope) (op : String) (target value : Expr) : Act Unit :=
  match target with
  | .property owner property => assignProperty scope op owner property value
  | target => Act.reject (.targetNotFound target.render)

def createInstance (type : String) (properties : Record) : Act Unit := do
  match (← get).realm.blueprint.get? type with
  | none => Act.reject (.typeNotFound type)
  | some entity =>
    modify fun s =>
      let (id, ambient) := s.ambient.issue type
      let world := s.realm.world.addInstance (entity.instantiate type id properties)
      ({ s.setWorld world with ambient }).addChange (.created id type properties)

def removeInstance (type id : String) : Act Unit := do
  match (← get).realm.world.find? type id with
  | none => Act.reject (.instanceNotFound id)
  | some i =>
    modify fun s =>
      { s.setWorld (s.realm.world.removeInstance type id) with departed := i :: s.departed }
        |>.addChange (.removed id type i.state)

mutual

/-- Applies an effect. What is no effect is remarked and left alone. -/
def applyEffect (scope : Scope) : Expr → Act Unit
  | .assignment op target value => assign scope op target value
  | .sequence parts => applyEffects scope parts
  | .create type properties => createInstance type properties
  | .remove type id => removeInstance type id
  | .call function _ => Act.warn (.unsupportedCall function)
  | effect => Act.warn (.unsupportedEffect effect)

def applyEffects (scope : Scope) : List Expr → Act Unit
  | [] => pure ()
  | effect :: rest => do
    applyEffect scope effect
    applyEffects scope rest

end

/-- Rolls for each weighted effect and applies those whose draw falls below the weight. -/
def applyWeighted (scope : Scope) (label : String) : List WeightedEffect → Act Unit
  | [] => pure ()
  | w :: rest => do
    let (k, ambient) := (← get).ambient.draw
    let fired : Bool := nearest false k (twoPow 53) < w.weight
    modify fun s => { s with ambient := ambient.debug .random fun _ =>
      label ++ " roll " ++ thousandthsText k (twoPow 53) ++ " vs " ++ floatText w.weight ++ " -> " ++
        if fired then "fire" else "skip" }
    if fired then applyEffect scope w.effect
    applyWeighted scope label rest

end StepWorld
