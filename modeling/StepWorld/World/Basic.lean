import StepWorld.Program
import StepWorld.Value.Sharing

/-! Worlds: instances of entities, variables, a clock and a bounded history. -/

namespace StepWorld

/-- One occurrence of an entity. Its id is unique within its type. -/
structure Instance where
  id : String
  type : String
  state : Record
  events : List String

structure Moment where
  step : Int
  time : Int
  vars : Record
  entities : Table (List (String × Record))
  events : List String
  rules : List String

/-- A world. Its instances stand under their types, in the order in which they appeared; the
stamp tells when the world was last changed. -/
structure World where
  time : Int
  step : Int
  entities : Table (List Instance)
  vars : Record
  history : List Moment
  totalSteps : Int
  stamp : Nat

abbrev Blueprint := Table EntityDecl

structure Realm where
  blueprint : Blueprint
  world : World

def baseVariables : Record :=
  [("time", .int 0), ("step", .int 0), ("GameOver", .bool false), ("LevelComplete", .bool false)]

namespace World

def empty (stamp : Nat) : World := ⟨0, 0, [], [], [], 0, stamp⟩

def instances (w : World) (type : String) : List Instance := (w.entities.get? type).getD []

def first? (w : World) (type : String) : Option Instance := (w.instances type).head?

def find? (w : World) (type id : String) : Option Instance :=
  (w.instances type).find? (·.id == id)

def touch (w : World) (stamp : Nat) : World := { w with stamp }

def setVariable (w : World) (name : String) (value : Value) : World :=
  { w with vars := w.vars.put name value }

def modifyFirst (id : String) (f : Instance → Instance) : List Instance → List Instance
  | [] => []
  | i :: rest => if i.id == id then f i :: rest else i :: modifyFirst id f rest

def modifyInstance (w : World) (type id : String) (f : Instance → Instance) : World :=
  { w with entities := w.entities.modify type (modifyFirst id f) }

def addInstance (w : World) (i : Instance) : World :=
  { w with entities := w.entities.put i.type (w.instances i.type ++ [i]) }

def removeInstance (w : World) (type id : String) : World :=
  { w with entities := w.entities.modify type fun is => is.eraseP (·.id == id) }

/-- A world in which every list of an origin holds some items. Lists of documents are not
known apart and keep theirs. -/
def shareItems (w : World) (origin : Origin) (items : List Value) : World :=
  if origin = .document then w
  else
    { w with
      entities := w.entities.map fun (type, is) => (type, is.map fun i =>
        { i with state := Value.fieldsWithItems origin items i.state })
      vars := Value.fieldsWithItems origin items w.vars }

/-- Why nothing can be appended: an instance has no such property, or there is no list. -/
inductive AppendError where
  | noProperty
  | noList

/-- Appends to a property that holds a list. The list changes wherever it is held. -/
def append (w : World) (type id property : String) (value : Value) :
    Except AppendError World :=
  match w.find? type id with
  | none => .error .noList
  | some i =>
    match i.state.get? property with
    | some (.list origin items) =>
      let items := items ++ [value]
      .ok ((w.modifyInstance type id fun i =>
        { i with state := i.state.put property (.list origin items) }).shareItems origin items)
    | some _ => .error .noList
    | none => .error .noProperty

def flagged (w : World) (flag : String) : Bool :=
  match w.vars.get? flag with
  | some (.bool true) => true
  | _ => false

def terminal (w : World) : Bool := terminalFlags.any w.flagged

def moment (w : World) (events rules : List String) : Moment where
  step := w.step
  time := w.time
  vars := w.vars
  entities := w.entities.map fun (type, is) => (type, is.map fun i => (i.id, i.state))
  events
  rules

/-- Drops the oldest moments beyond a limit. A limit of zero bounds nothing, and one below
zero drops as many moments as it says. -/
def boundHistory (limit : Int) (history : List Moment) : List Moment :=
  if history.length ≤ limit then history
  else if 0 < limit then history.drop (history.length - limit.toNat)
  else history.drop (-limit).toNat

def record (w : World) (limit : Int) (events rules : List String) : World :=
  { w with
    history := boundHistory limit (w.history ++ [w.moment events rules])
    totalSteps := w.step }

end World

def Instance.setProperty (i : Instance) (name : String) (value : Value) : Instance :=
  { i with state := i.state.put name value }

def Instance.setProperties (i : Instance) (updates : Record) : Instance :=
  { i with state := i.state.putAll updates }

def EntityDecl.eventNames (entity : EntityDecl) : List String := entity.events.map (·.name)

/-- An instance with the declared defaults, overlaid with properties. Its lists are its own. -/
def EntityDecl.instantiate (entity : EntityDecl) (type id : String) (properties : Record) :
    Instance where
  id
  type
  state := Record.madeFor id (entity.defaultState.putAll properties)
  events := entity.eventNames

namespace Blueprint

def ofEntities (entities : List EntityDecl) : Blueprint :=
  Table.ofEntries (entities.map fun e => (e.name, e))

def build (blueprint : Blueprint) (stamp : Nat) : World where
  time := 0
  step := 0
  entities := blueprint.map fun (name, entity) =>
    (name, [entity.instantiate name (name ++ "_0") []])
  vars := baseVariables
  history := []
  totalSteps := 0
  stamp

end Blueprint

def Realm.create (entities : List EntityDecl) (stamp : Nat) : Realm :=
  let blueprint := Blueprint.ofEntities entities
  ⟨blueprint, blueprint.build stamp⟩

def Realm.reset (r : Realm) (stamp : Nat) : Realm := { r with world := r.blueprint.build stamp }

end StepWorld
