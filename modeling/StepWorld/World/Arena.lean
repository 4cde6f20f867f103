import StepWorld.World.Ambient

/-! The worlds by id. What is asked of a world that is not there does nothing. Every change
that is asked for from outside stamps its world. -/

namespace StepWorld

structure Arena where
  realms : Table Realm
  ambient : Ambient

namespace Arena

variable (a : Arena)

def has (id : String) : Bool := Table.has id a.realms

def world? (id : String) : Option World := (a.realms.get? id).map (·.world)

def declaration? (id type : String) : Option EntityDecl :=
  (a.realms.get? id).bind (·.blueprint.get? type)

def print (kind : LineKind) (message : String) : Arena :=
  { a with ambient := a.ambient.print kind message }

def keep (id : String) (world : World) : Arena :=
  { a with realms := a.realms.modify id fun r => { r with world } }

def update (id : String) (f : World → World) : Arena :=
  let (stamp, ambient) := a.ambient.tick
  { realms := a.realms.modify id fun r => { r with world := (f r.world).touch stamp }, ambient }

def restamp (id : String) (world : World) : Arena := a.update id fun _ => world

def create (id : String) (entities : List EntityDecl) : Arena :=
  let (stamp, ambient) := a.ambient.tick
  { realms := a.realms.put id (Realm.create entities stamp), ambient }

def reset (id : String) : Arena :=
  let (stamp, ambient) := a.ambient.tick
  { realms := a.realms.modify id (·.reset stamp), ambient }

def delete (id : String) : Arena := { a with realms := a.realms.remove id }

def clear : Arena := { a with realms := [] }

def setVariable (id name : String) (value : Value) : Arena :=
  a.update id (·.setVariable name value)

def setClock (id : String) (time step : Int) : Arena :=
  a.update id fun w => { w with time, step }

def instance? (id type instanceId : String) : Option Instance :=
  (a.world? id).bind (·.find? type instanceId)

def setProperties? (id type instanceId : String) (updates : Record) : Option Arena :=
  (a.instance? id type instanceId).map fun _ =>
    a.update id (·.modifyInstance type instanceId (·.setProperties updates))

def append (id type instanceId property : String) (value : Value) :
    Except World.AppendError Arena :=
  match a.world? id with
  | some world => (world.append type instanceId property value).map (a.keep id)
  | none => .error .noList

/-- Adds an instance of a declared type; its properties overlay the declared defaults. -/
def addInstance? (id type : String) (properties : Record) : Option (String × Arena) :=
  (a.declaration? id type).map fun entity =>
    let (instanceId, ambient) := a.ambient.issue type
    (instanceId, { a with ambient }.update id
      (·.addInstance (entity.instantiate type instanceId properties)))

def removeInstance? (id type instanceId : String) : Option Arena :=
  (a.instance? id type instanceId).map fun _ => a.update id (·.removeInstance type instanceId)

def record? (id : String) (limit : Int) (events rules : List String) : Option (Moment × Arena) :=
  (a.world? id).map fun world =>
    (world.moment events rules, a.update id (·.record limit events rules))

end Arena

namespace World

def setAllProperties (w : World) (updates : Table Record) : World :=
  updates.foldl (fun w (type, r) =>
    { w with entities := w.entities.modify type (·.map (·.setProperties r)) }) w

def overlay (w : World) (vars : Record) (updates : Table Record) : World :=
  { w with vars := w.vars.putAll vars }.setAllProperties updates

end World

end StepWorld
