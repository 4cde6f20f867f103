import StepWorld.Value

/-! Lists that are held in several places. Lists of one origin are one list, so when items are
appended to one of them all of them have to hold the same items. Copies of lists get origins
of their own. Neither changes how a value compares or prints beyond the items of those
lists. -/

namespace StepWorld

namespace Value

mutual

/-- A copy of a value at a place within the first value of a property of an instance: every
list in it is made with the instance. -/
def madeFor (instanceId property : String) (place : List Nat) : Value → Value
  | .list _ items =>
    .list (.made instanceId property place) (itemsMadeFor instanceId property place 0 items)
  | .map fields => .map (fieldsMadeFor instanceId property place 0 fields)
  | v => v

def itemsMadeFor (instanceId property : String) (place : List Nat) (index : Nat) :
    List Value → List Value
  | [] => []
  | v :: rest =>
    madeFor instanceId property (index :: place) v ::
      itemsMadeFor instanceId property place (index + 1) rest

def fieldsMadeFor (instanceId property : String) (place : List Nat) (index : Nat) :
    List (String × Value) → List (String × Value)
  | [] => []
  | (k, v) :: rest =>
    (k, madeFor instanceId property (index :: place) v) ::
      fieldsMadeFor instanceId property place (index + 1) rest

end

mutual

def withItems (origin : Origin) (items : List Value) : Value → Value
  | .list o old => .list o (if o = origin then items else itemsWithItems origin items old)
  | .map fields => .map (fieldsWithItems origin items fields)
  | v => v

def itemsWithItems (origin : Origin) (items : List Value) : List Value → List Value
  | [] => []
  | v :: rest => withItems origin items v :: itemsWithItems origin items rest

def fieldsWithItems (origin : Origin) (items : List Value) :
    List (String × Value) → List (String × Value)
  | [] => []
  | (k, v) :: rest => (k, withItems origin items v) :: fieldsWithItems origin items rest

end

end Value

namespace Record

/-- The first values of the properties of an instance, none of whose lists is held anywhere
else. -/
def madeFor (instanceId : String) (r : Record) : Record :=
  r.map fun (property, value) => (property, value.madeFor instanceId property [])

end Record

end StepWorld
