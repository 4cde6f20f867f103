import StepWorld.Document.Check

/-! What a caller may ask for when a specification is named, a simulation is created,
specifications are listed, an event or rule is run, or a moment is recorded, read from
free-form values. -/

namespace StepWorld

/-- Overrides on a fresh world: variables, and properties of the first instance of a type. -/
structure InitialState where
  vars : Record
  entities : Table Record

structure SimulationOptions where
  name : Option String
  description : Option String
  maxSteps : Option Nat
  stepInterval : Option Float
  initialState : Option InitialState

inductive SpecificationStatus where
  | parsed
  | invalid
deriving DecidableEq, Repr

/-- Which specifications to list. Limit and offset may be negative and then count from the
end. -/
structure SpecificationFilter where
  status : Option SpecificationStatus
  hasTemporal : Option Bool
  hasProbability : Option Bool
  limit : Int
  offset : Int

structure Labels where
  name : Option String
  description : Option String

/-- The events and rules that a moment of history lists. -/
structure MomentNotes where
  events : List String
  rules : List String

/-- What to run: an event of an instance or a rule, and on which world. -/
structure Request where
  specification : String
  world : Option String
  entityType : Option String
  instanceId : Option String
  event : Option String
  rule : Option String
  parameters : Record

def SimulationOptions.default : SimulationOptions := ⟨none, none, none, none, none⟩

def SpecificationFilter.default : SpecificationFilter := ⟨none, none, none, 50, 0⟩

namespace Reader

def record {α : Type} (read : List String → Record → Checked α) : Reader α
  | path, .map fields => read path fields
  | path, _ => Checked.fail path .notRecord

/-- A name; what counts as false stands for none. -/
def name : Reader (Option String) := fun path v =>
  if v.truth then some <$> string path v else .ok none

def labels : Reader Labels := record fun path fields =>
  Checked.both Labels.mk
    (optionalField "name" none path fields name)
    (optionalField "description" none path fields (nullable string))

def momentNotes (path : List String) (events rules : List Value) : Checked MomentNotes :=
  Checked.both MomentNotes.mk
    (Checked.items string (path ++ ["events"]) 0 events)
    (Checked.items string (path ++ ["rules"]) 0 rules)

def initialState : Reader InitialState := record fun path fields =>
  Checked.both InitialState.mk
    (optionalField "variables" [] path fields Reader.fields)
    (optionalField "entities" [] path fields (recordOf Reader.fields))

def simulationOptions : Reader SimulationOptions := record fun path fields =>
  Checked.ap (Checked.ap (Checked.ap (Checked.both SimulationOptions.mk
    (optionalField "name" none path fields (nullable string))
    (optionalField "description" none path fields (nullable string)))
    (optionalField "max_steps" none path fields (nullable count)))
    (optionalField "step_interval" none path fields (nullable duration)))
    (optionalField "initial_state" none path fields (nullable initialState))

def specificationStatus : Reader SpecificationStatus
  | _, .str "parsed" => .ok .parsed
  | _, .str "invalid" => .ok .invalid
  | path, _ => Checked.fail path .notMember

def specificationFilter : Reader SpecificationFilter := record fun path fields =>
  Checked.ap (Checked.ap (Checked.ap (Checked.both SpecificationFilter.mk
    (optionalField "status" none path fields (nullable specificationStatus))
    (optionalField "has_temporal" none path fields (nullable bool)))
    (optionalField "has_probability" none path fields (nullable bool)))
    (optionalField "limit" 50 path fields int))
    (optionalField "offset" 0 path fields int)

def request : Reader Request := record fun path fields =>
  Checked.ap (Checked.ap (Checked.ap (Checked.ap (Checked.ap (Checked.both Request.mk
    (requiredField "specification_id" path fields string)
    (optionalField "state_id" none path fields (nullable string)))
    (optionalField "entity_type" none path fields (nullable string)))
    (optionalField "instance_id" none path fields (nullable string)))
    (optionalField "event" none path fields (nullable string)))
    (optionalField "rule" none path fields (nullable string)))
    (optionalField "parameters" [] path fields Reader.fields)

end Reader

end StepWorld
