import StepWorld.World.Basic

/-! Changes of a world, as reports list them. -/

namespace StepWorld

inductive Change where
  | assigned (target property : String) (old new : Value)
  | modified (target property : String) (old new : Value)
  | flagged (flag : String) (old : Value)
  | created (id type : String) (properties : Record)
  | removed (id type : String) (state : Record)

namespace Change

def kind : Change → String
  | .assigned .. => "assignment"
  | .modified .. => "modification"
  | .flagged .. => "variable"
  | .created .. => "create_entity"
  | .removed .. => "remove_entity"

/-- The id of the instance that changed; variables belong to the whole world. -/
def target : Change → String
  | .assigned target .. | .modified target .. => target
  | .flagged .. => "global"
  | .created id .. | .removed id .. => id

def property? : Change → Option String
  | .assigned _ property .. | .modified _ property .. => some property
  | .flagged flag _ => some flag
  | .created .. | .removed .. => none

def old : Change → Value
  | .assigned _ _ old _ | .modified _ _ old _ | .flagged _ old => old
  | .created .. => .null
  | .removed _ type state => .map [("entity_type", .str type), ("state", .map state)]

def new : Change → Value
  | .assigned _ _ _ new | .modified _ _ _ new => new
  | .flagged .. => .bool true
  | .created _ type properties =>
    .map [("entity_type", .str type), ("properties", .map properties)]
  | .removed .. => .null

/-- Whether the change stamps its world at once. Others leave that to the end of an event. -/
def stamps : Change → Bool
  | .assigned .. | .modified .. => false
  | _ => true

end Change

inductive EffectError where
  | targetNotFound (target : String)
  | notNumbers (op owner property : String) (old value : Value)
  | divisionByZero (owner property : String) (divisor : Value)
  | unsupportedOperator (op : String)
  | typeNotFound (type : String)
  | instanceNotFound (id : String)

def EffectError.message : EffectError → String
  | .targetNotFound target => "Target not found: " ++ target
  | .notNumbers op owner property old value =>
    "Cannot apply " ++ op ++ " to " ++ owner ++ "." ++ property ++ ": " ++ old.text ++ " and " ++
      value.text ++ " must be numbers"
  | .divisionByZero owner property divisor =>
    "Division by zero in " ++ owner ++ "." ++ property ++ " /= " ++ divisor.display
  | .unsupportedOperator op => "Unsupported modification operator: " ++ op
  | .typeNotFound type => "Entity type " ++ type ++ " not found"
  | .instanceNotFound id => "Instance " ++ id ++ " not found"

inductive RunError where
  | missingParameters
  | specificationNotFound (id : String)
  | worldNotFound
  | typeNotFound (type : String)
  | instanceNotFound (id : String)
  | eventNotFound (event type : String)
  | ruleNotFound (rule : String)
  | effect (error : EffectError)

def RunError.message : RunError → String
  | .missingParameters => "Missing required context parameters"
  | .specificationNotFound id => "Specification not found: " ++ id
  | .worldNotFound => "State not found"
  | .typeNotFound type => "Entity type " ++ type ++ " not found"
  | .instanceNotFound id => "Instance " ++ id ++ " not found"
  | .eventNotFound event type => "Event " ++ event ++ " not found on entity " ++ type
  | .ruleNotFound rule => "Rule " ++ rule ++ " not found"
  | .effect e => e.message

inductive Notice where
  | requirementsNotMet
  | conditionNotMet
  | unsupportedCall (function : String)
  | unsupportedEffect (effect : Expr)
  | temporalNotSatisfied (op : TemporalOp)
  | probabilityNotSatisfied (event : Expr)

def Notice.message : Notice → String
  | .requirementsNotMet => "Event requirements not met"
  | .conditionNotMet => "Rule condition not met"
  | .unsupportedCall function => "Function call effects are not supported: " ++ function
  | .unsupportedEffect effect => "Unsupported effect: " ++ effect.render
  | .temporalNotSatisfied op => "Temporal constraint " ++ op.name ++ " not satisfied"
  | .probabilityNotSatisfied event => "Probability constraint not satisfied: " ++ event.render

structure Outcome where
  success : Bool
  changes : List Change
  errors : List RunError
  warnings : List Notice

namespace Outcome

def failure (error : RunError) : Outcome := ⟨false, [], [error], []⟩

def skipped (warning : Notice) : Outcome := ⟨false, [], [], [warning]⟩

end Outcome

end StepWorld
