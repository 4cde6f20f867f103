import StepWorld.Evaluation
import StepWorld.World.Change

/-! Simulations: their life, their statistics and their results. -/

namespace StepWorld

inductive SimulationStatus where
  | created
  | running
  | paused
  | completed
  | error
deriving DecidableEq, Repr

namespace SimulationStatus

def name : SimulationStatus → String
  | .created => "created"
  | .running => "running"
  | .paused => "paused"
  | .completed => "completed"
  | .error => "error"

def ofName? : String → Option SimulationStatus
  | "created" => some .created
  | "running" => some .running
  | "paused" => some .paused
  | "completed" => some .completed
  | "error" => some .error
  | _ => none

def terminal : SimulationStatus → Bool
  | .completed | .error => true
  | _ => false

theorem ofName?_name (s : SimulationStatus) : ofName? s.name = some s := by
  cases s <;> rfl

end SimulationStatus

/-- The calls that move a simulation from one status to another. -/
inductive LifecycleAction where
  | start
  | pause
  | resume
  | stop
deriving DecidableEq, Repr

namespace LifecycleAction

def name : LifecycleAction → String
  | .start => "start"
  | .pause => "pause"
  | .resume => "resume"
  | .stop => "stop"

def allows : LifecycleAction → SimulationStatus → Bool
  | .start, s => s == .created
  | .pause, s => s == .running
  | .resume, s => s == .paused
  | .stop, s => !s.terminal

def allowedText : LifecycleAction → String
  | .start => "created"
  | .pause => "running"
  | .resume => "paused"
  | .stop => "created, running or paused"

end LifecycleAction

/-- How many events and rules were tried and ran, and how much they changed. -/
structure Statistics where
  eventsExecuted : Nat
  rulesExecuted : Nat
  stateChanges : Nat
  eventsAttempted : Nat
  rulesAttempted : Nat
deriving DecidableEq, Repr

def Statistics.none : Statistics := ⟨0, 0, 0, 0, 0⟩

/-- The float nearest to the share of attempts that ran; zero when nothing was tried. -/
def Statistics.successRate (s : Statistics) : Float :=
  let attempted := s.eventsAttempted + s.rulesAttempted
  if attempted = 0 then 0 else nearest false (s.eventsExecuted + s.rulesExecuted) attempted

inductive StepError where
  | specificationNotFound (id : String)
  | worldGone (simulation : String)
  | fault (fault : Fault)
deriving DecidableEq, Repr

def specificationNotFoundMessage (id : String) : String :=
  "Specification '" ++ id ++ "' not found.\n\nRemediation tips:\n" ++
    "  - Parse the source with SpecificationService.parse_specification() first\n" ++
    "  - Use the id from the returned specification, not its name\n" ++
    "  - Check the specification was not deleted in the meantime"

def StepError.message : StepError → String
  | .specificationNotFound id => specificationNotFoundMessage id
  | .worldGone simulation => "State for simulation '" ++ simulation ++ "' no longer exists"
  | .fault f => f.message

structure Simulation where
  id : String
  specification : String
  name : String
  description : Option String
  status : SimulationStatus
  currentStep : Nat
  maxSteps : Int
  stepInterval : Float
  createdAt : Nat
  startedAt : Option Nat
  completedAt : Option Nat
  statistics : Statistics
  error : Option String

structure StepSummary where
  step : Nat
  time : Int
  events : List String
  rules : List String
  changes : Nat
  errors : List RunError
  terminal : Bool

structure SimulationMetrics where
  totalSteps : Nat
  eventsExecuted : Nat
  rulesExecuted : Nat
  successRate : Float

/-- A completed simulation with the world it ended in. -/
structure SimulationResult where
  simulation : Simulation
  finalWorld : World
  history : List Moment
  metrics : SimulationMetrics

def Simulation.result (s : Simulation) (world : World) : SimulationResult where
  simulation := s
  finalWorld := world
  history := world.history
  metrics := ⟨s.currentStep, s.statistics.eventsExecuted, s.statistics.rulesExecuted,
    s.statistics.successRate⟩

end StepWorld
