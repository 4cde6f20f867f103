import StepWorld.Archive
import StepWorld.Engine.Schedule
import StepWorld.Settings
import StepWorld.Specification
import StepWorld.World.Arena

/-! The engine: specifications, simulations, their worlds and their loops. A loop that has been
started waits until a call lets loops take turns. -/

namespace StepWorld

inductive Reaction where
  | pause
  | stop
  | fail
  | dropWorld
  | setVariable (name : String) (value : Value)

inductive CallError where
  | specificationNotFound (id : String)
  | simulationNotFound (id : String)
  | invalidTransition (id : String) (action : LifecycleAction) (status : SimulationStatus)
  | archive (error : ArchiveError)
deriving DecidableEq, Repr

/-- `listener` tells what happens after a step of a simulation. `detached` holds simulations
that were forgotten while their loops were waiting, `started` those that have had a loop,
`failures` what their last loop broke off with, `summaries` all steps that the listener saw,
`begun` the simulations of all steps that were begun, `statuses` every status that a simulation
was given, `refusals` all that the archive refused. -/
structure Engine where
  settings : Settings
  listener : String → Nat → List Reaction
  arena : Arena
  specifications : Table Specification
  simulations : Table Simulation
  detached : Table Simulation
  results : Table SimulationResult
  started : List String
  active : List String
  failures : Table CallError
  schedule : Schedule
  archive : Archive
  summaries : List (String × StepSummary)
  begun : List String
  statuses : List (String × SimulationStatus)
  refusals : List ArchiveError

def CallError.message : CallError → String
  | .specificationNotFound id => specificationNotFoundMessage id
  | .simulationNotFound id =>
    "Simulation '" ++ id ++ "' not found.\n\nRemediation tips:\n" ++
      "  - Create it with SimulationDriver.create_simulation() first\n" ++
      "  - Check the simulation was not deleted in the meantime"
  | .invalidTransition id action status =>
    "Cannot " ++ action.name ++ " simulation '" ++ id ++ "': it is " ++ status.name ++ ".\n\n'" ++
      action.name ++ "' is only allowed when the simulation is " ++ action.allowedText ++ ".\n" ++
      "Remediation tips:\n" ++
      "  - Inspect the status with SimulationDriver.get_simulation()\n" ++
      "  - Create a new simulation to run a finished specification again"
  | .archive e => e.message

namespace Engine

def create (settings : Settings) (environment : Environment) (chance : Chance)
    (archive : Archive) (listener : String → Nat → List Reaction) : Engine where
  settings
  listener
  arena := ⟨[], ⟨environment, chance, 0, 0, []⟩⟩
  specifications := []
  simulations := []
  detached := []
  results := []
  started := []
  active := []
  failures := []
  schedule := .empty
  archive
  summaries := []
  begun := []
  statuses := []
  refusals := []

variable (e : Engine)

def print (kind : LineKind) (message : String) : Engine :=
  { e with arena := e.arena.print kind message }

def tick : Nat × Engine :=
  let (stamp, ambient) := e.arena.ambient.tick
  (stamp, { e with arena := { e.arena with ambient } })

def issue (name : String) : String × Engine :=
  let (id, ambient) := e.arena.ambient.issue name
  (id, { e with arena := { e.arena with ambient } })

def programs (id : String) : Option Program := (e.specifications.get? id).map (·.program)

def runner? (id : String) : Option Simulation :=
  (e.simulations.get? id).or (e.detached.get? id)

def alter (id : String) (f : Simulation → Simulation) : Engine :=
  { e with simulations := e.simulations.modify id f, detached := e.detached.modify id f }

def enter (id : String) (status : SimulationStatus) : Engine :=
  { e with statuses := e.statuses ++ [(id, status)] }.alter id fun s => { s with status }

def reschedule (f : Schedule → Schedule) : Engine := { e with schedule := f e.schedule }

def pending (id : String) : Bool := e.schedule.pending id

def isActive (id : String) : Bool := e.active.contains id

def isLive (id : String) : Bool := (e.simulations.get? id).any fun s => !s.status.terminal

/-- A call on an engine: it may be refused, and what was done before stays. -/
abbrev Task := ExceptT CallError (StateM Engine)

def lookup (id : String) : Task Simulation := do
  match (← get).simulations.get? id with
  | some s => return s
  | none => throw (.simulationNotFound id)

def lookupFor (action : LifecycleAction) (id : String) : Task Simulation := do
  let s ← lookup id
  if action.allows s.status then return s
  else throw (.invalidTransition id action s.status)

def store (task : Archive.Task Unit) : Task Unit := ExceptT.mk fun e =>
  match task.run.run e.archive with
  | (.ok (), archive) => (.ok (), { e with archive })
  | (.error error, archive) =>
    (.error (.archive error), { e with archive, refusals := e.refusals ++ [error] })

def call {α : Type} (task : Task α) : Except CallError α × Engine := task.run.run e

end Engine

end StepWorld
