import StepWorld.Engine.Step

/-! The life of a simulation: it is created, its loop is started, paused and cancelled, and it
is completed or fails. -/

namespace StepWorld

/-- The name of a simulation that is given none. The time of its creation is left open. -/
def unnamedSimulation : String := "Simulation_<timestamp>"

namespace Arena

/-- Sets properties of the first instance of a type. A type without instances is reported. -/
def overrideFirst (a : Arena) (id type : String) (properties : Record) : Arena :=
  match (a.world? id).bind (·.first? type) with
  | some i => a.update id (·.modifyInstance type i.id (·.setProperties properties))
  | none =>
    a.print .error ("[Simulation] Initial state names unknown entity type '" ++ type ++ "'")

def override (a : Arena) (id : String) (initial : InitialState) : Arena :=
  let a := initial.vars.foldl (fun a (name, value) => a.setVariable id name value) a
  initial.entities.foldl (fun a (type, properties) => a.overrideFirst id type properties) a

end Arena

namespace Engine

variable (e : Engine)

def newSimulation (id specification : String) (o : SimulationOptions) (stamp : Nat) :
    Simulation where
  id
  specification
  name := nameOr o.name unnamedSimulation
  description := o.description
  status := .created
  currentStep := 0
  maxSteps := o.maxSteps.elim e.settings.maxSteps Int.ofNat
  stepInterval := o.stepInterval.getD e.settings.stepInterval
  createdAt := stamp
  startedAt := none
  completedAt := none
  statistics := .none
  error := none

def addSimulation (specification : String) (program : Program) (o : SimulationOptions) :
    Simulation × Engine :=
  let (stamp, e) := e.tick
  let (id, e) := e.issue "sim"
  let s := e.newSimulation id specification o stamp
  let arena := e.arena.create id program.entities
  (s, { e with
    arena := o.initialState.elim arena (arena.override id)
    simulations := e.simulations.put id s
    statuses := e.statuses ++ [(id, s.status)] })

def createSimulation (specification : String) (o : SimulationOptions) : Task String := do
  match (← get).specifications.get? specification with
  | none => throw (.specificationNotFound specification)
  | some spec => do
    let s ← modifyGet (·.addSimulation specification spec.program o)
    store (Archive.saveRecord s)
    modify (·.print .info ("[Simulation] Created " ++ s.id ++ " '" ++ s.name ++
      "' (max_steps=" ++ toString s.maxSteps ++ ", interval=" ++ floatText s.stepInterval ++ "s)"))
    return s.id

def setStatus (id : String) (status : SimulationStatus) : Task Unit := do
  modify (·.enter id status)
  store (Archive.setStatus id status none)

def spawn (id : String) : Engine :=
  { e with
    schedule := e.schedule.add id
    failures := e.failures.remove id
    active := if e.active.contains id then e.active else e.active ++ [id]
    started := if e.started.contains id then e.started else e.started ++ [id] }

def noteStart (id : String) : Engine :=
  let (stamp, e) := e.tick
  e.alter id fun s => { s with startedAt := some stamp }

def start (id : String) : Task Unit := do
  let _ ← lookupFor .start id
  modify (·.noteStart id)
  setStatus id .running
  modify fun e => (e.spawn id).print .info ("[Simulation] Started " ++ id)

def cancel (id : String) : Engine := e.reschedule (·.cancel id)

/-- Pauses a running simulation. Its loop ends when its turn comes. -/
def pause (id : String) : Task Unit := do
  let s ← lookupFor .pause id
  modify (·.cancel id)
  setStatus id .paused
  modify (·.print .info
    ("[Simulation] Paused " ++ id ++ " at step " ++ toString s.currentStep))

def noteEnd (id : String) (status : SimulationStatus) : Nat × Engine :=
  let (stamp, e) := e.tick
  (stamp, (e.enter id status).alter id fun s => { s with completedAt := some stamp })

/-- Completes a simulation and keeps its result. A world that is gone counts as empty. -/
def complete (id : String) : Task Unit := do
  let stamp ← modifyGet (·.noteEnd id .completed)
  match (← get).runner? id with
  | none => pure ()
  | some s => do
    let result := s.result (((← get).arena.world? id).getD (.empty stamp))
    modify fun e => { e with results := e.results.put id result, active := e.active.erase id }
    store (Archive.setStatus id .completed (some stamp))
    store (Archive.saveResult id result)
    modify (·.print .success
      ("[Simulation] " ++ id ++ " completed after " ++ toString s.currentStep ++ " steps"))

/-- Ends a simulation with an error. What the archive then refuses is left to those who await
the loop. -/
def fail (id message : String) : Engine :=
  let (stamp, e) := e.noteEnd id .error
  let e := e.alter id fun s => { s with error := some message }
  let step := ((e.runner? id).map (·.currentStep)).getD 0
  let e := e.print .error ("[Simulation] " ++ id ++ " failed at step " ++ toString step ++ ": " ++
    message)
  match e.call (store (Archive.setStatus id .error (some stamp))) with
  | (.ok (), e) => e
  | (.error error, e) => { e with failures := e.failures.put id error }

/-- Drops all that is kept of a simulation but its archive. A loop that waits goes on without
being seen. -/
def forget (id : String) : Engine :=
  { e with
    simulations := e.simulations.remove id
    detached :=
      match e.simulations.get? id with
      | some s => if e.pending id then e.detached.put id s else e.detached
      | none => e.detached
    results := e.results.remove id
    started := e.started.erase id
    active := e.active.erase id
    failures := e.failures.remove id
    schedule := e.schedule.unlock id
    arena := e.arena.delete id }

/-- Drops everything but the archive and cancels the loops of all registered simulations. -/
def clear : Engine :=
  { e with
    specifications := []
    simulations := []
    detached := e.detached.putAll (e.simulations.filter fun entry => e.pending entry.1)
    results := []
    started := []
    active := []
    failures := []
    schedule := { e.started.foldl (·.cancel ·) e.schedule with locks := [] }
    arena := e.arena.clear }

/-- The ids of the simulations, of all or of one specification, in the order of creation. -/
def listSimulations (specification : Option String) : List String :=
  (e.simulations.filter fun entry => wanted specification entry.2.specification).map (·.1)

def history (id : String) : Task (List Moment) := do
  let _ ← lookup id
  return ((← get).arena.world? id).elim [] (·.history)

end Engine

end StepWorld
