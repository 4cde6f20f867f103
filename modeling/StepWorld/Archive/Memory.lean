import StepWorld.Simulation

/-! An archive of simulations in memory. A snapshot is a world after a step, without its
history. -/

namespace StepWorld

def World.withoutHistory (w : World) : World := { w with history := [] }

/-- The record of a simulation with another status. A time of completion replaces the one
before. -/
def Simulation.withStatus (s : Simulation) (status : SimulationStatus)
    (completedAt : Option Nat) : Simulation :=
  { s with status, completedAt := completedAt.or s.completedAt }

structure MemoryArchive where
  records : Table Simulation
  snapshots : List ((String × Int) × World)
  results : Table SimulationResult

namespace MemoryArchive

def empty : MemoryArchive := ⟨[], [], []⟩

variable (a : MemoryArchive)

def saveRecord (s : Simulation) : MemoryArchive := { a with records := a.records.put s.id s }

def setStatus (id : String) (status : SimulationStatus) (completedAt : Option Nat) :
    MemoryArchive :=
  { a with records := a.records.modify id (·.withStatus status completedAt) }

def saveSnapshot (id : String) (step : Int) (world : World) : MemoryArchive :=
  { a with
    snapshots := ((id, step), world.withoutHistory) ::
      a.snapshots.filter fun entry => entry.1 != (id, step) }

def saveResult (id : String) (result : SimulationResult) : MemoryArchive :=
  { a with results := a.results.put id result }

def delete (id : String) : MemoryArchive where
  records := a.records.remove id
  snapshots := a.snapshots.filter fun entry => entry.1.1 != id
  results := a.results.remove id

def record? (id : String) : Option Simulation := a.records.get? id

def snapshot? (id : String) (step : Int) : Option World := a.snapshots.lookup (id, step)

def steps (id : String) : List Int :=
  (a.snapshots.filterMap fun ((owner, step), _) => if owner = id then some step else none)
    |>.mergeSort (· ≤ ·)

def result? (id : String) : Option SimulationResult := a.results.get? id

end MemoryArchive

end StepWorld
