import StepWorld.Archive.Files

/-! Where simulations are archived: in memory or in files. Both keep the same and differ only
in how they keep it and in that files can be refused. -/

namespace StepWorld

inductive Archive where
  | memory (a : MemoryArchive)
  | files (a : FileArchive)

namespace Archive

/-- A change of an archive. What was done before it failed stays. -/
abbrev Task := ExceptT ArchiveError (StateM Archive)

def change (inMemory : MemoryArchive → MemoryArchive) (inFiles : FileArchive.Task Unit) :
    Task Unit :=
  ExceptT.mk fun
    | .memory a => (.ok (), .memory (inMemory a))
    | .files a =>
      let (result, a) := inFiles.run.run a
      (result, .files a)

def saveRecord (s : Simulation) : Task Unit :=
  change (·.saveRecord s) (FileArchive.saveRecord s)

def setStatus (id : String) (status : SimulationStatus) (completedAt : Option Nat) : Task Unit :=
  change (·.setStatus id status completedAt) (FileArchive.setStatus id status completedAt)

/-- Makes room for snapshots. Memory has room. -/
def makeRoom (id : String) : Task Unit := change (fun a => a) (FileArchive.makeRoom id)

def saveSnapshot (id : String) (step : Int) (world : World) : Task Unit :=
  change (·.saveSnapshot id step world) (FileArchive.saveSnapshot id step world)

def saveResult (id : String) (result : SimulationResult) : Task Unit :=
  change (·.saveResult id result) (FileArchive.saveResult id result)

def delete (id : String) : Task Unit := change (·.delete id) (FileArchive.delete id)

def record? (id : String) : Archive → Except ArchiveError (Option Simulation)
  | .memory a => .ok (a.record? id)
  | .files a => a.record? id

def snapshot? (id : String) (step : Int) : Archive → Except ArchiveError (Option World)
  | .memory a => .ok (a.snapshot? id step)
  | .files a => a.snapshot? id step

def result? (id : String) : Archive → Except ArchiveError (Option SimulationResult)
  | .memory a => .ok (a.result? id)
  | .files a => a.result? id

def steps (id : String) : Archive → Except ArchiveError (List Int)
  | .memory a => .ok (a.steps id)
  | .files a => a.steps id

end Archive

end StepWorld
