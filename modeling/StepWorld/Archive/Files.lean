import StepWorld.Archive.Document
import StepWorld.Archive.Error
import StepWorld.Archive.Memory

/-! An archive of simulations in files: for each simulation a directory with its record, its
result and one snapshot per step. The files hold JSON, which knows no NaN and no infinities:
free-form values of these kinds are stored as null. Directories are made before a file is
written, and stay if it cannot be written then. -/

namespace StepWorld

mutual

def Value.stored : Value → Value
  | .float x => if x.isFinite then .float x else .null
  | .nan _ => .null
  | .list origin items => .list origin (storedItems items)
  | .map fields => .map (storedFields fields)
  | v => v

def Value.storedItems : List Value → List Value
  | [] => []
  | v :: rest => v.stored :: storedItems rest

def Value.storedFields : List (String × Value) → List (String × Value)
  | [] => []
  | (k, v) :: rest => (k, v.stored) :: storedFields rest

end

def Instance.stored (i : Instance) : Instance :=
  { i with state := Value.storedFields i.state }

def Moment.stored (m : Moment) : Moment :=
  { m with
    vars := Value.storedFields m.vars
    entities := m.entities.map fun (type, is) =>
      (type, is.map fun (id, state) => (id, Value.storedFields state)) }

def World.stored (w : World) : World :=
  { w with
    vars := Value.storedFields w.vars
    entities := w.entities.map fun (type, is) => (type, is.map (·.stored))
    history := w.history.map (·.stored) }

def SimulationResult.stored (r : SimulationResult) : SimulationResult :=
  { r with finalWorld := r.finalWorld.stored, history := r.history.map (·.stored) }

inductive StoredFile where
  | record (s : Simulation)
  | snapshot (w : World)
  | result (r : SimulationResult)

/-- The document in a file. A snapshot says nothing of history. -/
def StoredFile.document : StoredFile → Value
  | .record s => s.document
  | .snapshot w => .map w.presentFields
  | .result r => r.document

/-- Digits of a number, padded with zeros to some width; a sign counts as a digit. -/
def paddedInt (width : Nat) (n : Int) : List Char :=
  let digits := (toString n.natAbs).toList
  let sign : List Char := if n < 0 then ['-'] else []
  sign ++ List.replicate (width - sign.length - digits.length) '0' ++ digits

def snapshotName (step : Int) : String := String.ofList (paddedInt 5 step ++ ".json".toList)

/-- The part of a file name before `.json` if it is made of signs for digits. -/
def stepText? (name : String) : Option String :=
  let digits := name.toList.takeWhile isDigitLike
  if !digits.isEmpty && name.toList.drop digits.length == ".json".toList then
    some (String.ofList digits)
  else none

/-- The number of a snapshot. Not all signs for digits make up numbers. -/
def stepOf (text : String) : Except ArchiveError Int :=
  match readInt text with
  | .ok n => .ok n
  | .error _ => .error (.stepName text)

/-- An archive in a folder, below a directory of it. -/
structure FileArchive where
  base : Path
  folder : Folder StoredFile

namespace FileArchive

/-- A change of an archive. What was done before it failed stays. -/
abbrev Task := ExceptT ArchiveError (StateM FileArchive)

def create (base : Path) : FileArchive := ⟨base, .empty⟩

section Paths

variable (a : FileArchive)

/-- The directory of a simulation. An id with slashes leads further down. -/
def directoryPath (id : String) : Path := a.base.join (.ofString id)

def recordPath (id : String) : Path := (a.directoryPath id).child "simulation.json"

def resultPath (id : String) : Path := (a.directoryPath id).child "result.json"

def snapshotsPath (id : String) : Path := (a.directoryPath id).child "snapshots"

def snapshotPath (id : String) (step : Int) : Path := (a.snapshotsPath id).child (snapshotName step)

end Paths

def onFolder {α : Type} (task : FolderTask StoredFile α) : Task α := ExceptT.mk fun a =>
  match task.run.run a.folder with
  | (.ok x, folder) => (.ok x, { a with folder })
  | (.error e, folder) => (.error (.file e), { a with folder })

def writeFile (path : Path) (file : StoredFile) : Task Unit :=
  if file.document.isWritable then onFolder (.write path file)
  else throw (.number .longInteger)

def saveRecord (s : Simulation) : Task Unit := do
  let a ← get
  onFolder (.ensureDirectories (a.directoryPath s.id))
  writeFile (a.recordPath s.id) (.record s)

def setStatus (id : String) (status : SimulationStatus) (completedAt : Option Nat) :
    Task Unit := do
  let path := (← get).recordPath id
  if ← onFolder (.found path) then
    match ← onFolder (.read path) with
    | .record s => writeFile path (.record (s.withStatus status completedAt))
    | _ => pure ()

def makeRoom (id : String) : Task Unit := do
  onFolder (.ensureDirectories ((← get).snapshotsPath id))

def saveSnapshot (id : String) (step : Int) (world : World) : Task Unit := do
  makeRoom id
  writeFile ((← get).snapshotPath id step) (.snapshot world.withoutHistory.stored)

def saveResult (id : String) (result : SimulationResult) : Task Unit := do
  let a ← get
  onFolder (.ensureDirectories (a.directoryPath id))
  writeFile (a.resultPath id) (.result result.stored)

def delete (id : String) : Task Unit := do
  let path := (← get).directoryPath id
  if ← onFolder (.found path) then onFolder (.deleteTree path)

variable (a : FileArchive)

def answer {α : Type} (path : Path) : Except FileCause α → Except ArchiveError α
  | .ok x => .ok x
  | .error cause => .error (.file ⟨cause, path⟩)

def file? (path : Path) : Except ArchiveError (Option StoredFile) := do
  if ← answer path (a.folder.entry path).found then
    return some (← answer path (a.folder.content path))
  else return none

def record? (id : String) : Except ArchiveError (Option Simulation) := do
  match ← a.file? (a.recordPath id) with
  | some (.record s) => return some s
  | _ => return none

def snapshot? (id : String) (step : Int) : Except ArchiveError (Option World) := do
  match ← a.file? (a.snapshotPath id step) with
  | some (.snapshot w) => return some w
  | _ => return none

def result? (id : String) : Except ArchiveError (Option SimulationResult) := do
  match ← a.file? (a.resultPath id) with
  | some (.result r) => return some r
  | _ => return none

/-- The steps that have a snapshot, in ascending order, read off the names of the files. -/
def steps (id : String) : Except ArchiveError (List Int) :=
  match a.folder.find (a.snapshotsPath id) with
  | (place, .directory) => do
    let steps ← ((a.folder.names place).filterMap stepText?).mapM stepOf
    return steps.mergeSort (· ≤ ·)
  | (_, .overlong) => .error (.file ⟨.overlong, a.snapshotsPath id⟩)
  | _ => .ok []

def documentAt (path : Path) : Except ArchiveError Value := do
  let path := a.base.join path
  return (← answer path (a.folder.content path)).document

def paths : List String :=
  match a.folder.directory? a.base with
  | some place =>
    ((a.folder.filesBelow place).map fun entry => String.intercalate "/" entry.1).mergeSort
      (· ≤ ·)
  | none => []

end FileArchive

end StepWorld
