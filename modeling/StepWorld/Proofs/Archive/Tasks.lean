import StepWorld.Proofs.Archive.FileShelf

/-! The changes of an archive in files, part by part. Each of them makes directories, looks files up
and writes or deletes some, below one directory that stays the same, so that what each part does to
the folder tells what the whole change does to it. -/

namespace StepWorld

namespace FileArchive

open FolderTask (ensureDirectories write deleteTree)

variable {R : Folder StoredFile → Folder StoredFile → Prop} {base : Path} {id : String}

def Through (base : Path) (R : Folder StoredFile → Folder StoredFile → Prop)
    (a b : FileArchive) : Prop :=
  a.base = base → b.base = base ∧ R a.folder b.folder

instance [Std.Refl R] : Std.Refl (Through base R) := ⟨fun _ ha => ⟨ha, Std.Refl.refl _⟩⟩

instance [Trans R R R] : Trans (Through base R) (Through base R) (Through base R) where
  trans hab hbc ha := by
    obtain ⟨hb, hfolder⟩ := hab ha
    obtain ⟨hc, hfolder'⟩ := hbc hb
    exact ⟨hc, Trans.trans hfolder hfolder'⟩

theorem through_onFolder {α : Type} {task : FolderTask StoredFile α} (h : Moves R task) :
    Moves (Through base R) (onFolder task) := by
  intro a ha
  have hmoves := h a.folder
  simp only [onFolder, ExceptT.run, ExceptT.mk, StateT.run] at hmoves ⊢
  generalize task a.folder = result at hmoves ⊢
  obtain ⟨result, folder⟩ := result
  cases result with
  | ok x => exact ⟨ha, hmoves⟩
  | error error => exact ⟨ha, hmoves⟩

theorem through_get_bind {α : Type} {next : FileArchive → Task α}
    (h : ∀ a, a.base = base → Moves (Through base R) (next a)) :
    Moves (Through base R) (get >>= next) := fun a ha => h a ha a ha

variable [Std.Refl R]

theorem through_writeFile {path : Path} {file : StoredFile} (h : Moves R (write path file)) :
    Moves (Through base R) (writeFile path file) :=
  .of_ite (through_onFolder h) (.of_throw _)

theorem through_found (path : Path) : Moves (Through base R) (onFolder (.found path)) := by
  refine through_onFolder (.of_get_bind fun f => ?_)
  split <;> exact Std.Refl.refl f

theorem through_read (path : Path) : Moves (Through base R) (onFolder (.read path)) := by
  refine through_onFolder (.of_get_bind fun f => ?_)
  split <;> exact Std.Refl.refl f

variable [Trans R R R]

theorem through_saveRecord {s : Simulation}
    (hmake : Moves R (ensureDirectories ((create base).directoryPath s.id)))
    (hwrite : ∀ file, Moves R (write ((create base).recordPath s.id) file)) :
    Moves (Through base R) (saveRecord s) := by
  refine through_get_bind fun a ha => ?_
  subst ha
  exact .of_bind (through_onFolder hmake) fun _ => through_writeFile (hwrite _)

theorem through_setStatus (hwrite : ∀ file, Moves R (write ((create base).recordPath id) file))
    (status : SimulationStatus) (completedAt : Option Nat) :
    Moves (Through base R) (setStatus id status completedAt) := by
  refine through_get_bind fun a ha => .of_bind (through_found _) fun there => ?_
  subst ha
  refine .of_ite (.of_bind (through_read _) fun file => ?_) (.of_pure _)
  split
  · exact through_writeFile (hwrite _)
  · exact .of_pure _

theorem through_saveSnapshot {step : Int}
    (hmake : Moves R (ensureDirectories ((create base).snapshotsPath id)))
    (hwrite : ∀ file, Moves R (write ((create base).snapshotPath id step) file)) (w : World) :
    Moves (Through base R) (saveSnapshot id step w) := by
  refine .of_bind (through_get_bind fun a ha => ?_) fun _ => through_get_bind fun a ha => ?_
  · subst ha
    exact through_onFolder hmake
  · subst ha
    exact through_writeFile (hwrite _)

theorem through_saveResult
    (hmake : Moves R (ensureDirectories ((create base).directoryPath id)))
    (hwrite : ∀ file, Moves R (write ((create base).resultPath id) file))
    (result : SimulationResult) : Moves (Through base R) (saveResult id result) := by
  refine through_get_bind fun a ha => ?_
  subst ha
  exact .of_bind (through_onFolder hmake) fun _ => through_writeFile (hwrite _)

theorem through_delete (hdelete : Moves R (deleteTree ((create base).directoryPath id))) :
    Moves (Through base R) (delete id) := by
  refine through_get_bind fun a ha => .of_bind (through_found _) fun _ => ?_
  subst ha
  exact .of_ite (through_onFolder hdelete) (.of_pure _)

end FileArchive

end StepWorld
