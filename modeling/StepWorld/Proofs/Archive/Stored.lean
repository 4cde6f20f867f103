import StepWorld.Proofs.Archive.Below
import StepWorld.Proofs.Archive.Filing
import StepWorld.Proofs.Archive.Neighbours

/-! All that an archive stores of a simulation. What is archived of one simulation, and its deletion
too, leaves what is stored of every other one as it was, and its deletion leaves nothing of its
own. -/

namespace StepWorld

namespace FileArchive

open FolderTask (ensureDirectories write deleteTree)

variable {a b c : FileArchive} {base : Path} {id k : String} {path : Path} {place : Place}
  {file : StoredFile}

theorem segments_directoryPath (a : FileArchive) (h : IsSimulationId id) :
    (a.directoryPath id).segments = a.base.segments ++ [id] := by
  rw [a.directoryPath_child h, Path.child]

/-- The directory of the archive is given by names that lead down to it, and its folder is a tree. A
directory such as that of a simulation with two dots behind it would go when the simulation does. -/
structure IsTidy (a : FileArchive) : Prop where
  straight : a.base.IsStraight
  tree : a.folder.IsTree

def Same (k : String) (a b : FileArchive) : Prop :=
  a.base.IsStraight → b.base = a.base ∧ Folder.SameBelow (a.base.segments ++ [k]) a.folder b.folder

namespace Same

theorem refl (a : FileArchive) : Same k a a := fun _ => ⟨rfl, .refl _⟩

theorem trans (hab : Same k a b) (hbc : Same k b c) : Same k a c := by
  intro ha
  obtain ⟨hb, hfolder⟩ := hab ha
  obtain ⟨hc, hfolder'⟩ := hbc (hb ▸ ha)
  exact ⟨hc.trans hb, hfolder.trans (hb ▸ hfolder')⟩

theorem of_through {task : Task Unit} (h : ∀ base : Path, base.IsStraight →
    Moves (Through base (Folder.SameBelow (base.segments ++ [k]))) task) :
    Moves (Same k) task := fun a ha => h a.base ha a rfl

end Same

section Neighbours

variable (hbase : base.IsStraight) (hid : IsSimulationId id) (hne : id ≠ k)

include hid

theorem isStraight_directoryPath (hbase : base.IsStraight) :
    ((create base).directoryPath id).IsStraight := by
  rw [directoryPath_child _ hid]
  exact hbase.child (hid.ne (by decide))

include hne

theorem not_below (rest : Place) :
    ¬ base.segments ++ [k] <+: ((create base).directoryPath id).segments ++ rest := by
  rw [segments_directoryPath _ hid, List.append_assoc]
  change ¬ base.segments ++ [k] <+: base.segments ++ ([id] ++ rest)
  rw [List.prefix_append_right_inj, List.singleton_append, List.cons_prefix_cons]
  exact fun hbelow => hne hbelow.1.symm

include hbase

theorem same_directory : Moves (Folder.SameBelow (base.segments ++ [k]))
    (ensureDirectories (α := StoredFile) ((create base).directoryPath id)) :=
  FolderTask.same_ensureDirectories (isStraight_directoryPath hid hbase)
    (by simpa using not_below hid hne [])

theorem same_write (name : String) (file : StoredFile) :
    Moves (Folder.SameBelow (base.segments ++ [k]))
      (write (((create base).directoryPath id).child name) file) :=
  FolderTask.same_write (isStraight_directoryPath hid hbase) (not_below hid hne [name]) file

end Neighbours

theorem same_saveRecord {s : Simulation} (hid : IsSimulationId s.id) (hne : s.id ≠ k) :
    Moves (Same k) (saveRecord s) :=
  .of_through fun _ hbase =>
    through_saveRecord (same_directory hbase hid hne) (same_write hbase hid hne _)

section Neighbours

variable (hid : IsSimulationId id) (hne : id ≠ k)

include hid hne

theorem same_setStatus (status : SimulationStatus) (completedAt : Option Nat) :
    Moves (Same k) (setStatus id status completedAt) :=
  .of_through fun _ hbase => through_setStatus (same_write hbase hid hne _) _ _

theorem same_saveResult (result : SimulationResult) : Moves (Same k) (saveResult id result) :=
  .of_through fun _ hbase =>
    through_saveResult (same_directory hbase hid hne) (same_write hbase hid hne _) _

theorem same_saveSnapshot (step : Int) (w : World) : Moves (Same k) (saveSnapshot id step w) := by
  refine .of_through fun base hbase => ?_
  have hpath : ((create base).snapshotsPath id).IsStraight :=
    (isStraight_directoryPath hid hbase).child (by decide)
  have hbelow := @not_below base id k hid hne
  refine through_saveSnapshot (FolderTask.same_ensureDirectories hpath (hbelow ["snapshots"]))
    (FolderTask.same_write hpath ?_) w
  refine fun h => hbelow ["snapshots", snapshotName step] ?_
  simpa [snapshotsPath, Path.child] using h

end Neighbours

theorem directory_of_mem_steps {steps : List Int} {n : Int} (h : a.steps id = .ok steps)
    (hn : n ∈ steps) : ∃ place, a.folder.find (a.snapshotsPath id) = (place, .directory) := by
  unfold FileArchive.steps at h
  split at h
  · next place hfind => exact ⟨place, hfind⟩
  · cases h
  · cases h
    cases hn

theorem Same.symm (h : Same k a b) (ha : a.IsTidy) : Same k b a := by
  obtain ⟨hbase, hfolder⟩ := h ha.straight
  exact fun _ => ⟨hbase.symm, hbase ▸ hfolder.symm⟩

section Found

variable (h : Same k a b) (ha : a.IsTidy) (hb : b.IsTidy) (hk : IsSimulationId k)

include h ha

theorem Same.directoryPath : b.directoryPath k = a.directoryPath k := by
  rw [FileArchive.directoryPath, (h ha.straight).1]
  rfl

include hb hk

theorem Same.find {x : Entry StoredFile} (hpath : path.IsStraight) (hx : ¬ Folder.Lost x)
    (hbelow : (a.directoryPath k).segments <+: path.segments)
    (hfind : a.folder.find path = (place, x)) : b.folder.find path = (place, x) := by
  rw [a.segments_directoryPath hk] at hbelow
  rw [ha.tree.find_iff hpath hx] at hfind
  rw [hb.tree.find_iff hpath hx, (h ha.straight).2.entries _ hbelow]
  exact hfind

theorem Same.steps {steps : List Int} {n : Int} (hsteps : a.steps k = .ok steps) (hn : n ∈ steps) :
    b.steps k = .ok steps := by
  obtain ⟨place, hfind⟩ := directory_of_mem_steps hsteps hn
  have hpath : (a.snapshotsPath k).IsStraight :=
    (isStraight_directoryPath hk ha.straight).child (by decide)
  have hbelow : (a.directoryPath k).segments <+: (a.snapshotsPath k).segments :=
    List.prefix_append _ _
  obtain rfl := Folder.place_of_directory hpath hfind
  have hfind' := h.find ha hb hk hpath Folder.not_lost_directory hbelow hfind
  have hnames := (h ha.straight).2.names (a.snapshotsPath k).segments
    (by rwa [← a.segments_directoryPath hk])
  unfold FileArchive.steps at hsteps ⊢
  rw [snapshotsPath, h.directoryPath ha, ← snapshotsPath, hfind']
  rw [hfind] at hsteps
  dsimp only at hsteps ⊢
  rw [hnames]
  exact hsteps

end Found

end FileArchive

namespace MemoryArchive

variable (m : MemoryArchive) {id k : String}

theorem steps_saveSnapshot (hne : k ≠ id) (step : Int) (w : World) :
    (m.saveSnapshot id step w).steps k = m.steps k := by
  rw [steps_eq, steps_eq, saveSnapshot, List.filter_cons_of_neg (by simpa using hne.symm),
    List.filter_filter]
  congr 2
  refine List.filter_congr fun entry _ => ?_
  by_cases howner : entry.1.1 = k
  · have hother : entry.1 ≠ (id, step) := fun heq => hne (by rw [← howner, heq])
    simp [howner, hother]
  · simp [howner]

end MemoryArchive

namespace Archive

variable {a b c : Archive} {id k : String}

section Files

variable {a : FileArchive}

end Files

def IsTidy : Archive → Prop
  | .memory _ => True
  | .files a => a.IsTidy

/-- All that is kept of a simulation is the same. -/
inductive Same (k : String) : Archive → Archive → Prop
  | memory {a b : MemoryArchive} (hrecord : b.record? k = a.record? k)
    (hresult : b.result? k = a.result? k)
    (hsnapshots : ∀ step, b.snapshot? k step = a.snapshot? k step)
    (hsteps : b.steps k = a.steps k) : Same k (.memory a) (.memory b)
  | files {a b : FileArchive} (h : FileArchive.Same k a b) : Same k (.files a) (.files b)

namespace Same

theorem refl (a : Archive) : Same k a a := by
  cases a with
  | memory a => exact .memory rfl rfl (fun _ => rfl) rfl
  | files a => exact .files (.refl a)

theorem trans (hab : Same k a b) (hbc : Same k b c) : Same k a c := by
  cases hab with
  | memory hr hs hw hn =>
    cases hbc with
    | memory hr' hs' hw' hn' =>
      exact .memory (hr'.trans hr) (hs'.trans hs) (fun step => (hw' step).trans (hw step))
        (hn'.trans hn)
  | files h =>
    cases hbc with
    | files h' => exact .files (h.trans h')

theorem symm (h : Same k a b) (ha : a.IsTidy) : Same k b a := by
  cases h with
  | memory hr hs hw hn => exact .memory hr.symm hs.symm (fun step => (hw step).symm) hn.symm
  | files h => exact .files (h.symm ha)

theorem change {inMemory : MemoryArchive → MemoryArchive} {inFiles : FileArchive.Task Unit}
    (hrecord : ∀ a, (inMemory a).record? k = a.record? k)
    (hresult : ∀ a, (inMemory a).result? k = a.result? k)
    (hsnapshots : ∀ a step, (inMemory a).snapshot? k step = a.snapshot? k step)
    (hsteps : ∀ a, (inMemory a).steps k = a.steps k)
    (hfiles : Moves (FileArchive.Same k) inFiles) :
    Moves (Same k) (Archive.change inMemory inFiles) := by
  intro a
  cases a with
  | memory a => exact .memory (hrecord a) (hresult a) (hsnapshots a) (hsteps a)
  | files a => exact .files (hfiles a)

end Same

/-! ### Changes -/

structure Leaves (k : String) (a b : Archive) : Prop where
  spares : Spares k a b
  same : Same k a b

namespace Leaves

theorem refl (a : Archive) : Leaves k a a := ⟨.refl a, .refl a⟩

theorem trans (hab : Leaves k a b) (hbc : Leaves k b c) : Leaves k a c :=
  ⟨hab.spares.trans hbc.spares, hab.same.trans hbc.same⟩

end Leaves

def Concerns (id : String) (task : Task Unit) : Prop :=
  IsSimulationId id → ∀ k, IsSimulationId k → k ≠ id → Moves (Leaves k) task

theorem concerns_saveRecord (s : Simulation) : Concerns s.id (saveRecord s) :=
  fun hid k _ hne a =>
    have hsame : Moves (Same k) (saveRecord s) :=
      .change (fun m => by simp [m.record?_saveRecord, hne]) (fun _ => rfl) (fun _ _ => rfl)
        (fun _ => rfl) (FileArchive.same_saveRecord hid hne.symm)
    ⟨spares_saveRecord hid hne a, hsame a⟩

theorem concerns_setStatus (id : String) (status : SimulationStatus) (completedAt : Option Nat) :
    Concerns id (setStatus id status completedAt) :=
  fun hid k _ hne a =>
    have hsame : Moves (Same k) (setStatus id status completedAt) :=
      .change (fun m => by simp [m.record?_setStatus, hne]) (fun _ => rfl) (fun _ _ => rfl)
        (fun _ => rfl) (FileArchive.same_setStatus hid hne.symm status completedAt)
    ⟨spares_setStatus hid hne status completedAt a, hsame a⟩

theorem concerns_saveResult (id : String) (result : SimulationResult) :
    Concerns id (saveResult id result) :=
  fun hid k _ hne a =>
    have hsame : Moves (Same k) (saveResult id result) :=
      .change (fun _ => rfl) (fun m => by simp [m.result?_saveResult, hne]) (fun _ _ => rfl)
        (fun _ => rfl) (FileArchive.same_saveResult hid hne.symm result)
    ⟨spares_saveResult hid hne result a, hsame a⟩

theorem concerns_saveSnapshot (id : String) (step : Int) (w : World) :
    Concerns id (saveSnapshot id step w) :=
  fun hid k hk hne a =>
    have hsame : Moves (Same k) (saveSnapshot id step w) :=
      .change (fun _ => rfl) (fun _ => rfl) (fun m n => by simp [m.snapshot?_saveSnapshot, hne])
        (fun m => m.steps_saveSnapshot hne step w)
        (FileArchive.same_saveSnapshot hid hne.symm step w)
    ⟨spares_saveSnapshot hk id step w a, hsame a⟩

def TidyStays (a b : Archive) : Prop := a.IsTidy → b.IsTidy

instance : Std.Refl TidyStays := ⟨fun _ h => h⟩

instance : Trans TidyStays TidyStays TidyStays := ⟨fun hab hbc h => hbc (hab h)⟩

theorem tidy_change {inMemory : MemoryArchive → MemoryArchive} {inFiles : FileArchive.Task Unit}
    (h : ∀ base, Moves (FileArchive.Through base Folder.TreeStays) inFiles) :
    Moves TidyStays (change inMemory inFiles) := by
  intro a
  cases a with
  | memory a => exact id
  | files a =>
    intro ha
    obtain ⟨hbase, htree⟩ := h a.base a rfl
    exact ⟨hbase ▸ ha.straight, htree ha.tree⟩

theorem tidy_saveRecord (s : Simulation) : Moves TidyStays (saveRecord s) :=
  tidy_change fun _ => FileArchive.through_saveRecord (FolderTask.stays_ensureDirectories _)
    fun _ => FolderTask.stays_write _ _

theorem tidy_setStatus (id : String) (status : SimulationStatus) (completedAt : Option Nat) :
    Moves TidyStays (setStatus id status completedAt) :=
  tidy_change fun _ => FileArchive.through_setStatus (fun _ => FolderTask.stays_write _ _) _ _

theorem tidy_saveSnapshot (id : String) (step : Int) (w : World) :
    Moves TidyStays (saveSnapshot id step w) :=
  tidy_change fun _ => FileArchive.through_saveSnapshot (FolderTask.stays_ensureDirectories _)
    (fun _ => FolderTask.stays_write _ _) w

theorem tidy_saveResult (id : String) (result : SimulationResult) :
    Moves TidyStays (saveResult id result) :=
  tidy_change fun _ => FileArchive.through_saveResult (FolderTask.stays_ensureDirectories _)
    (fun _ => FolderTask.stays_write _ _) result

theorem tidy_delete (id : String) : Moves TidyStays (delete id) :=
  tidy_change fun _ => FileArchive.through_delete (FolderTask.stays_deleteTree _)

end Archive

end StepWorld
