import StepWorld.Proofs.Archive.Tasks
import StepWorld.Proofs.Archive.Twins
import StepWorld.Proofs.World.Frame

/-! Simulations that share an archive. What is archived of one of them leaves the record and the
result of every other one alone. -/

namespace StepWorld

def IsSimulationId (id : String) : Prop := ∃ n, id = numberedId "sim" n

theorem Path.splitSlashes_of_not_mem {text : List Char} (h : '/' ∉ text) (piece : List Char) :
    splitSlashes piece text = [piece.reverse ++ text] := by
  induction text generalizing piece with
  | nil => simp [splitSlashes]
  | cons c rest ih =>
    rw [List.mem_cons, not_or] at h
    rw [splitSlashes, ih h.2]
    · simp
    · exact fun hc => h.1 hc.symm

namespace IsSimulationId

variable {id : String}

theorem toList (h : IsSimulationId id) : ∃ digits, id.toList = 's' :: 'i' :: 'm' :: '_' :: digits ∧
    ∀ c ∈ digits, ∃ d < 16, c = Nat.digitChar d := by
  obtain ⟨n, rfl⟩ := h
  exact ⟨hexText 12 n, by simp [numberedId, String.toList_append],
    fun c hc => exists_digit_of_mem_hexText hc⟩

theorem ne (h : IsSimulationId id) {name : String}
    (hname : name.toList.take 4 ≠ ['s', 'i', 'm', '_']) : id ≠ name := by
  rintro rfl
  obtain ⟨digits, hlist, -⟩ := h.toList
  simp [hlist] at hname

theorem ofString (h : IsSimulationId id) : Path.ofString id = ⟨0, [id]⟩ := by
  have hdigits : ∀ d < 16, '/' ≠ Nat.digitChar d := by decide
  obtain ⟨digits, hlist, hall⟩ := h.toList
  have hslash : '/' ∉ id.toList := by
    rw [hlist]
    simp only [List.mem_cons, not_or]
    refine ⟨by decide, by decide, by decide, by decide, fun hmem => ?_⟩
    obtain ⟨d, hd, heq⟩ := hall _ hmem
    exact hdigits d hd heq
  have hempty : id ≠ "" := h.ne (by decide)
  have hdot : id ≠ "." := h.ne (by decide)
  have hleading : id.toList.takeWhile (· == '/') = [] := by simp [hlist]
  unfold Path.ofString
  rw [Path.splitSlashes_of_not_mem hslash, hleading]
  simp [hempty, hdot]

end IsSimulationId

namespace Folder

variable {α : Type} {f g h : Folder α} {k name : String} {place other : Place} {path : Path}
  {content : α}

structure Spares (k : String) (f g : Folder α) : Prop where
  directories : ∀ place, f.entryAt place = .directory → g.entryAt place = .directory
  files : ∀ place, place.getLast? = some k → ∀ name content,
    g.entryAt (place ++ [name]) = .file content ↔ f.entryAt (place ++ [name]) = .file content

namespace Spares

theorem refl (f : Folder α) : Spares k f f := ⟨fun _ h => h, fun _ _ _ _ => Iff.rfl⟩

theorem trans (hfg : Spares k f g) (hgh : Spares k g h) : Spares k f h where
  directories place hd := hgh.directories place (hfg.directories place hd)
  files place hlast name content :=
    (hgh.files place hlast name content).trans (hfg.files place hlast name content)

instance : Std.Refl (Spares (α := α) k) := ⟨refl⟩

instance : Trans (Spares (α := α) k) (Spares k) (Spares k) := ⟨trans⟩

theorem addDirectory (habsent : f.entryAt place = .absent) : Spares k f (f.addDirectory place) where
  directories := FileArchive.directory_addDirectory
  files other _ name content := by
    rw [entryAt_addDirectory]
    split
    · next heq =>
      rw [heq, habsent]
      exact iff_of_false (fun hfile => nomatch hfile) fun hfile => nomatch hfile
    · exact Iff.rfl

theorem addFile (hlast : place.getLast? ≠ some k) (name : String) (content : α) :
    Spares k f (f.addFile (place ++ [name]) content) where
  directories := FileArchive.directory_addFile content
  files other hother name' content' := by
    rw [entryAt_addFile_other]
    intro heq
    obtain rfl := (List.append_inj' heq rfl).1
    exact hlast hother

end Spares

theorem getLast?_of_find (h : f.find (path.child name) = (place, .directory)) (hup : name ≠ "..") :
    place.getLast? = some name := by
  have hfound : ¬ Lost (f.find (path.child name)).2 := by simp [h, Lost]
  obtain ⟨home, hhome⟩ := find_parent hfound
  obtain ⟨hplace, hnext⟩ := follow_append (find_of_directory hhome).2.2.2
  have hstep : f.follow home [name] = (place, .directory) :=
    (hnext name).symm.trans (find_of_directory h).2.2.2
  by_cases hlong : longestName < name.utf8ByteSize
  · simp [follow, hplace, hup, hlong] at hstep
  · simp only [follow, hplace, hup, hlong, if_false, Prod.mk.injEq] at hstep
    rw [← hstep.1, List.getLast?_concat]

end Folder

namespace FolderTask

variable {α : Type} {k name middle : String} {path : Path}

theorem spares_ensureDirectory (path : Path) :
    Moves (Folder.Spares (α := α) k) (ensureDirectory path) := by
  refine .of_get_bind fun f => ?_
  cases hmake : f.makeDirectory path with
  | ok g =>
    obtain ⟨place, name, -, -, habsent, rfl⟩ := Folder.makeDirectory_eq_ok hmake
    exact .addDirectory habsent
  | error cause => exact Moves.of_bind .of_get (fun g => .of_ite (.of_pure _) (.of_throw _)) f

theorem spares_ensureWay (names : List String) :
    Moves (Folder.Spares (α := α) k) (ensureWay names) := by
  induction names with
  | nil => exact .of_pure _
  | cons name above ih =>
    refine .of_bind .of_get fun f => ?_
    split
    · exact .of_bind ih fun _ => spares_ensureDirectory _
    · exact spares_ensureDirectory _

theorem spares_ensureDirectories (path : Path) :
    Moves (Folder.Spares (α := α) k) (ensureDirectories path) := spares_ensureWay _

theorem spares_write (hup : middle ≠ "..") (hk : middle ≠ k) (path : Path) (name : String)
    (content : α) :
    Moves (Folder.Spares k) (write ((path.child middle).child name) content) := by
  refine .of_get_bind fun f => ?_
  dsimp only
  cases hw : f.write ((path.child middle).child name) content with
  | error cause => exact .refl f
  | ok g =>
    obtain ⟨place, hhome⟩ := Folder.directory_of_write hw
    obtain ⟨-, -, -, rfl⟩ := Folder.write_child hhome hw
    refine .addFile ?_ name content
    rw [Folder.getLast?_of_find hhome hup]
    exact fun hsame => hk (Option.some.inj hsame)

end FolderTask

namespace FileArchive

variable {a b c : FileArchive} {id k : String} {place : Place} {s : Simulation}

theorem directoryPath_child (a : FileArchive) (h : IsSimulationId id) :
    a.directoryPath id = a.base.child id := by
  rw [directoryPath, h.ofString]
  rfl

structure Spares (k : String) (a b : FileArchive) : Prop where
  base : b.base = a.base
  folder : Folder.Spares k a.folder b.folder

namespace Spares

theorem trans (hab : Spares k a b) (hbc : Spares k b c) : Spares k a c :=
  ⟨hbc.base.trans hab.base, hab.folder.trans hbc.folder⟩

instance : Std.Refl (Spares k) := ⟨fun _ => ⟨rfl, .refl _⟩⟩

instance : Trans (Spares k) (Spares k) (Spares k) := ⟨trans⟩

theorem of_through {task : Task Unit} (h : ∀ base, Moves (Through base (Folder.Spares k)) task) :
    Moves (Spares k) task := by
  intro a
  obtain ⟨hbase, hfolder⟩ := h a.base a rfl
  exact ⟨hbase, hfolder⟩

end Spares

section Neighbours

variable (hid : IsSimulationId id) (hne : id ≠ k)

include hid hne

theorem spares_write (a : FileArchive) (name : String) (file : StoredFile) :
    Moves (Folder.Spares k) (FolderTask.write ((a.directoryPath id).child name) file) := by
  rw [a.directoryPath_child hid]
  exact FolderTask.spares_write (hid.ne (by decide)) hne _ _ _

theorem spares_setStatus (status : SimulationStatus) (completedAt : Option Nat) :
    Moves (Spares k) (setStatus id status completedAt) :=
  .of_through fun _ => through_setStatus (spares_write hid hne _ _) _ _

theorem spares_saveResult (result : SimulationResult) :
    Moves (Spares k) (saveResult id result) :=
  .of_through fun _ => through_saveResult (FolderTask.spares_ensureDirectories _)
    (spares_write hid hne _ _) _

end Neighbours

theorem spares_saveRecord (hid : IsSimulationId s.id) (hne : s.id ≠ k) :
    Moves (Spares k) (saveRecord s) :=
  .of_through fun _ => through_saveRecord (FolderTask.spares_ensureDirectories _)
    (spares_write hid hne _ _)

theorem spares_saveSnapshot (hk : IsSimulationId k) (id : String) (step : Int) (w : World) :
    Moves (Spares k) (saveSnapshot id step w) :=
  .of_through fun _ => through_saveSnapshot (FolderTask.spares_ensureDirectories _)
    (FolderTask.spares_write (by decide) (hk.ne (by decide)).symm _ _) w

/-- A simulation that is still to be archived has no files. -/
def Unknown (a : FileArchive) (id : String) : Prop :=
  ∀ place, place.getLast? = some id → ∀ name file, a.folder.entryAt (place ++ [name]) ≠ .file file

theorem Unknown.spares (h : a.Unknown id) (hs : Spares id a b) : b.Unknown id :=
  fun place hlast name file hfile =>
    h place hlast name file ((hs.folder.files place hlast name file).mp hfile)

def HoldsResult (a : FileArchive) (place : Place) : Prop :=
  ∃ r, a.folder.entryAt (place ++ ["result.json"]) = .file (.result r)

namespace Holds

theorem getLast? (h : a.Holds id place s) (hid : IsSimulationId id) : place.getLast? = some id := by
  have hhome := h.home
  rw [a.directoryPath_child hid] at hhome
  exact Folder.getLast?_of_find hhome (hid.ne (by decide))

theorem spares (h : a.Holds id place s) (hid : IsSimulationId id) (hs : Spares id a b) :
    b.Holds id place s ∧ (b.HoldsResult place ↔ a.HoldsResult place) := by
  have hfiles := hs.folder.files place (h.getLast? hid)
  have hpath : b.directoryPath id = a.directoryPath id := by
    rw [directoryPath, hs.base]
    rfl
  refine ⟨⟨?_, ?_, (hfiles _ _).mpr h.record, h.writable⟩, exists_congr fun r => hfiles _ _⟩
  · rw [hpath]
    exact Folder.find_mono hs.folder.directories h.home
  · rw [recordPath, hpath]
    exact h.fits

theorem result? (h : a.Holds id place s) :
    (∃ r, a.result? id = .ok (some r)) ↔ a.HoldsResult place := by
  obtain ⟨hfind, hnull⟩ := find_result h.home h.fits
  unfold FileArchive.result? FileArchive.file? Folder.content Folder.entry HoldsResult
  rw [hfind, hnull]
  cases a.folder.entryAt (place ++ ["result.json"]) with
  | file content =>
    cases content <;> simp [Entry.found, Entry.content, answer, bind, Except.bind, pure, Except.pure]
  | _ => simp [Entry.found, Entry.content, answer, bind, Except.bind, pure, Except.pure]

theorem record? (h : a.Holds id place s) : a.record? id = .ok (some s) := by
  unfold FileArchive.record?
  rw [file?_of_find h.find_record h.holdsNull]
  rfl

theorem saveResult (h : a.Holds id place s) {r : SimulationResult}
    (hrun : (FileArchive.saveResult id r).run.run a = (.ok (), b)) :
    b.Holds id place s ∧ b.HoldsResult place := by
  obtain ⟨-, hentry, rfl⟩ := run_saveResult h.home hrun
  refine ⟨⟨Folder.find_mono (directory_addFile _) h.home, h.fits, ?_, h.writable⟩, r.stored, ?_⟩
  · exact (Folder.entryAt_addFile_other (by simp) _).trans h.record
  · rw [Folder.entry, (find_result h.home h.fits).1] at hentry
    rw [Folder.entryAt_addFile hentry, if_pos rfl]

end Holds

theorem Unknown.saveRecord (h : a.Unknown s.id) (hid : IsSimulationId s.id)
    (hrun : (FileArchive.saveRecord s).run.run a = (.ok (), b)) :
    ∃ place, b.Holds s.id place s ∧ ¬ b.HoldsResult place := by
  obtain ⟨place, hholds⟩ := holds_of_saveRecord hrun
  refine ⟨place, hholds, ?_⟩
  rintro ⟨r, hresult⟩
  unfold FileArchive.saveRecord at hrun
  rw [run_get_bind] at hrun
  obtain ⟨_, c, hroom, hrun⟩ := run_bind_eq_ok.mp hrun
  have hc : c.Unknown s.id := by
    have hmoves : Moves (Through a.base (Folder.Spares s.id))
        (onFolder (.ensureDirectories (a.directoryPath s.id))) :=
      through_onFolder (FolderTask.spares_ensureDirectories _)
    have hspares := hmoves a rfl
    rw [hroom] at hspares
    exact h.spares ⟨hspares.1, hspares.2⟩
  obtain ⟨folder, hw, rfl⟩ := run_writeFile hrun
  obtain ⟨home, hhome⟩ := Folder.directory_of_write hw
  obtain ⟨-, -, -, rfl⟩ := Folder.write_child hhome hw
  rw [Folder.entryAt_addFile_other] at hresult
  · exact hc place (hholds.getLast? hid) _ _ hresult
  · intro heq
    exact absurd (List.append_inj' heq rfl).2 (by decide)

end FileArchive

namespace Archive

variable {a b c : Archive} {id k : String} {status : SimulationStatus} {finished : Prop}

inductive Spares (k : String) : Archive → Archive → Prop
  | memory {a b : MemoryArchive} (hr : b.records.get? k = a.records.get? k)
    (hs : b.results.get? k = a.results.get? k) : Spares k (.memory a) (.memory b)
  | files {a b : FileArchive} (h : FileArchive.Spares k a b) : Spares k (.files a) (.files b)

/-- The archive has a record of a simulation that tells a status, and perhaps a result. -/
inductive Tells (id : String) (status : SimulationStatus) (finished : Prop) : Archive → Prop
  | memory {a : MemoryArchive} {s : Simulation} (hr : a.records.get? id = some s)
    (hs : s.status = status) (hf : (a.results.get? id).isSome ↔ finished) :
    Tells id status finished (.memory a)
  | files {a : FileArchive} {place : Place} {s : Simulation} (h : a.Holds id place s)
    (hs : s.status = status) (hf : a.HoldsResult place ↔ finished) :
    Tells id status finished (.files a)

/-- A simulation that is still to be archived has no result. -/
def Unknown (id : String) : Archive → Prop
  | .memory a => a.results.get? id = none
  | .files a => a.Unknown id

namespace Spares

theorem refl (a : Archive) : Spares k a a := by
  cases a with
  | memory a => exact .memory rfl rfl
  | files a => exact .files (Std.Refl.refl a)

theorem trans (hab : Spares k a b) (hbc : Spares k b c) : Spares k a c := by
  cases hab with
  | memory hr hs =>
    cases hbc with
    | memory hr' hs' => exact .memory (hr'.trans hr) (hs'.trans hs)
  | files h =>
    cases hbc with
    | files h' => exact .files (h.trans h')

instance : Std.Refl (Spares k) := ⟨refl⟩

instance : Trans (Spares k) (Spares k) (Spares k) := ⟨trans⟩

theorem change {inMemory : MemoryArchive → MemoryArchive} {inFiles : FileArchive.Task Unit}
    (hr : ∀ a, (inMemory a).records.get? k = a.records.get? k)
    (hs : ∀ a, (inMemory a).results.get? k = a.results.get? k)
    (hfiles : Moves (FileArchive.Spares k) inFiles) :
    Moves (Spares k) (Archive.change inMemory inFiles) := by
  intro a
  cases a with
  | memory a => exact .memory (hr a) (hs a)
  | files a => exact .files (hfiles a)

end Spares

theorem spares_saveRecord {s : Simulation} (hid : IsSimulationId s.id) (hne : k ≠ s.id) :
    Moves (Spares k) (saveRecord s) :=
  .change (fun a => by simp [MemoryArchive.saveRecord, Table.get?_put, hne]) (fun _ => rfl)
    (FileArchive.spares_saveRecord hid hne.symm)

theorem spares_setStatus (hid : IsSimulationId id) (hne : k ≠ id) (status : SimulationStatus)
    (completedAt : Option Nat) : Moves (Spares k) (setStatus id status completedAt) :=
  .change (fun a => by simp [MemoryArchive.setStatus, Table.get?_modify, hne]) (fun _ => rfl)
    (FileArchive.spares_setStatus hid hne.symm status completedAt)

theorem spares_saveResult (hid : IsSimulationId id) (hne : k ≠ id) (result : SimulationResult) :
    Moves (Spares k) (saveResult id result) :=
  .change (fun _ => rfl) (fun a => by simp [MemoryArchive.saveResult, Table.get?_put, hne])
    (FileArchive.spares_saveResult hid hne.symm result)

theorem spares_saveSnapshot (hk : IsSimulationId k) (id : String) (step : Int) (w : World) :
    Moves (Spares k) (saveSnapshot id step w) :=
  .change (fun _ => rfl) (fun _ => rfl) (FileArchive.spares_saveSnapshot hk id step w)

theorem Unknown.spares (h : a.Unknown id) (hs : Spares id a b) : b.Unknown id := by
  cases hs with
  | memory _ hs => exact hs.trans h
  | files hs => exact FileArchive.Unknown.spares h hs

namespace Tells

theorem spares (h : a.Tells id status finished) (hid : IsSimulationId id) (hs : Spares id a b) :
    b.Tells id status finished := by
  cases h with
  | memory hr hst hf =>
    cases hs with
    | memory hr' hs' => exact .memory (hr'.trans hr) hst (hs' ▸ hf)
  | files h hst hf =>
    cases hs with
    | files hs =>
      obtain ⟨h', hresult⟩ := h.spares hid hs
      exact .files h' hst (hresult.trans hf)

theorem record? (h : a.Tells id status finished) :
    ∃ s, a.record? id = .ok (some s) ∧ s.status = status := by
  cases h with
  | memory hr hs => exact ⟨_, congrArg Except.ok hr, hs⟩
  | files h hs => exact ⟨_, h.record?, hs⟩

theorem result? (h : a.Tells id status finished) :
    (∃ r, a.result? id = .ok (some r)) ↔ finished := by
  cases h with
  | @memory a _ _ _ hf =>
    rw [← hf, Option.isSome_iff_exists]
    exact exists_congr fun r => by simp [Archive.result?, MemoryArchive.result?]
  | files h _ hf => exact h.result?.trans hf

theorem setStatus (h : a.Tells id status finished) {next : SimulationStatus}
    {completedAt : Option Nat}
    (hrun : (Archive.setStatus id next completedAt).run.run a = (.ok (), b)) :
    b.Tells id next finished := by
  cases h with
  | memory hr hs hf =>
    cases hrun
    have hrecord := congrArg (Option.map (·.withStatus next completedAt)) hr
    exact .memory ((Table.get?_modify _ _ _ _).trans ((if_pos rfl).trans hrecord)) rfl hf
  | @files a place s h hs hf =>
    obtain ⟨c, hset, rfl⟩ := run_change_files hrun
    rw [h.setStatus] at hset
    split at hset
    · next hw =>
      cases hset
      refine .files (h.written hw) rfl ?_
      unfold FileArchive.HoldsResult at hf ⊢
      rw [Folder.entryAt_addFile_other (by simp)]
      exact hf
    · cases hset

theorem saveResult (h : a.Tells id status finished) {r : SimulationResult}
    (hrun : (Archive.saveResult id r).run.run a = (.ok (), b)) :
    b.Tells id status True := by
  cases h with
  | memory hr hs hf =>
    cases hrun
    exact .memory hr hs (by simp [MemoryArchive.saveResult, Table.get?_put])
  | @files a place s h hs hf =>
    obtain ⟨c, hsave, rfl⟩ := run_change_files hrun
    obtain ⟨h', hresult⟩ := h.saveResult hsave
    exact .files h' hs (iff_of_true hresult trivial)

end Tells

theorem Unknown.saveRecord {s : Simulation} (h : a.Unknown s.id) (hid : IsSimulationId s.id)
    (hrun : (Archive.saveRecord s).run.run a = (.ok (), b)) : b.Tells s.id s.status False := by
  cases a with
  | memory a =>
    cases hrun
    have hnone : a.results.get? s.id = none := h
    refine .memory ((Table.get?_put _ _ _ _).trans (if_pos rfl)) rfl ?_
    simp [MemoryArchive.saveRecord, hnone]
  | files a =>
    obtain ⟨c, hsave, rfl⟩ := run_change_files hrun
    obtain ⟨place, hholds, hresult⟩ := FileArchive.Unknown.saveRecord h hid hsave
    exact .files hholds rfl (iff_of_false hresult id)

end Archive

end StepWorld
