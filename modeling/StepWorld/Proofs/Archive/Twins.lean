import StepWorld.Proofs.Agreement
import StepWorld.Proofs.Archive.Shelf

/-! Two archives that differ in the record of one simulation at most. They refuse the same, and what
else they are given they keep in the same way. -/

namespace StepWorld

inductive Entry.Alike {α : Type} : Entry α → Entry α → Prop
  | same (entry : Entry α) : Alike entry entry
  | files (x y : α) : Alike (.file x) (.file y)

namespace Folder

variable {α : Type} {f g : Folder α} {place other : Place} {x y : α} {path way : Path} {name : String}

/-- Two folders that differ at most in what one file holds, which stands in the directory of a
path. -/
structure Twins (path : Path) (place : Place) (x y : α) (f g : Folder α) : Prop where
  home : f.find path = (place.dropLast, .directory)
  directories : g.directories = f.directories
  others : (g.files.filter fun entry => entry.1 != place) =
    f.files.filter fun entry => entry.1 != place
  here : f.entryAt place = .file x
  there : g.entryAt place = .file y

theorem filter_addFile (h : other ≠ place) (content : α) :
    ((f.addFile other content).files.filter fun entry => entry.1 != place) =
      (other, content) :: (f.files.filter fun entry => entry.1 != place).filter
        fun entry => entry.1 != other := by
  have hkept : (other != place) = true := by simpa using h
  simp only [addFile, List.filter_cons, hkept, if_true, List.filter_filter, Bool.and_comm]

theorem makeDirectory_file (hslot : f.slot path = .ok place) (hfile : f.entryAt place = .file x) :
    f.makeDirectory path = .error .exists := by
  unfold makeDirectory
  rw [hslot]
  simp only [bind, Except.bind, hfile]
  split
  · rfl
  · next hentry _ => cases hentry
  · rfl

theorem getLast?_of_slot (h : f.slot (path.child name) = .ok place) :
    place.getLast? = some name := by
  unfold slot at h
  simp only [Path.child, List.getLast?_concat] at h
  repeat' split at h
  all_goals cases h
  simp

namespace Twins

theorem entryAt_other (h : Twins path place x y f g) (hne : other ≠ place) :
    g.entryAt other = f.entryAt other := by
  have hlookup : g.files.lookup other = f.files.lookup other := by
    rw [← lookup_filter_ne hne, h.others, lookup_filter_ne hne]
  unfold entryAt
  rw [h.directories, hlookup]

theorem entryAt (h : Twins path place x y f g) (other : Place) :
    (f.entryAt other).Alike (g.entryAt other) := by
  by_cases hne : other = place
  · rw [hne, h.here, h.there]
    exact .files x y
  · rw [h.entryAt_other hne]
    exact .same _

theorem addDirectory (h : Twins path place x y f g) (hne : other ≠ place) :
    Twins path place x y (f.addDirectory other) (g.addDirectory other) where
  home := find_mono FileArchive.directory_addDirectory h.home
  directories := congrArg (other :: ·) h.directories
  others := h.others
  here := by
    rw [entryAt_addDirectory, if_neg hne.symm]
    exact h.here
  there := by
    rw [entryAt_addDirectory, if_neg hne.symm]
    exact h.there

theorem addFile (h : Twins path place x y f g) (hne : other ≠ place) (content : α) :
    Twins path place x y (f.addFile other content) (g.addFile other content) where
  home := find_mono (FileArchive.directory_addFile content) h.home
  directories := h.directories
  others := by
    rw [filter_addFile hne, filter_addFile hne, h.others]
  here := (entryAt_addFile_other hne.symm content).trans h.here
  there := (entryAt_addFile_other hne.symm content).trans h.there

theorem follow (h : Twins path place x y f g) (start : Place) (names : List String) :
    (g.follow start names).1 = (f.follow start names).1 ∧
      (f.follow start names).2.Alike (g.follow start names).2 := by
  induction names generalizing start with
  | nil => exact ⟨rfl, h.entryAt start⟩
  | cons name rest ih =>
    have hstart := h.entryAt start
    unfold Folder.follow
    generalize f.entryAt start = entry at hstart
    generalize g.entryAt start = entry' at hstart
    cases hstart with
    | files => exact ⟨rfl, .same _⟩
    | same =>
      cases entry with
      | directory =>
        dsimp only
        split
        · split
          · exact ⟨rfl, .same _⟩
          · exact ih _
        · split
          · exact ⟨rfl, .same _⟩
          · exact ih _
      | _ => exact ⟨rfl, .same _⟩

theorem find (h : Twins path place x y f g) (way : Path) :
    (g.find way).1 = (f.find way).1 ∧ (f.find way).2.Alike (g.find way).2 := by
  unfold Folder.find
  split
  · exact ⟨rfl, .same _⟩
  · split
    · exact ⟨rfl, .same _⟩
    · split
      · exact h.follow _ _
      · exact ⟨rfl, .same _⟩

theorem find_cases (h : Twins path place x y f g) (way : Path) :
    g.find way = f.find way ∨
      ∃ where? x y, f.find way = (where?, .file x) ∧ g.find way = (where?, .file y) := by
  obtain ⟨hplace, hentry⟩ := h.find way
  generalize f.find way = found at hplace hentry
  generalize g.find way = found' at hplace hentry
  obtain ⟨where?, entry⟩ := found
  obtain ⟨_, entry'⟩ := found'
  obtain rfl := hplace
  cases hentry with
  | same => exact .inl rfl
  | files a b => exact .inr ⟨_, a, b, rfl, rfl⟩

theorem slot (h : Twins path place x y f g) (way : Path) : g.slot way = f.slot way := by
  unfold Folder.slot
  rcases h.find_cases way.parent with hsame | ⟨_, _, _, hf, hg⟩
  · rw [hsame]
  · rw [hf, hg]

theorem isDirectory (h : Twins path place x y f g) (way : Path) :
    g.isDirectory way = f.isDirectory way := by
  unfold Folder.isDirectory Folder.entry
  rcases h.find_cases way with hsame | ⟨_, _, _, hf, hg⟩
  · rw [hsame]
  · rw [hf, hg]

theorem makeDirectory (h : Twins path place x y f g) (way : Path) :
    (∃ cause, f.makeDirectory way = .error cause ∧ g.makeDirectory way = .error cause) ∨
      ∃ f' g', f.makeDirectory way = .ok f' ∧ g.makeDirectory way = .ok g' ∧
        Twins path place x y f' g' := by
  cases hslot : f.slot way with
  | error cause =>
    have hslot' : g.slot way = .error cause := (h.slot way).trans hslot
    exact .inl ⟨cause, by simp [Folder.makeDirectory, hslot, bind, Except.bind],
      by simp [Folder.makeDirectory, hslot', bind, Except.bind]⟩
  | ok other =>
    have hslot' : g.slot way = .ok other := (h.slot way).trans hslot
    by_cases hother : other = place
    · subst hother
      exact .inl ⟨.exists, makeDirectory_file hslot h.here, makeDirectory_file hslot' h.there⟩
    · unfold Folder.makeDirectory
      rw [hslot, hslot']
      simp only [bind, Except.bind, h.entryAt_other hother]
      split
      · exact .inl ⟨.exists, rfl, rfl⟩
      · exact .inr ⟨_, _, rfl, rfl, h.addDirectory hother⟩
      · exact .inl ⟨.exists, rfl, rfl⟩

theorem write (h : Twins path place x y f g) (hlast : place.getLast? ≠ some name) (way : Path)
    (content : α) :
    (∃ cause, f.write (way.child name) content = .error cause ∧
        g.write (way.child name) content = .error cause) ∨
      ∃ f' g', f.write (way.child name) content = .ok f' ∧
        g.write (way.child name) content = .ok g' ∧ Twins path place x y f' g' := by
  unfold Folder.write
  rw [h.slot]
  cases hslot : f.slot (way.child name) with
  | error cause => exact .inl ⟨cause, rfl, rfl⟩
  | ok other =>
    have hother : other ≠ place := by
      rintro rfl
      exact hlast (getLast?_of_slot hslot)
    have hadded := h.addFile hother content
    simp only [bind, Except.bind]
    unfold Folder.entry
    rcases h.find_cases (way.child name) with hsame | ⟨_, _, _, hf, hg⟩
    · rw [hsame]
      split
      · exact .inl ⟨_, rfl, rfl⟩
      · exact .inl ⟨_, rfl, rfl⟩
      · exact .inr ⟨_, _, rfl, rfl, hadded⟩
    · rw [hf, hg]
      exact .inr ⟨_, _, rfl, rfl, hadded⟩

theorem symm (h : Twins path place x y f g) : Twins path place y x g f where
  home := by
    rcases h.find_cases path with hsame | ⟨_, _, _, hf, -⟩
    · rw [hsame]
      exact h.home
    · rw [h.home] at hf
      cases hf
  directories := h.directories.symm
  others := h.others.symm
  here := h.there
  there := h.here

theorem addFile_here (h : Twins path place x y f g) (content : α) :
    Twins path place content y (f.addFile place content) g where
  home := find_mono (FileArchive.directory_addFile content) h.home
  directories := h.directories
  others := by
    rw [h.others]
    simp [Folder.addFile]
  here := by
    rw [entryAt_addFile (by simp [h.here]), if_pos rfl]
  there := h.there

theorem find_child (h : Twins path place x y f g) (hlast : place.getLast? ≠ some name)
    (hup : name ≠ "..") (way : Path) : g.find (way.child name) = f.find (way.child name) := by
  rcases h.find_cases (way.child name) with hsame | ⟨there, a, b, hf, hg⟩
  · exact hsame
  · obtain ⟨hplain, hover⟩ := plain_of_file hf hup
    obtain ⟨home, hhome⟩ := @find_parent _ f way name (by
      rw [hf]
      exact fun hlost => hlost)
    have hhome' : g.find way = (home, .directory) := by
      rcases h.find_cases way with hsame | ⟨_, _, _, hfile, -⟩
      · rw [hsame]
        exact hhome
      · rw [hhome] at hfile
        cases hfile
    have hother : home ++ [name] ≠ place := by
      rintro rfl
      simp at hlast
    rw [Folder.find_child hhome hplain hover, Folder.find_child hhome' hplain hover,
      h.entryAt_other hother]

theorem names (h : Twins path place x y f g) (hne : place.dropLast ≠ other) :
    g.names other = f.names other := by
  have hskip (names : Place → Option String) (hnone : names place = none) :
      (g.files.map Prod.fst).filterMap names = (f.files.map Prod.fst).filterMap names := by
    rw [← filterMap_filter_ne hnone, h.others, filterMap_filter_ne hnone]
  unfold Folder.names
  rw [List.filterMap_append, List.filterMap_append, h.directories]
  congr 1
  refine hskip _ ?_
  split
  · rw [if_neg hne]
  · rfl

end Twins

end Folder

namespace FolderTask

variable {α : Type} {path way : Path} {place : Place} {x y : α} {name : String}

theorem agrees_write (hlast : place.getLast? ≠ some name) (way : Path) (content : α) :
    Agrees (Folder.Twins path place x y) (write (way.child name) content)
      (write (way.child name) content) := by
  unfold write change
  refine .of_get_bind fun f g h => ?_
  dsimp only
  rcases h.write hlast way content with ⟨cause, hf, hg⟩ | ⟨f', g', hf, hg, hafter⟩
  · rw [hf, hg]
    exact ⟨rfl, h⟩
  · rw [hf, hg]
    exact ⟨rfl, hafter⟩

theorem agrees_ensureDirectory (way : Path) :
    Agrees (Folder.Twins path place x y) (ensureDirectory way) (ensureDirectory way) := by
  unfold ensureDirectory
  refine .of_get_bind fun f g h => ?_
  rcases h.makeDirectory way with ⟨cause, hf, hg⟩ | ⟨f', g', hf, hg, hafter⟩
  · rw [hf, hg]
    refine Agrees.of_look (fun f g h => ?_) (fun f => .of_ite (.of_pure _) (.of_throw _)) f g h
    rw [h.isDirectory]
  · rw [hf, hg]
    exact ⟨rfl, hafter⟩

theorem agrees_ensureWay (names : List String) :
    Agrees (Folder.Twins path place x y) (ensureWay names) (ensureWay names) := by
  induction names with
  | nil => exact .of_pure _
  | cons name above ih =>
    unfold ensureWay
    refine .of_get_bind fun f g h => ?_
    rcases h.makeDirectory ⟨0, (name :: above).reverse⟩ with
      ⟨cause, hf, hg⟩ | ⟨f', g', hf, hg, -⟩
    · rw [hf, hg]
      split
      · exact (Agrees.of_bind ih fun _ => agrees_ensureDirectory _) f g h
      · exact agrees_ensureDirectory _ f g h
    · rw [hf, hg]
      exact agrees_ensureDirectory _ f g h

theorem agrees_ensureDirectories (way : Path) :
    Agrees (Folder.Twins path place x y) (ensureDirectories way) (ensureDirectories way) :=
  agrees_ensureWay _

end FolderTask

theorem Simulation.document_withStatus (s : Simulation) (status : SimulationStatus) :
    ({ s with status } : Simulation).document.isWritable = s.document.isWritable := by
  simp [Simulation.document, Value.isWritable, Value.fieldsWritable]

namespace FileArchive

variable {a b : FileArchive} {id : String} {place : Place} {s t : Simulation}

/-- The archive holds the record of a simulation. -/
structure Holds (a : FileArchive) (id : String) (place : Place) (s : Simulation) : Prop where
  home : a.folder.find (a.directoryPath id) = (place, .directory)
  fits : (a.recordPath id).isOverlong = false
  record : a.folder.entryAt (place ++ ["simulation.json"]) = .file (.record s)
  writable : s.document.isWritable = true

/-- Two archives that hold records of a simulation, which perhaps tell other statuses, and that do
not differ otherwise. -/
structure Twins (id : String) (a b : FileArchive) : Prop where
  base : b.base = a.base
  kept : ∃ place s status, a.Holds id place s ∧
    Folder.Twins (a.directoryPath id) (place ++ ["simulation.json"]) (.record s)
      (.record { s with status }) a.folder b.folder

theorem agrees_onFolder {α : Type} {task : FolderTask StoredFile α}
    (h : ∀ path place x y, place.getLast? = some "simulation.json" →
      Agrees (Folder.Twins path place x y) task task) :
    Agrees (Twins id) (onFolder task) (onFolder task) := by
  intro a b hab
  obtain ⟨hbase, place, s, status, hholds, htwins⟩ := hab
  have hagrees := h _ _ _ _ (List.getLast?_concat) a.folder b.folder htwins
  unfold AgreesAt onFolder at *
  simp only [ExceptT.run, ExceptT.mk, StateT.run] at hagrees ⊢
  generalize task a.folder = first at hagrees ⊢
  generalize task b.folder = second at hagrees ⊢
  obtain ⟨result, f⟩ := first
  obtain ⟨_, g⟩ := second
  obtain ⟨rfl, hafter⟩ := hagrees
  have hkept : Twins id { a with folder := f } { b with folder := g } := by
    refine ⟨hbase, place, s, status, ⟨?_, hholds.fits, hafter.here, hholds.writable⟩, hafter⟩
    have hhome := hafter.home
    rw [List.dropLast_concat] at hhome
    exact hhome
  cases result with
  | ok x => exact ⟨rfl, hkept⟩
  | error error => exact ⟨rfl, hkept⟩

theorem agrees_writeFile {name : String} (hname : name ≠ "simulation.json") (way : Path)
    (file : StoredFile) :
    Agrees (Twins id) (writeFile (way.child name) file) (writeFile (way.child name) file) := by
  refine .of_ite (agrees_onFolder fun path place x y hlast => ?_) (.of_throw _)
  refine FolderTask.agrees_write ?_ way file
  rw [hlast]
  simpa using hname.symm

theorem snapshotName_ne (n : Nat) : snapshotName n ≠ "simulation.json" := by
  intro h
  have hlist : paddedInt 5 n ++ ".json".toList = "simulation.json".toList :=
    (toList_snapshotName n).symm.trans (congrArg String.toList h)
  have hm : 'm' ∈ paddedInt 5 n ++ ".json".toList := by
    rw [hlist]
    decide
  rcases List.mem_append.mp hm with hm | hm
  · exact absurd (isDigit_of_mem_paddedInt hm) (by decide)
  · exact absurd hm (by decide)

theorem agrees_saveSnapshot (n : Nat) (w : World) :
    Agrees (Twins id) (saveSnapshot id n w) (saveSnapshot id n w) := by
  have hpath (a b : FileArchive) (h : Twins id a b) : b.directoryPath id = a.directoryPath id := by
    rw [directoryPath, h.base]
    rfl
  refine .of_bind (.of_look (fun a b h => ?_) fun a => ?_) fun _ =>
    .of_look (fun a b h => ?_) fun a => ?_
  · rw [snapshotsPath, hpath a b h]
    rfl
  · exact agrees_onFolder fun _ _ _ _ _ => FolderTask.agrees_ensureDirectories _
  · rw [snapshotPath, snapshotsPath, hpath a b h]
    rfl
  · exact agrees_writeFile (snapshotName_ne n) _ _

theorem agrees_saveResult (result : SimulationResult) :
    Agrees (Twins id) (saveResult id result) (saveResult id result) := by
  refine .of_look (fun a b h => ?_) fun a => .of_bind ?_ fun _ => ?_
  · rw [resultPath, directoryPath, h.base]
    rfl
  · exact agrees_onFolder fun _ _ _ _ _ => FolderTask.agrees_ensureDirectories _
  · exact agrees_writeFile (by decide) _ _

theorem run_onFolder_ok {α : Type} {task : FolderTask StoredFile α} {value : α}
    {folder : Folder StoredFile} (h : task.run.run a.folder = (.ok value, folder)) :
    (onFolder task).run.run a = (.ok value, { a with folder }) := by
  have h' : task a.folder = (.ok value, folder) := h
  simp only [onFolder, ExceptT.run, ExceptT.mk, StateT.run, h']

namespace Holds

theorem find_record (h : a.Holds id place s) : a.folder.find (a.recordPath id) =
    (place ++ ["simulation.json"], .file (.record s)) := by
  rw [← h.record]
  exact Folder.find_child h.home ⟨by decide, by decide, by decide⟩ h.fits

theorem holdsNull (h : a.Holds id place s) : (a.recordPath id).holdsNull = false := by
  rw [recordPath, Path.holdsNull_child, (Folder.find_of_directory h.home).2.1]
  decide

theorem write (h : a.Holds id place s) (file : StoredFile) :
    (FolderTask.write (a.recordPath id) file).run.run a.folder =
      (.ok (), a.folder.addFile (place ++ ["simulation.json"]) file) := by
  have hslot : a.folder.slot (a.recordPath id) = .ok (place ++ ["simulation.json"]) :=
    Folder.slot_child h.home (by decide) h.fits h.holdsNull
  have hwrite : a.folder.write (a.recordPath id) file =
      .ok (a.folder.addFile (place ++ ["simulation.json"]) file) := by
    unfold Folder.write Folder.entry
    rw [hslot, h.find_record]
    rfl
  exact FolderTask.run_write_of hwrite

theorem setStatus (h : a.Holds id place s) (status : SimulationStatus)
    (completedAt : Option Nat) :
    (FileArchive.setStatus id status completedAt).run.run a =
      if (s.withStatus status completedAt).document.isWritable then
        (.ok (), { a with
          folder := a.folder.addFile (place ++ ["simulation.json"])
            (.record (s.withStatus status completedAt)) })
      else (.error (.number .longInteger), a) := by
  have hfound : (a.folder.entry (a.recordPath id)).found = .ok true := by
    rw [Folder.entry, h.find_record]
    rfl
  have hread : a.folder.content (a.recordPath id) = .ok (.record s) := by
    rw [Folder.content, h.holdsNull, Folder.entry, h.find_record]
    rfl
  unfold FileArchive.setStatus
  rw [run_get_bind, run_bind, run_onFolder_ok (FolderTask.run_found_of hfound)]
  simp only [if_true]
  rw [run_bind, run_onFolder_ok (FolderTask.run_read_of hread)]
  dsimp only
  unfold writeFile
  split
  · next hw =>
    have hw' : (s.withStatus status completedAt).document.isWritable = true := hw
    rw [if_pos hw']
    exact run_onFolder_ok (h.write _)
  · next hw =>
    have hw' : ¬ (s.withStatus status completedAt).document.isWritable = true := hw
    rw [if_neg hw']
    rfl

theorem written (h : a.Holds id place s) (hw : t.document.isWritable = true) :
    ({ a with
      folder := a.folder.addFile (place ++ ["simulation.json"]) (.record t) } :
        FileArchive).Holds id place t where
  home := Folder.find_mono (directory_addFile _) h.home
  fits := h.fits
  record := by
    rw [Folder.entryAt_addFile (by simp [h.record]), if_pos rfl]
  writable := hw

end Holds

theorem holds_of_saveRecord (h : (saveRecord s).run.run a = (.ok (), b)) :
    ∃ place, b.Holds s.id place s := by
  unfold saveRecord at h
  rw [run_get_bind] at h
  obtain ⟨_, c, hroom, h⟩ := run_bind_eq_ok.mp h
  have hbase : c.base = a.base := by
    obtain ⟨folder, -, rfl⟩ := run_onFolder hroom
    rfl
  have hwritable : s.document.isWritable = true := by
    refine Classical.byContradiction fun hw => ?_
    have hdocument : ¬ (StoredFile.record s).document.isWritable = true := hw
    rw [writeFile, if_neg hdocument] at h
    cases h
  obtain ⟨folder, hw, rfl⟩ := run_writeFile h
  obtain ⟨place, hhome⟩ := Folder.directory_of_write hw
  obtain ⟨-, hover, hentry, rfl⟩ := Folder.write_child hhome hw
  have hfree : c.folder.entryAt (place ++ ["simulation.json"]) ≠ .directory := by
    rw [Folder.entry, Folder.find_child hhome ⟨by decide, by decide, by decide⟩ hover] at hentry
    exact hentry
  have hpath : c.directoryPath s.id = a.directoryPath s.id := by
    rw [directoryPath, hbase]
    rfl
  refine ⟨place, ?_, ?_, ?_, hwritable⟩
  · change (c.folder.addFile _ _).find (c.directoryPath s.id) = _
    rw [hpath]
    exact Folder.find_mono (directory_addFile _) hhome
  · change ((c.directoryPath s.id).child "simulation.json").isOverlong = false
    rw [hpath]
    exact hover
  · rw [Folder.entryAt_addFile hfree, if_pos rfl]

namespace Twins

theorem setStatus_here (h : Twins id a b) (status : SimulationStatus) :
    ∃ c, (FileArchive.setStatus id status none).run.run a = (.ok (), c) ∧ Twins id c b := by
  obtain ⟨hbase, place, s, other, hholds, htwins⟩ := h
  have hw : (s.withStatus status none).document.isWritable = true :=
    (s.document_withStatus status).trans hholds.writable
  refine ⟨_, (hholds.setStatus status none).trans (if_pos hw), hbase, place,
    s.withStatus status none, other, hholds.written hw, ?_⟩
  exact htwins.addFile_here _

end Twins

theorem agrees_setStatus (status : SimulationStatus) (completedAt : Option Nat) :
    Agrees (Twins id) (FileArchive.setStatus id status completedAt)
      (FileArchive.setStatus id status completedAt) := by
  rintro a b ⟨hbase, place, s, other, hholds, htwins⟩
  have hhome : b.folder.find (b.directoryPath id) = (place, .directory) := by
    have hdirectory := htwins.symm.home
    rw [List.dropLast_concat] at hdirectory
    rw [directoryPath, hbase]
    exact hdirectory
  have hholds' : b.Holds id place { s with status := other } :=
    ⟨hhome, by rw [recordPath, directoryPath, hbase]; exact hholds.fits, htwins.there,
      (s.document_withStatus other).trans hholds.writable⟩
  have hsame : ({ s with status := other } : Simulation).withStatus status completedAt =
      s.withStatus status completedAt := rfl
  unfold AgreesAt
  rw [hholds.setStatus, hholds'.setStatus, hsame]
  split
  · next hw =>
    refine ⟨rfl, hbase, place, s.withStatus status completedAt, status, hholds.written hw, ?_⟩
    exact ((htwins.addFile_here _).symm.addFile_here _).symm
  · exact ⟨rfl, hbase, place, s, other, hholds, htwins⟩

namespace Twins

theorem file? (h : Twins id a b) {name : String} (hname : name ≠ "simulation.json")
    (hup : name ≠ "..") (way : Path) : b.file? (way.child name) = a.file? (way.child name) := by
  obtain ⟨-, place, s, other, -, htwins⟩ := h
  have hlast : (place ++ ["simulation.json"]).getLast? ≠ some name := by simpa using hname.symm
  have hfind := htwins.find_child hlast hup way
  unfold FileArchive.file? Folder.content Folder.entry
  rw [hfind]

theorem directoryPath (h : Twins id a b) : b.directoryPath id = a.directoryPath id := by
  rw [FileArchive.directoryPath, h.base]
  rfl

theorem snapshot? (h : Twins id a b) (n : Nat) : b.snapshot? id n = a.snapshot? id n := by
  unfold FileArchive.snapshot?
  rw [snapshotPath, snapshotsPath, h.directoryPath, h.file? (snapshotName_ne n) (snapshotName_ne_up n)]
  rfl

theorem result? (h : Twins id a b) : b.result? id = a.result? id := by
  unfold FileArchive.result?
  rw [resultPath, h.directoryPath, h.file? (by decide) (by decide)]
  rfl

theorem steps (h : Twins id a b) : b.steps id = a.steps id := by
  have hpath : b.snapshotsPath id = a.snapshotsPath id := by
    rw [snapshotsPath, h.directoryPath]
    rfl
  obtain ⟨-, place, s, other, hholds, htwins⟩ := h
  have hfind := @Folder.Twins.find_child _ _ _ _ _ _ _ "snapshots" htwins (by simp) (by decide)
    (a.directoryPath id)
  have hfind' : b.folder.find (a.snapshotsPath id) = a.folder.find (a.snapshotsPath id) := hfind
  unfold FileArchive.steps
  rw [hpath, hfind']
  split
  · next found hfound =>
    have hchild := @Folder.find_child _ _ _ _ "snapshots" hholds.home
      ⟨by decide, by decide, by decide⟩ (Folder.find_of_directory hfound).1
    have hplace : found = place ++ ["snapshots"] := congrArg Prod.fst (hfound.symm.trans hchild)
    rw [htwins.names (by simp [hplace])]
  · rfl
  · rfl

end Twins

end FileArchive

namespace Archive

variable {a b : Archive} {id : String}

/-- Two archives that keep the same snapshots and results, and whose records of a simulation perhaps
tell other statuses. -/
inductive Twins (id : String) : Archive → Archive → Prop
  | memory {a b : MemoryArchive} (hsnapshots : b.snapshots = a.snapshots)
    (hresults : b.results = a.results) : Twins id (.memory a) (.memory b)
  | files {a b : FileArchive} (h : FileArchive.Twins id a b) : Twins id (.files a) (.files b)

/-- An archive that holds the record of a simulation. Memory need not. -/
def Recorded (id : String) : Archive → Prop
  | .memory _ => True
  | .files a => ∃ place s, a.Holds id place s

theorem recorded_of_saveRecord {s : Simulation}
    (h : (saveRecord s).run.run a = (.ok (), b)) : b.Recorded s.id := by
  cases a with
  | memory a =>
    cases h
    trivial
  | files a =>
    obtain ⟨c, hsave, rfl⟩ := run_change_files h
    obtain ⟨place, hholds⟩ := FileArchive.holds_of_saveRecord hsave
    exact ⟨place, s, hholds⟩

theorem Recorded.twins (h : a.Recorded id) : Twins id a a := by
  cases a with
  | memory a => exact .memory rfl rfl
  | files a =>
    obtain ⟨place, s, hholds⟩ := h
    refine .files ⟨rfl, place, s, s.status, hholds, ?_, rfl, rfl, hholds.record, hholds.record⟩
    rw [List.dropLast_concat]
    exact hholds.home

theorem agrees_change {inMemory : MemoryArchive → MemoryArchive} {inFiles : FileArchive.Task Unit}
    (hmemory : ∀ a b : MemoryArchive, b.snapshots = a.snapshots → b.results = a.results →
      (inMemory b).snapshots = (inMemory a).snapshots ∧ (inMemory b).results = (inMemory a).results)
    (hfiles : Agrees (FileArchive.Twins id) inFiles inFiles) :
    Agrees (Twins id) (change inMemory inFiles) (change inMemory inFiles) := by
  rintro _ _ (⟨hsnapshots, hresults⟩ | h)
  · obtain ⟨hs, hr⟩ := hmemory _ _ hsnapshots hresults
    exact ⟨rfl, .memory hs hr⟩
  · obtain ⟨hresult, hafter⟩ := hfiles _ _ h
    exact ⟨hresult, .files hafter⟩

theorem agrees_setStatus (status : SimulationStatus) (completedAt : Option Nat) :
    Agrees (Twins id) (setStatus id status completedAt) (setStatus id status completedAt) :=
  agrees_change (fun _ _ hs hr => ⟨hs, hr⟩) (FileArchive.agrees_setStatus status completedAt)

theorem agrees_saveSnapshot (n : Nat) (w : World) :
    Agrees (Twins id) (saveSnapshot id n w) (saveSnapshot id n w) := by
  refine agrees_change (fun a b hs hr => ⟨?_, hr⟩) (FileArchive.agrees_saveSnapshot n w)
  rw [MemoryArchive.saveSnapshot, MemoryArchive.saveSnapshot, hs]

theorem agrees_saveResult (result : SimulationResult) :
    Agrees (Twins id) (saveResult id result) (saveResult id result) := by
  refine agrees_change (fun a b hs hr => ⟨hs, ?_⟩) (FileArchive.agrees_saveResult result)
  rw [MemoryArchive.saveResult, MemoryArchive.saveResult, hr]

namespace Twins

theorem setStatus_here (h : Twins id a b) (status : SimulationStatus) :
    ∃ c, (setStatus id status none).run.run a = (.ok (), c) ∧ Twins id c b := by
  cases h with
  | memory hs hr => exact ⟨_, rfl, .memory hs hr⟩
  | files h =>
    obtain ⟨c, hrun, hc⟩ := h.setStatus_here status
    refine ⟨.files c, ?_, .files hc⟩
    rw [setStatus, run_change, hrun]

theorem steps (h : Twins id a b) : b.steps id = a.steps id := by
  cases h with
  | memory hs hr => rw [Archive.steps, Archive.steps, MemoryArchive.steps, MemoryArchive.steps, hs]
  | files h => exact h.steps

theorem snapshot? (h : Twins id a b) (n : Nat) : b.snapshot? id n = a.snapshot? id n := by
  cases h with
  | memory hs hr =>
    rw [Archive.snapshot?, Archive.snapshot?, MemoryArchive.snapshot?, MemoryArchive.snapshot?, hs]
  | files h => exact h.snapshot? n

theorem result? (h : Twins id a b) : b.result? id = a.result? id := by
  cases h with
  | memory hs hr =>
    rw [Archive.result?, Archive.result?, MemoryArchive.result?, MemoryArchive.result?, hr]
  | files h => exact h.result?

end Twins

end Archive

end StepWorld
