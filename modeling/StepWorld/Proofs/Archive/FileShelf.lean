import StepWorld.Proofs.Archive.Folders
import StepWorld.Proofs.Archive.SnapshotNames

/-! What an archive in files keeps of one simulation: a record, one snapshot for each of its first
steps, and perhaps a result. What is saved is found again. -/

namespace StepWorld

namespace Folder

variable {α : Type} {folder changed : Folder α} {path : Path} {start place : Place}
  {names : List String}

theorem follow_mono
    (h : ∀ place, folder.entryAt place = .directory → changed.entryAt place = .directory)
    (hfollow : folder.follow start names = (place, .directory)) :
    changed.follow start names = (place, .directory) := by
  induction names generalizing start with
  | nil =>
    obtain rfl : start = place := congrArg Prod.fst hfollow
    exact Prod.ext rfl (h start (congrArg Prod.snd hfollow))
  | cons first rest ih =>
    cases hstart : folder.entryAt start with
    | directory =>
      simp only [follow, hstart, h start hstart] at hfollow ⊢
      by_cases hup : first = ".."
      · simp only [hup, if_true] at hfollow ⊢
        by_cases hroot : start.isEmpty = true
        · simp only [hroot, if_true] at hfollow ⊢
          exact hfollow
        · simp only [hroot, Bool.false_eq_true, if_false] at hfollow ⊢
          exact ih hfollow
      · by_cases hlong : longestName < first.utf8ByteSize
        · simp [hup, hlong] at hfollow
        · simp only [hup, hlong, if_false] at hfollow ⊢
          exact ih hfollow
    | _ => simp [follow, hstart] at hfollow

theorem find_mono
    (h : ∀ place, folder.entryAt place = .directory → changed.entryAt place = .directory)
    (hfind : folder.find path = (place, .directory)) : changed.find path = (place, .directory) := by
  obtain ⟨hover, hnull, hslashes, hfollow⟩ := find_of_directory hfind
  unfold find
  rw [hover, hnull, hslashes]
  simpa using follow_mono h hfollow

end Folder

namespace FileArchive

variable {a b : FileArchive} {id : String} {place : Place} {worlds : List World}
  {result : Option SimulationResult}

theorem run_onFolder {α : Type} {task : FolderTask StoredFile α} {x : α}
    (h : (onFolder task).run.run a = (.ok x, b)) :
    ∃ folder, task.run.run a.folder = (.ok x, folder) ∧ b = { a with folder } := by
  simp only [onFolder, ExceptT.run, ExceptT.mk, StateT.run] at h
  generalize hrun : task a.folder = outcome at h
  obtain ⟨outcome, folder⟩ := outcome
  cases outcome with
  | ok y =>
    cases h
    exact ⟨folder, hrun, rfl⟩
  | error error => cases h

theorem run_writeFile {path : Path} {file : StoredFile}
    (h : (writeFile path file).run.run a = (.ok (), b)) :
    ∃ folder, a.folder.write path file = .ok folder ∧ b = { a with folder } := by
  unfold writeFile at h
  split at h
  · obtain ⟨folder, hrun, hb⟩ := run_onFolder h
    exact ⟨folder, FolderTask.run_write hrun, hb⟩
  · cases h

theorem file?_of_find {path : Path} {file : StoredFile}
    (h : a.folder.find path = (place, .file file)) (hnull : path.holdsNull = false) :
    a.file? path = .ok (some file) := by
  simp [file?, Folder.entry, Folder.content, h, hnull, Entry.found, Entry.content, answer, bind,
    Except.bind, pure, Except.pure]

theorem file?_of_absent {path : Path} (h : a.folder.find path = (place, .absent)) :
    a.file? path = .ok none := by
  simp [file?, Folder.entry, h, Entry.found, answer, bind, Except.bind, pure, Except.pure]

/-- The archive keeps of a simulation the worlds after its first steps, and a result or none. -/
structure Keeps (a : FileArchive) (id : String) (place : Place) (worlds : List World)
    (result : Option SimulationResult) : Prop where
  home : a.folder.find (a.directoryPath id) = (place, .directory)
  fits : (a.recordPath id).isOverlong = false
  room : a.folder.entryAt (place ++ ["snapshots"]) = .directory ∨
    a.folder.entryAt (place ++ ["snapshots"]) = .absent ∧ worlds = []
  names : (a.folder.names (place ++ ["snapshots"])).Perm
    ((List.range worlds.length).map fun n => snapshotName (n + 1 : Nat))
  named : ∀ n < worlds.length, (a.snapshotPath id (n + 1 : Nat)).isOverlong = false ∧
    (snapshotName (n + 1 : Nat)).utf8ByteSize ≤ longestName
  snapshots : ∀ n w, worlds[n]? = some w →
    a.folder.entryAt (place ++ ["snapshots"] ++ [snapshotName (n + 1 : Nat)]) =
      .file (.snapshot w.withoutHistory.stored)
  result : a.folder.entryAt (place ++ ["result.json"]) =
    result.elim .absent fun r => .file (.result r.stored)

theorem toList_snapshotName (step : Int) :
    (snapshotName step).toList = paddedInt 5 step ++ ".json".toList := String.toList_ofList

theorem snapshotName_ne_up (step : Int) : snapshotName step ≠ ".." := by
  intro hup
  have hlength := congrArg List.length
    ((toList_snapshotName step).symm.trans (congrArg String.toList hup))
  simp at hlength

theorem isPlainName_snapshotName {step : Int}
    (h : (snapshotName step).utf8ByteSize ≤ longestName) : IsPlainName (snapshotName step) := by
  refine ⟨snapshotName_ne_up step, h, ?_⟩
  rw [toList_snapshotName, List.contains_eq_mem, decide_eq_false_iff_not, List.mem_append]
  rintro (hnull | hnull)
  · rcases mem_paddedInt_cases hnull with hsign | hdigit
    · exact absurd hsign (by decide)
    · exact absurd hdigit (by decide)
  · exact absurd hnull (by decide)

theorem directory_addFile {α : Type} {folder : Folder α} {place : Place} (content : α)
    (other : Place) (hother : folder.entryAt other = .directory) :
    (folder.addFile place content).entryAt other = .directory :=
  have hlisted := Folder.directory_iff.mp hother
  Folder.directory_iff.mpr hlisted

theorem directory_addDirectory {α : Type} {folder : Folder α} {place : Place} (other : Place)
    (hother : folder.entryAt other = .directory) :
    (folder.addDirectory place).entryAt other = .directory := by
  rw [Folder.entryAt_addDirectory]
  split
  · rfl
  · exact hother

theorem find_result (home : a.folder.find (a.directoryPath id) = (place, .directory))
    (fits : (a.recordPath id).isOverlong = false) :
    a.folder.find (a.resultPath id) =
        (place ++ ["result.json"], a.folder.entryAt (place ++ ["result.json"])) ∧
      (a.resultPath id).holdsNull = false := by
  have hplain : IsPlainName "result.json" := ⟨by decide, by decide, by decide⟩
  refine ⟨Folder.find_child home hplain (Path.isOverlong_child_mono (by decide) fits), ?_⟩
  rw [resultPath, Path.holdsNull_child, (Folder.find_of_directory home).2.1, hplain.whole]
  rfl

theorem run_saveResult {r : SimulationResult}
    (home : a.folder.find (a.directoryPath id) = (place, .directory))
    (hrun : (saveResult id r).run.run a = (.ok (), b)) :
    (a.resultPath id).isOverlong = false ∧ a.folder.entry (a.resultPath id) ≠ .directory ∧
      b = { a with
        folder := a.folder.addFile (place ++ ["result.json"]) (.result r.stored) } := by
  unfold saveResult at hrun
  rw [run_get_bind] at hrun
  obtain ⟨_, c, hfound, hrun⟩ := run_bind_eq_ok.mp hrun
  obtain rfl : c = a := by
    obtain ⟨folder, hf, rfl⟩ := run_onFolder hfound
    rw [FolderTask.run_ensureDirectories_found home] at hf
    cases hf
    rfl
  obtain ⟨folder, hw, rfl⟩ := run_writeFile hrun
  obtain ⟨-, hover, hentry, rfl⟩ := Folder.write_child home hw
  exact ⟨hover, hentry, rfl⟩

namespace Keeps

theorem beside (h : a.Keeps id place worlds result) {name : String} (hname : name ≠ "snapshots")
    (hd : a.folder.entryAt (place ++ [name]) ≠ .directory) {file : StoredFile}
    {after : Option SimulationResult}
    (hafter : (a.folder.addFile (place ++ [name]) file).entryAt (place ++ ["result.json"]) =
      after.elim .absent fun r => .file (.result r.stored)) :
    ({ a with folder := a.folder.addFile (place ++ [name]) file } : FileArchive).Keeps id place
      worlds after where
  home := Folder.find_mono (directory_addFile file) h.home
  fits := h.fits
  room := by
    rw [Folder.entryAt_addFile hd, if_neg (by simpa using hname.symm)]
    exact h.room
  names := by
    rw [Folder.names_addFile_other (by simp)]
    exact h.names
  named := h.named
  snapshots n w hw := by
    rw [Folder.entryAt_addFile hd, if_neg (by simp)]
    exact h.snapshots n w hw
  result := hafter

theorem find_record (h : a.Keeps id place worlds result) :
    a.folder.find (a.recordPath id) = (place ++ ["simulation.json"],
      a.folder.entryAt (place ++ ["simulation.json"])) :=
  Folder.find_child h.home ⟨by decide, by decide, by decide⟩ h.fits

theorem find_snapshots (h : a.Keeps id place worlds result) :
    a.folder.find (a.snapshotsPath id) = (place ++ ["snapshots"],
      a.folder.entryAt (place ++ ["snapshots"])) :=
  Folder.find_child h.home ⟨by decide, by decide, by decide⟩
    (Path.isOverlong_child_mono (by decide) h.fits)

theorem setStatus (h : a.Keeps id place worlds result) {status : SimulationStatus}
    {completedAt : Option Nat}
    (hrun : (FileArchive.setStatus id status completedAt).run.run a = (.ok (), b)) :
    b.Keeps id place worlds result := by
  unfold FileArchive.setStatus at hrun
  rw [run_get_bind] at hrun
  obtain ⟨there, c, hfound, hrun⟩ := run_bind_eq_ok.mp hrun
  obtain rfl : c = a := by
    obtain ⟨folder, hf, rfl⟩ := run_onFolder hfound
    rw [FolderTask.run_found hf]
  split at hrun
  · obtain ⟨file, d, hread, hrun⟩ := run_bind_eq_ok.mp hrun
    obtain rfl : d = c := by
      obtain ⟨folder, hf, rfl⟩ := run_onFolder hread
      rw [FolderTask.run_read hf]
    split at hrun
    · obtain ⟨folder, hw, rfl⟩ := run_writeFile hrun
      obtain ⟨-, -, hentry, rfl⟩ := Folder.write_child h.home hw
      rw [Folder.entry] at hentry
      have hd : d.folder.entryAt (place ++ ["simulation.json"]) ≠ .directory :=
        fun heq => hentry ((congrArg Prod.snd h.find_record).trans heq)
      refine h.beside (by decide) hd ?_
      rw [Folder.entryAt_addFile hd, if_neg (by simp)]
      exact h.result
    · cases hrun
      exact h
  · cases hrun
    exact h

theorem makeRoom (h : a.Keeps id place worlds result)
    (hrun : (FileArchive.makeRoom id).run.run a = (.ok (), b)) :
    b.Keeps id place worlds result ∧ b.folder.entryAt (place ++ ["snapshots"]) = .directory ∧
      b.base = a.base := by
  have hplain : IsPlainName "snapshots" := ⟨by decide, by decide, by decide⟩
  have hover : (a.snapshotsPath id).isOverlong = false :=
    Path.isOverlong_child_mono (by decide) h.fits
  unfold FileArchive.makeRoom at hrun
  rw [run_get_bind] at hrun
  obtain ⟨folder, hfolder, rfl⟩ := run_onFolder hrun
  rcases FolderTask.run_ensureDirectories_child h.home hplain hover hfolder with
    ⟨hd, rfl⟩ | ⟨habsent, rfl⟩
  · exact ⟨h, hd, rfl⟩
  · have hempty : worlds = [] := by
      rcases h.room with hd | ⟨-, hempty⟩
      · rw [habsent] at hd
        cases hd
      · exact hempty
    refine ⟨⟨Folder.find_mono directory_addDirectory h.home, h.fits, .inl ?_, ?_, h.named, ?_, ?_⟩,
      ?_, rfl⟩
    · simp [Folder.entryAt_addDirectory]
    · rw [Folder.names_addDirectory, if_neg (by simp)]
      exact h.names
    · simp [hempty]
    · rw [Folder.entryAt_addDirectory, if_neg (by simp)]
      exact h.result
    · simp [Folder.entryAt_addDirectory]

theorem saveSnapshot (h : a.Keeps id place worlds result) {w : World}
    (hrun : (FileArchive.saveSnapshot id (worlds.length + 1 : Nat) w).run.run a = (.ok (), b)) :
    b.Keeps id place (worlds ++ [w]) result := by
  unfold FileArchive.saveSnapshot at hrun
  obtain ⟨_, c, hroom, hrun⟩ := run_bind_eq_ok.mp hrun
  obtain ⟨hc, hd, hbase⟩ := h.makeRoom hroom
  rw [run_get_bind] at hrun
  obtain ⟨folder, hw, rfl⟩ := run_writeFile hrun
  have hsnapshots := hc.find_snapshots
  rw [hd] at hsnapshots
  obtain ⟨hshort, hover, -, rfl⟩ := Folder.write_child hsnapshots hw
  -- No step so far has the name that the new snapshot is given.
  have habsent : c.folder.entryAt
      (place ++ ["snapshots"] ++ [snapshotName (worlds.length + 1 : Nat)]) = .absent := by
    refine Classical.byContradiction fun hne => ?_
    obtain ⟨k, hk, hname⟩ := List.mem_map.mp (hc.names.mem_iff.mp (Folder.mem_names hne))
    have hsame := snapshotName_injective hname
    have hlt := List.mem_range.mp hk
    omega
  have hfree : c.folder.entryAt
      (place ++ ["snapshots"] ++ [snapshotName (worlds.length + 1 : Nat)]) ≠ .directory := by
    rw [habsent]
    simp
  refine ⟨Folder.find_mono (directory_addFile _) hc.home, hc.fits,
    .inl (directory_addFile _ _ hd), ?_, fun k hk => ?_, fun k v hv => ?_, ?_⟩
  · refine (Folder.names_addFile_new habsent _).trans ?_
    rw [List.length_append, List.length_singleton, List.range_succ, List.map_append]
    exact (hc.names.cons _).trans (List.perm_append_singleton _ _).symm
  · by_cases hlast : k < worlds.length
    · exact hc.named k hlast
    · obtain rfl : k = worlds.length := by
        rw [List.length_append, List.length_singleton] at hk
        omega
      exact ⟨hover, hshort⟩
  · rw [Folder.entryAt_addFile hfree]
    by_cases hlast : k < worlds.length
    · rw [List.getElem?_append_left hlast] at hv
      rw [if_neg]
      · exact hc.snapshots k v hv
      · intro heq
        have hsame := snapshotName_injective (List.singleton_inj.mp (List.append_cancel_left heq))
        omega
    · rw [List.getElem?_append_right (Nat.not_lt.mp hlast), List.getElem?_singleton] at hv
      split at hv
      · next hzero =>
        obtain rfl : k = worlds.length := by omega
        cases hv
        rw [if_pos rfl]
      · cases hv
  · rw [Folder.entryAt_addFile hfree, if_neg (by simp)]
    exact hc.result

theorem saveResult (h : a.Keeps id place worlds result) {r : SimulationResult}
    (hrun : (FileArchive.saveResult id r).run.run a = (.ok (), b)) :
    b.Keeps id place worlds (some r) := by
  obtain ⟨-, -, rfl⟩ := run_saveResult h.home hrun
  have hd : a.folder.entryAt (place ++ ["result.json"]) ≠ .directory := by
    rw [h.result]
    cases result <;> simp
  exact h.beside (by decide) hd (by simp [Folder.entryAt_addFile hd])

theorem steps (h : a.Keeps id place worlds result) :
    a.steps id = .ok (firstSteps worlds.length) := by
  have hfind := h.find_snapshots
  unfold FileArchive.steps
  rcases h.room with hd | ⟨habsent, rfl⟩
  · have hnames : (a.folder.names (place ++ ["snapshots"])).Perm
        (((List.range worlds.length).map (· + 1)).map fun n : Nat => snapshotName n) := by
      rw [List.map_map]
      exact h.names
    obtain ⟨steps, hmap, hperm⟩ := mapM_stepOf hnames fun n hn => by
      obtain ⟨k, hk, rfl⟩ := List.mem_map.mp hn
      exact (h.named k (List.mem_range.mp hk)).2
    rw [List.map_map] at hperm
    rw [hfind, hd]
    dsimp only
    rw [hmap]
    exact congrArg Except.ok (mergeSort_firstSteps hperm)
  · rw [hfind, habsent]
    rfl

theorem snapshot? (h : a.Keeps id place worlds result) {n : Nat} {w : World}
    (hw : worlds[n]? = some w) :
    a.snapshot? id (n + 1 : Nat) = .ok (some w.withoutHistory.stored) := by
  obtain ⟨hn, -⟩ := List.getElem?_eq_some_iff.mp hw
  obtain ⟨hover, hshort⟩ := h.named n hn
  have hd : a.folder.entryAt (place ++ ["snapshots"]) = .directory := by
    rcases h.room with hd | ⟨-, rfl⟩
    · exact hd
    · cases hw
  have hfind := h.find_snapshots
  rw [hd] at hfind
  have hentry : a.folder.find (a.snapshotPath id (n + 1 : Nat)) = _ :=
    Folder.find_child hfind (isPlainName_snapshotName hshort) hover
  rw [h.snapshots n w hw] at hentry
  have hnull : (a.snapshotPath id (n + 1 : Nat)).holdsNull = false := by
    rw [snapshotPath, Path.holdsNull_child, (Folder.find_of_directory hfind).2.1,
      (isPlainName_snapshotName hshort).whole]
    rfl
  unfold FileArchive.snapshot?
  rw [file?_of_find hentry hnull]
  rfl

theorem result? (h : a.Keeps id place worlds result) :
    a.result? id = .ok (result.map (·.stored)) := by
  obtain ⟨hentry, hnull⟩ := find_result h.home h.fits
  rw [h.result] at hentry
  unfold FileArchive.result?
  cases result with
  | none =>
    rw [file?_of_absent hentry]
    rfl
  | some r =>
    rw [file?_of_find hentry hnull]
    rfl

end Keeps

end FileArchive

end StepWorld
