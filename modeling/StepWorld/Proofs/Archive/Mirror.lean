import Mathlib.Data.Nat.Digits.Defs
import StepWorld.Proofs.Archive.Filing
import StepWorld.Proofs.Archive.Neighbours
import StepWorld.Proofs.Archive.Trees

/-! An archive in files that mirrors one in memory. Each record, each result and each snapshot of
the one is a file of the other, at a place of its own, and no other file is there. What both are
asked to change they change alike, and what they are asked for they find alike. -/

namespace StepWorld

/-- An id of a simulation with as many digits as it is drawn with. -/
def IsDrawnId (id : String) : Prop := ∃ n < 16 ^ 12, id = numberedId "sim" n

theorem utf8ByteSize_ofList {text : List Char} (h : ∀ c ∈ text, c.utf8Size = 1) :
    (String.ofList text).utf8ByteSize = text.length := by
  induction text with
  | nil => rfl
  | cons c rest ih =>
    have hc := h c List.mem_cons_self
    have hrest := ih fun d hd => h d (List.mem_cons_of_mem _ hd)
    rw [String.ofList_cons, String.utf8ByteSize_append, String.utf8ByteSize_singleton, hc, hrest,
      List.length_cons]
    omega

namespace IsDrawnId

variable {id : String}

theorem isSimulationId (h : IsDrawnId id) : IsSimulationId id := by
  obtain ⟨n, -, hid⟩ := h
  exact ⟨n, hid⟩

theorem utf8ByteSize (h : IsDrawnId id) : id.utf8ByteSize = 16 := by
  have hdigits : ∀ d < 16, (Nat.digitChar d).utf8Size = 1 := by decide
  obtain ⟨n, hn, rfl⟩ := h
  have hsize : (String.ofList (hexText 12 n)).utf8ByteSize = (hexText 12 n).length := by
    refine utf8ByteSize_ofList fun c hc => ?_
    obtain ⟨d, hd, rfl⟩ := exists_digit_of_mem_hexText hc
    exact hdigits d hd
  have hlength : (hexText 12 n).length = 12 := by
    have htext := Nat.toDigits_length 16 n 12 (by decide) hn
    rw [hexText, List.length_append, List.length_replicate]
    omega
  have hsim : "sim".utf8ByteSize = 3 := by decide
  have hmark : "_".utf8ByteSize = 1 := by decide
  simp only [numberedId, String.utf8ByteSize_append]
  omega

theorem isPlainName (h : IsDrawnId id) : IsPlainName id := by
  have hdigits : ∀ d < 16, Nat.digitChar d ≠ '\x00' := by decide
  refine ⟨h.isSimulationId.ne (by decide), by rw [h.utf8ByteSize]; decide, ?_⟩
  obtain ⟨digits, hlist, hall⟩ := h.isSimulationId.toList
  rw [hlist, List.contains_eq_mem, decide_eq_false_iff_not]
  simp only [List.mem_cons, not_or]
  refine ⟨by decide, by decide, by decide, by decide, fun hnull => ?_⟩
  obtain ⟨d, hd, heq⟩ := hall _ hnull
  exact hdigits d hd heq.symm

end IsDrawnId

namespace Path

/-- A directory for an archive: a path of plain names that leaves room for what is put below it. -/
structure IsRoomy (base : Path) : Prop where
  relative : base.slashes = 0
  names : ∀ name ∈ base.segments, IsPlainName name
  room : base.toString.utf8ByteSize + 283 ≤ longestPath

namespace IsRoomy

variable {base : Path} {id name : String}

theorem isPlain (h : base.IsRoomy) : base.IsPlain where
  relative := h.relative
  names := h.names
  short := by
    have hroom := h.room
    simp only [isOverlong, decide_eq_false_iff_not]
    omega

theorem home (h : base.IsRoomy) (hid : IsDrawnId id) : (base.child id).IsPlain := by
  have hroom := h.room
  have hsize := hid.utf8ByteSize
  exact h.isPlain.child hid.isPlainName (by omega)

theorem beside (h : base.IsRoomy) (hid : IsDrawnId id) (hname : IsPlainName name)
    (hshort : name.utf8ByteSize ≤ 15) : ((base.child id).child name).IsPlain := by
  have hroom := h.room
  have hsize := hid.utf8ByteSize
  have hhome := base.utf8ByteSize_child id
  exact (h.home hid).child hname (by omega)

theorem record (h : base.IsRoomy) (hid : IsDrawnId id) :
    ((base.child id).child "simulation.json").IsPlain :=
  h.beside hid ⟨by decide, by decide, by decide⟩ (by decide)

theorem result (h : base.IsRoomy) (hid : IsDrawnId id) :
    ((base.child id).child "result.json").IsPlain :=
  h.beside hid ⟨by decide, by decide, by decide⟩ (by decide)

theorem snapshots (h : base.IsRoomy) (hid : IsDrawnId id) :
    ((base.child id).child "snapshots").IsPlain :=
  h.beside hid ⟨by decide, by decide, by decide⟩ (by decide)

theorem snapshot (h : base.IsRoomy) (hid : IsDrawnId id) (hname : IsPlainName name) :
    (((base.child id).child "snapshots").child name).IsPlain := by
  have hroom := h.room
  have hsize := hid.utf8ByteSize
  have hshort := hname.short
  have hhome := base.utf8ByteSize_child id
  have hsnapshots := (base.child id).utf8ByteSize_child "snapshots"
  have hnine : "snapshots".utf8ByteSize = 9 := by decide
  have hlongest : longestName = 255 := rfl
  exact (h.snapshots hid).child hname (by omega)

end IsRoomy

end Path

namespace FileArchive

/-- An archive in files that mirrors one in memory. Only the directories stand in it that lead to
snapshots. -/
structure Mirrors (base : Path) (m : MemoryArchive) (a : FileArchive) : Prop where
  below : a.base = base
  tree : a.folder.IsTree
  files : ∀ place file, a.folder.entryAt place = .file file ↔
    ∃ rest, m.Files rest file ∧ place = base.segments ++ rest
  rooms : ∀ place, a.folder.entryAt place = .directory →
    ∃ id, place <+: base.segments ++ [id, "snapshots"]
  sound : m.Sound

namespace Mirrors

variable {base : Path} {m n : MemoryArchive} {a b : FileArchive} {id name : String} {path : Path}
  {place spot rest : Place} {file : StoredFile}

theorem create (base : Path) : (FileArchive.create base).Mirrors base .empty := by
  have hentry (place : Place) : (FileArchive.create base).folder.entryAt place =
      if place = [] then .directory else .absent := by
    split
    · next heq => rw [heq, Folder.entryAt_nil]
    · next hne => exact Folder.entryAt_empty hne
  refine ⟨rfl, Folder.isTree_empty, fun place file => ?_, fun place hdirectory => ?_, .empty⟩
  · refine iff_of_false (fun hfile => ?_) ?_
    · rw [hentry] at hfile
      split at hfile <;> cases hfile
    · rintro ⟨rest, hrest, -⟩
      cases hrest with
      | record h => simp [MemoryArchive.record?, MemoryArchive.empty, Table.get?] at h
      | result h => simp [MemoryArchive.result?, MemoryArchive.empty, Table.get?] at h
      | snapshot h => simp [MemoryArchive.snapshot?, MemoryArchive.empty] at h
  · rw [hentry] at hdirectory
    split at hdirectory
    · next heq => exact ⟨"", heq ▸ List.nil_prefix⟩
    · cases hdirectory

theorem entryAt_file (h : a.Mirrors base m) :
    a.folder.entryAt (base.segments ++ rest) = .file file ↔ m.Files rest file := by
  rw [h.files]
  constructor
  · rintro ⟨other, hother, heq⟩
    rwa [List.append_cancel_left heq]
  · exact fun hrest => ⟨rest, hrest, rfl⟩

theorem clear (h : a.Mirrors base m) (id : String)
    (hplace : place <+: base.segments ++ [id, "snapshots"]) :
    a.folder.IsClear place := by
  intro before hbefore content hfile
  obtain ⟨rest, hrest, rfl⟩ := (h.files before content).mp hfile
  have hleads := hbefore.trans hplace
  exact MemoryArchive.not_on_way_of_files hrest id ((List.prefix_append_right_inj _).mp hleads)

theorem free (h : a.Mirrors base m) (hrest : ∀ id, ¬ rest <+: [id, "snapshots"]) :
    a.folder.entryAt (base.segments ++ rest) ≠ .directory := by
  intro hdirectory
  obtain ⟨id, hleads⟩ := h.rooms _ hdirectory
  exact hrest id ((List.prefix_append_right_inj _).mp hleads)

theorem entryAt_cases (h : a.Mirrors base m) (hrest : ∀ id, ¬ rest <+: [id, "snapshots"]) :
    (∃ file, a.folder.entryAt (base.segments ++ rest) = .file file ∧ m.Files rest file) ∨
      a.folder.entryAt (base.segments ++ rest) = .absent ∧ ∀ file, ¬ m.Files rest file := by
  rcases a.folder.entryAt_cases (base.segments ++ rest) with hend | ⟨file, hend⟩ | hend
  · exact absurd hend (h.free hrest)
  · exact .inl ⟨file, hend, h.entryAt_file.mp hend⟩
  · refine .inr ⟨hend, fun file hfile => ?_⟩
    rw [h.entryAt_file.mpr hfile] at hend
    cases hend

theorem ensureDirectories (h : a.Mirrors base m) (hplain : path.IsPlain)
    (hpath : path.segments <+: base.segments ++ [id, "snapshots"]) :
    ∃ b, (onFolder (.ensureDirectories path)).run.run a = (.ok (), b) ∧ b.Mirrors base m ∧
      b.folder.entryAt path.segments = .directory := by
  have hclear := h.clear id hpath
  obtain ⟨g, hrun, htree, hg⟩ := FolderTask.run_ensureDirectories h.tree hplain hclear
  refine ⟨{ a with folder := g }, run_onFolder_ok hrun, ⟨h.below, htree, fun place file => ?_,
    fun place hdirectory => ?_, h.sound⟩, ?_⟩
  · dsimp only
    rw [hg, ← h.files]
    split
    · next hbefore => exact iff_of_false (fun heq => nomatch heq) (hclear place hbefore file)
    · exact Iff.rfl
  · dsimp only at hdirectory
    rw [hg] at hdirectory
    split at hdirectory
    · next hbefore => exact ⟨id, hbefore.trans hpath⟩
    · exact h.rooms place hdirectory
  · dsimp only
    rw [hg, if_pos (List.prefix_refl _)]

/-- One file is written, and the archive in memory is changed to match. -/
theorem writeFile (h : a.Mirrors base m) (spot : Place) (file : StoredFile)
    (hplain : (path.child name).IsPlain)
    (hpath : a.folder.entryAt path.segments = .directory)
    (hspot : path.segments ++ [name] = base.segments ++ spot)
    (hfree : ∀ id, ¬ spot <+: [id, "snapshots"]) (hwritable : file.document.isWritable = true)
    (hsound : n.Sound)
    (hfiles : ∀ rest other, n.Files rest other ↔
      if rest = spot then other = file else m.Files rest other) :
    ∃ b, (FileArchive.writeFile (path.child name) file).run.run a = (.ok (), b) ∧
      b.Mirrors base n := by
  have hend : a.folder.entryAt (path.segments ++ [name]) ≠ .directory := by
    rw [hspot]
    exact h.free hfree
  have hentry := Folder.entryAt_addFile hend file
  refine ⟨{ a with folder := a.folder.addFile (path.segments ++ [name]) file }, ?_, h.below,
    h.tree.addFile hpath hend file, fun place other => ?_, fun place hdirectory => ?_, hsound⟩
  · have hwrite := Folder.write_plain h.tree hplain hpath hend file
    unfold FileArchive.writeFile
    rw [if_pos hwritable]
    exact run_onFolder_ok (FolderTask.run_write_of hwrite)
  · dsimp only
    rw [hentry, hspot]
    split
    · next heq =>
      subst heq
      constructor
      · intro hother
        cases hother
        exact ⟨spot, (hfiles _ _).mpr (by rw [if_pos rfl]), rfl⟩
      · rintro ⟨rest, hrest, heq⟩
        have hsame := List.append_cancel_left heq
        rw [hfiles, if_pos hsame.symm] at hrest
        rw [hrest]
    · next hne =>
      rw [h.files]
      refine exists_congr fun rest => and_congr_left fun heq => ?_
      have hother : rest ≠ spot := by
        rintro rfl
        exact hne heq
      rw [hfiles, if_neg hother]
  · dsimp only at hdirectory
    rw [hentry] at hdirectory
    split at hdirectory
    · cases hdirectory
    · exact h.rooms place hdirectory

theorem directoryPath (h : a.Mirrors base m) (hid : IsDrawnId id) :
    a.directoryPath id = base.child id := by
  rw [a.directoryPath_child hid.isSimulationId, h.below]

theorem saveBeside (h : a.Mirrors base m) (hhome : (base.child id).IsPlain)
    (hplain : ((base.child id).child name).IsPlain) (hname : name ≠ "snapshots")
    (hwritable : file.document.isWritable = true) (hsound : n.Sound)
    (hfiles : ∀ rest other, n.Files rest other ↔
      if rest = [id, name] then other = file else m.Files rest other) :
    ∃ b, (onFolder (.ensureDirectories (base.child id)) >>= fun _ =>
        FileArchive.writeFile ((base.child id).child name) file).run.run a = (.ok (), b) ∧
      b.Mirrors base n := by
  have hway : (base.child id).segments <+: base.segments ++ [id, "snapshots"] := by
    simp [Path.child]
  have hfree (other : String) : ¬ [id, name] <+: [other, "snapshots"] := by
    simp [List.cons_prefix_cons, hname]
  obtain ⟨c, hrun, hc, hdirectory⟩ := h.ensureDirectories hhome hway
  obtain ⟨b, hwrite, hb⟩ := hc.writeFile [id, name] file hplain hdirectory
    (by simp [Path.child]) hfree hwritable hsound hfiles
  refine ⟨b, ?_, hb⟩
  rw [run_bind, hrun]
  exact hwrite

theorem saveRecord (h : a.Mirrors base m) (hbase : base.IsRoomy) {s : Simulation}
    (hid : IsDrawnId s.id) (hs : s.document.isWritable = true) :
    ∃ b, (FileArchive.saveRecord s).run.run a = (.ok (), b) ∧ b.Mirrors base (m.saveRecord s) := by
  unfold FileArchive.saveRecord recordPath
  rw [run_get_bind, h.directoryPath hid]
  exact h.saveBeside (hbase.home hid) (hbase.record hid) (by decide) hs (h.sound.saveRecord hs)
    (m.files_saveRecord s)

theorem saveResult (h : a.Mirrors base m) (hbase : base.IsRoomy) (hid : IsDrawnId id)
    {r : SimulationResult} (hstored : r.stored = r) (hr : r.document.isWritable = true) :
    ∃ b, (FileArchive.saveResult id r).run.run a = (.ok (), b) ∧
      b.Mirrors base (m.saveResult id r) := by
  unfold FileArchive.saveResult resultPath
  rw [run_get_bind, h.directoryPath hid, hstored]
  exact h.saveBeside (hbase.home hid) (hbase.result hid) (by decide) hr (h.sound.saveResult id r)
    (m.files_saveResult id r)

theorem saveSnapshot (h : a.Mirrors base m) (hbase : base.IsRoomy) (hid : IsDrawnId id)
    {step : Nat} (hshort : (snapshotName step).utf8ByteSize ≤ longestName) {w : World}
    (hstored : w.withoutHistory.stored = w.withoutHistory)
    (hw : (Value.map w.presentFields).isWritable = true) :
    ∃ b, (FileArchive.saveSnapshot id step w).run.run a = (.ok (), b) ∧
      b.Mirrors base (m.saveSnapshot id step w) := by
  have hway : ((base.child id).child "snapshots").segments <+:
      base.segments ++ [id, "snapshots"] := by simp [Path.child]
  have hfree (other : String) : ¬ [id, "snapshots", snapshotName step] <+: [other, "snapshots"] := by
    simp [List.cons_prefix_cons]
  obtain ⟨c, hrun, hc, hdirectory⟩ := h.ensureDirectories (hbase.snapshots hid) hway
  have hroom : (makeRoom id).run.run a = (.ok (), c) := by
    unfold makeRoom snapshotsPath
    rw [run_get_bind, h.directoryPath hid]
    exact hrun
  obtain ⟨b, hwrite, hb⟩ := hc.writeFile [id, "snapshots", snapshotName step] (.snapshot w.withoutHistory)
    (hbase.snapshot hid (isPlainName_snapshotName hshort)) hdirectory (by simp [Path.child]) hfree hw
    (h.sound.saveSnapshot id hshort w) (m.files_saveSnapshot id step w)
  refine ⟨b, ?_, hb⟩
  unfold FileArchive.saveSnapshot
  rw [run_bind, hroom]
  dsimp only
  rw [run_get_bind, snapshotPath, snapshotsPath, hc.directoryPath hid, hstored]
  exact hwrite

theorem free_record (id other : String) : ¬ [id, "simulation.json"] <+: [other, "snapshots"] := by
  simp [List.cons_prefix_cons]

theorem entry_record (h : a.Mirrors base m) (hbase : base.IsRoomy) (hid : IsDrawnId id) :
    a.folder.entry (a.recordPath id) = (m.record? id).elim .absent fun s => .file (.record s) := by
  have hclear : a.folder.IsClear (base.child id).segments :=
    h.clear id (by simp [Path.child])
  have hentry := h.tree.entry_child (hbase.record hid) hclear
  have hplace : (base.child id).segments ++ ["simulation.json"] =
      base.segments ++ [id, "simulation.json"] := by simp [Path.child]
  rw [recordPath, h.directoryPath hid, hentry, hplace]
  rcases h.entryAt_cases (free_record id) with ⟨file, hend, hfile⟩ | ⟨hend, hnone⟩
  · obtain ⟨s, hs, rfl⟩ := MemoryArchive.files_record.mp hfile
    rw [hend, hs]
    rfl
  · have hs : m.record? id = none := by
      cases hs : m.record? id with
      | none => rfl
      | some s => exact absurd (MemoryArchive.Files.record hs) (hnone _)
    rw [hend, hs]
    rfl

theorem setStatus (h : a.Mirrors base m) (hbase : base.IsRoomy) (hid : IsDrawnId id)
    (status : SimulationStatus) {completedAt : Option Nat}
    (hstamp : (optionalStamp completedAt).isWritable = true) :
    ∃ b, (FileArchive.setStatus id status completedAt).run.run a = (.ok (), b) ∧
      b.Mirrors base (m.setStatus id status completedAt) := by
  have hentry := h.entry_record hbase hid
  have hsound := h.sound.setStatus id status hstamp
  have hfiles := m.files_setStatus id status completedAt
  have hplain := hbase.record hid
  have hfound : (a.folder.entry (a.recordPath id)).found = .ok (m.record? id).isSome := by
    rw [hentry]
    cases m.record? id <;> rfl
  unfold FileArchive.setStatus
  rw [run_get_bind, run_bind, run_onFolder_ok (FolderTask.run_found_of hfound)]
  dsimp only
  cases hs : m.record? id with
  | none =>
    refine ⟨a, rfl, h.below, h.tree, fun place file => ?_, h.rooms, hsound⟩
    rw [h.files]
    refine exists_congr fun rest => and_congr_left fun _ => ?_
    rw [hfiles]
    split
    · next heq => simp [heq, MemoryArchive.files_record, hs]
    · exact Iff.rfl
  | some s =>
    have hnull : (a.recordPath id).holdsNull = false := by
      rw [recordPath, h.directoryPath hid]
      exact hplain.holdsNull
    have hread : a.folder.content (a.recordPath id) = .ok (.record s) := by
      rw [Folder.content, hnull, hentry, hs]
      rfl
    have hend : a.folder.entryAt (base.segments ++ [id, "simulation.json"]) =
        .file (.record s) := h.entryAt_file.mpr (.record hs)
    have hhome : a.folder.entryAt (base.child id).segments = .directory :=
      h.tree.directory_before ["simulation.json"] (by simp) (by simp [Path.child, hend])
    have hwritable := Simulation.isWritable_withStatus (h.sound.writable id s hs) status hstamp
    simp only [Option.isSome_some, if_true]
    rw [run_bind, run_onFolder_ok (FolderTask.run_read_of hread)]
    dsimp only
    rw [recordPath, h.directoryPath hid]
    refine h.writeFile [id, "simulation.json"] _ hplain hhome (by simp [Path.child])
      (free_record id) hwritable hsound fun rest other => ?_
    rw [hfiles, hs]
    split
    · simp
    · exact Iff.rfl

theorem without (h : a.Mirrors base m) {g : Folder StoredFile} (htree : g.IsTree)
    (hg : ∀ place, g.entryAt place =
      if base.segments ++ [id] <+: place then .absent else a.folder.entryAt place) :
    ({ a with folder := g } : FileArchive).Mirrors base (m.delete id) := by
  refine ⟨h.below, htree, fun place file => ?_, fun place hdirectory => ?_, h.sound.delete id⟩
  · dsimp only
    rw [hg]
    split
    · next hbelow =>
      refine iff_of_false (fun heq => nomatch heq) ?_
      rintro ⟨rest, hrest, rfl⟩
      rw [List.prefix_append_right_inj] at hbelow
      exact ((m.files_delete id rest file).mp hrest).1 hbelow
    · next hbelow =>
      rw [h.files]
      refine exists_congr fun rest => and_congr_left fun heq => ?_
      rw [heq, List.prefix_append_right_inj] at hbelow
      rw [m.files_delete, and_iff_right hbelow]
  · dsimp only at hdirectory
    rw [hg] at hdirectory
    split at hdirectory
    · cases hdirectory
    · exact h.rooms place hdirectory

theorem delete (h : a.Mirrors base m) (hbase : base.IsRoomy) (hid : IsDrawnId id) :
    ∃ b, (FileArchive.delete id).run.run a = (.ok (), b) ∧ b.Mirrors base (m.delete id) := by
  have hclear : a.folder.IsClear (base.child id).segments :=
    h.clear id (by simp [Path.child])
  have hplain := hbase.home hid
  have hentry : a.folder.entry (base.child id) = a.folder.entryAt (base.segments ++ [id]) :=
    h.tree.entry_child hplain hclear.parent
  unfold FileArchive.delete
  rw [run_get_bind, h.directoryPath hid, run_bind]
  rcases a.folder.entryAt_cases (base.segments ++ [id]) with hend | ⟨content, hend⟩ | hend
  · have hne : (base.child id).segments ≠ [] := by simp [Path.child]
    have hdelete := FolderTask.run_deleteTree h.tree hplain hend
    have hfound : (a.folder.entry (base.child id)).found = .ok true := by
      rw [hentry, hend]
      rfl
    rw [run_onFolder_ok (FolderTask.run_found_of hfound)]
    simp only [if_true]
    exact ⟨_, run_onFolder_ok hdelete, h.without (h.tree.remove _) (Folder.entryAt_remove hne)⟩
  · exact absurd hend (hclear _ (List.prefix_refl _) content)
  · have hfound : (a.folder.entry (base.child id)).found = .ok false := by
      rw [hentry, hend]
      rfl
    rw [run_onFolder_ok (FolderTask.run_found_of hfound)]
    refine ⟨a, rfl, h.without h.tree fun place => ?_⟩
    split
    · next hbelow =>
      obtain ⟨rest, rfl⟩ := hbelow
      exact h.tree.absent_below rest hend
    · rfl

/-- The steps are read off the names of the files, each of which names one step. -/
theorem steps_eq (h : a.Mirrors base m) (hbase : base.IsRoomy) (hid : IsDrawnId id) :
    a.steps id = .ok (m.steps id) := by
  have hplain := hbase.snapshots hid
  have hway : ((base.child id).child "snapshots").segments <+:
      base.segments ++ [id, "snapshots"] := by simp [Path.child]
  have hsegments : ((base.child id).child "snapshots").segments =
      base.segments ++ [id, "snapshots"] := by simp [Path.child]
  have hfree (name other : String) : ¬ [id, "snapshots", name] <+: [other, "snapshots"] := by
    simp [List.cons_prefix_cons]
  obtain ⟨steps, hsteps, hnodup, hmem⟩ := h.sound.naturals id
  -- Neither list has a name twice, so that the same names in both are enough.
  have hnames : (a.folder.names (base.segments ++ [id, "snapshots"])).Perm
      (steps.map fun n : Nat => snapshotName n) := by
    have hapart : (steps.map fun n : Nat => snapshotName n).Nodup :=
      hnodup.map fun _ _ => snapshotName_injective
    refine (List.perm_ext_iff_of_nodup (h.tree.nodup_names _) hapart).mpr fun name => ?_
    rw [Folder.mem_names_iff, List.append_assoc, List.mem_map]
    rcases h.entryAt_cases (hfree name) with ⟨file, hend, hfile⟩ | ⟨hend, hnone⟩
    · obtain ⟨k, w, rfl, hw, rfl⟩ := MemoryArchive.files_snapshot.mp hfile
      exact iff_of_true (by simp [hend]) ⟨k, (hmem k).mpr (by simp [hw]), rfl⟩
    · refine iff_of_false (by simp [hend]) ?_
      rintro ⟨k, hk, rfl⟩
      obtain ⟨w, hw⟩ := Option.isSome_iff_exists.mp ((hmem k).mp hk)
      exact hnone _ (.snapshot hw)
  have hshort (n : Nat) (hn : n ∈ steps) : (snapshotName n).utf8ByteSize ≤ longestName := by
    obtain ⟨w, hw⟩ := Option.isSome_iff_exists.mp ((hmem n).mp hn)
    obtain ⟨k, hk, hlong⟩ := h.sound.natural hw
    rwa [← hk] at hlong
  unfold FileArchive.steps snapshotsPath
  rw [h.directoryPath hid]
  rcases a.folder.entryAt_cases (base.segments ++ [id, "snapshots"]) with
    hend | ⟨content, hend⟩ | hend
  · obtain ⟨numbers, hnumbers, hperm⟩ := mapM_stepOf hnames hshort
    rw [h.tree.find_directory hplain (hsegments ▸ hend), hsegments]
    dsimp only
    rw [hnumbers, hsteps, ← mergeSort_congr hperm]
    rfl
  · exact absurd hend (h.clear id (List.prefix_refl _) _ (List.prefix_refl _) content)
  · obtain ⟨place, hfind⟩ := Folder.find_absent hplain (h.clear id hway) (hsegments ▸ hend)
    -- Without the directory there is no file in it.
    have hempty : steps = [] := by
      refine List.eq_nil_iff_forall_not_mem.mpr fun n hn => ?_
      obtain ⟨w, hw⟩ := Option.isSome_iff_exists.mp ((hmem n).mp hn)
      have hfile := h.entryAt_file.mpr (.snapshot hw)
      have hbelow := h.tree.absent_below [snapshotName n] hend
      rw [List.append_assoc] at hbelow
      simp [hfile] at hbelow
    rw [hfind, hsteps, hempty, List.map_nil, List.mergeSort_nil]

end Mirrors

end FileArchive

end StepWorld
