import StepWorld.Folder
import StepWorld.Proofs.Moves

/-! Where paths lead in a folder, and what stands there after a change. A directory that is found
is not made again, and what is written changes one place only. -/

namespace StepWorld

namespace Path

variable {p : Path} {name other : String}

@[simp] theorem parent_child : (p.child name).parent = p := by
  simp [child, parent]

theorem holdsNull_child :
    (p.child name).holdsNull = (p.holdsNull || name.toList.contains '\x00') := by
  simp [holdsNull, child]

theorem utf8ByteSize_child_le (h : name.utf8ByteSize ≤ other.utf8ByteSize) :
    (p.child name).toString.utf8ByteSize ≤ (p.child other).toString.utf8ByteSize := by
  have hsize (last : String) : (p.child last).toString.utf8ByteSize =
      (String.ofList (List.replicate p.slashes '/')).utf8ByteSize +
        (String.intercalate "/" (p.segments ++ [last])).utf8ByteSize := by
    simp [toString, child, String.utf8ByteSize_append]
  rw [hsize, hsize]
  by_cases hempty : p.segments = []
  · simpa [hempty] using h
  · rw [String.intercalate_append_of_ne_nil hempty (by simp),
      String.intercalate_append_of_ne_nil hempty (by simp)]
    simpa [String.utf8ByteSize_append] using h

theorem isOverlong_child_mono (h : name.utf8ByteSize ≤ other.utf8ByteSize)
    (hother : (p.child other).isOverlong = false) : (p.child name).isOverlong = false := by
  have hsize := utf8ByteSize_child_le (p := p) h
  simp only [isOverlong, decide_eq_false_iff_not] at hother ⊢
  omega

theorem isOverlong_of_child (h : (p.child name).isOverlong = false) : p.isOverlong = false := by
  simp only [isOverlong, decide_eq_false_iff_not] at h ⊢
  by_cases hempty : p.segments = []
  · by_cases hslashes : p.slashes = 0
    · have hdot : p.toString = "." := by simp [toString, hslashes, hempty]
      rw [hdot]
      decide
    · simp [toString, child, hempty, hslashes, String.utf8ByteSize_append] at h ⊢
      omega
  · simp [toString, child, hempty,
      String.intercalate_append_of_ne_nil hempty (List.cons_ne_nil name []),
      String.utf8ByteSize_append] at h ⊢
    omega

end Path

/-- A name that leads from any directory to what stands there under it. -/
structure IsPlainName (name : String) : Prop where
  not_up : name ≠ ".."
  short : name.utf8ByteSize ≤ longestName
  whole : name.toList.contains '\x00' = false

namespace Folder

variable {α : Type} {folder : Folder α} {path : Path} {start place : Place} {names : List String}
  {name : String}

def Lost : Entry α → Prop
  | .file _ | .directory => False
  | _ => True

theorem not_lost_directory : ¬ Lost (.directory : Entry α) := fun h => h

theorem lost_beyond (names : List String) : Lost (Entry.beyond names : Entry α) := by
  induction names with
  | nil => trivial
  | cons first rest ih =>
    unfold Entry.beyond
    split
    · exact ih
    · split <;> trivial

theorem follow_append (h : folder.follow start names = (place, .directory)) :
    folder.entryAt place = .directory ∧
      ∀ name, folder.follow start (names ++ [name]) = folder.follow place [name] := by
  induction names generalizing start with
  | nil =>
    obtain rfl : start = place := congrArg Prod.fst h
    exact ⟨congrArg Prod.snd h, fun _ => rfl⟩
  | cons first rest ih =>
    cases hstart : folder.entryAt start with
    | directory =>
      simp only [List.cons_append, follow, hstart] at h ⊢
      by_cases hup : first = ".."
      · simp only [hup, if_true] at h ⊢
        by_cases hroot : start.isEmpty = true
        · simp only [hroot, if_true, Prod.mk.injEq] at h
          exact absurd (lost_beyond (α := α) rest) (by simp [h.2, Lost])
        · simp only [hroot, Bool.false_eq_true, if_false] at h ⊢
          exact ih h
      · by_cases hlong : longestName < first.utf8ByteSize
        · simp [hup, hlong] at h
        · simp only [hup, hlong, if_false] at h ⊢
          exact ih h
    | _ => simp [follow, hstart] at h

theorem follow_append_cases : (∃ place, folder.follow start names = (place, .directory)) ∨
    Lost (folder.follow start (names ++ [name])).2 := by
  induction names generalizing start with
  | nil =>
    cases hstart : folder.entryAt start with
    | directory => exact .inl ⟨start, by simp [follow, hstart]⟩
    | _ => exact .inr (by simp [follow, hstart, Lost])
  | cons first rest ih =>
    rw [List.cons_append]
    cases hstart : folder.entryAt start with
    | directory =>
      simp only [follow, hstart]
      by_cases hup : first = ".."
      · simp only [hup, if_true]
        by_cases hroot : start.isEmpty = true
        · simp only [hroot, if_true]
          exact .inr (lost_beyond _)
        · simp only [hroot, Bool.false_eq_true, if_false]
          exact ih
      · by_cases hlong : longestName < first.utf8ByteSize
        · simp only [hup, hlong, if_false, if_true]
          exact .inr trivial
        · simp only [hup, hlong, if_false]
          exact ih
    | _ => exact .inr (by simp [follow, hstart, Lost])

theorem find_of_directory (h : folder.find path = (place, .directory)) :
    path.isOverlong = false ∧ path.holdsNull = false ∧ path.slashes = 0 ∧
      folder.follow [] path.segments = (place, .directory) := by
  unfold find at h
  by_cases hover : path.isOverlong = true
  · simp [hover] at h
  · by_cases hnull : path.holdsNull = true
    · simp [hover, hnull] at h
    · by_cases hslashes : path.slashes = 0
      · simp only [hover, hnull, hslashes, if_true, Bool.false_eq_true, if_false] at h
        exact ⟨by simpa using hover, by simpa using hnull, hslashes, h⟩
      · simp only [hover, hnull, hslashes, Bool.false_eq_true, if_false, Prod.mk.injEq] at h
        exact absurd (lost_beyond (α := α) path.segments) (by simp [h.2, Lost])

theorem find_child (h : folder.find path = (place, .directory)) (hname : IsPlainName name)
    (hover : (path.child name).isOverlong = false) :
    folder.find (path.child name) = (place ++ [name], folder.entryAt (place ++ [name])) := by
  obtain ⟨-, hnull, hslashes, hfollow⟩ := find_of_directory h
  obtain ⟨hplace, hnext⟩ := follow_append hfollow
  have hnull' : (path.child name).holdsNull = false := by
    rw [Path.holdsNull_child, hnull, hname.whole]
    rfl
  have hlong : ¬ longestName < name.utf8ByteSize := Nat.not_lt.mpr hname.short
  have hslashes' : (path.child name).slashes = 0 := hslashes
  have hsegments : (path.child name).segments = path.segments ++ [name] := rfl
  unfold find
  rw [hover, hnull', hslashes', hsegments, hnext]
  simp [follow, hplace, hname.not_up, hlong]

theorem find_parent (h : ¬ Lost (folder.find (path.child name)).2) :
    ∃ place, folder.find path = (place, .directory) := by
  unfold find at h
  by_cases hover : (path.child name).isOverlong = true
  · simp [hover, Lost] at h
  · by_cases hnull : (path.child name).holdsNull = true
    · simp [hover, hnull, Lost] at h
    · by_cases hslashes : path.slashes = 0
      · have hslashes' : (path.child name).slashes = 0 := hslashes
        simp only [hover, hnull, hslashes', if_true, Bool.false_eq_true, if_false] at h
        have hcases : (∃ place, folder.follow [] path.segments = (place, .directory)) ∨
            Lost (folder.follow [] (path.segments ++ [name])).2 := follow_append_cases
        rcases hcases with ⟨place, hplace⟩ | hlost
        · refine ⟨place, ?_⟩
          have hnull' : path.holdsNull = false := by
            rw [Path.holdsNull_child, Bool.or_eq_true, not_or] at hnull
            exact Bool.eq_false_iff.mpr hnull.1
          have hover' := Path.isOverlong_of_child (Bool.eq_false_iff.mpr hover)
          unfold find
          rw [hover', hnull', hslashes]
          simpa using hplace
        · exact absurd hlost h
      · have hslashes' : ¬ (path.child name).slashes = 0 := hslashes
        simp only [hover, hnull, hslashes', Bool.false_eq_true, if_false] at h
        exact absurd (lost_beyond _) h

theorem plain_of_file {content : α} (h : folder.find (path.child name) = (place, .file content))
    (hup : name ≠ "..") : IsPlainName name ∧ (path.child name).isOverlong = false := by
  obtain ⟨home, hhome⟩ := @find_parent _ folder path name (by
    rw [h]
    exact fun hlost => hlost)
  obtain ⟨-, -, hslashes, hfollow⟩ := find_of_directory hhome
  obtain ⟨hplace, hnext⟩ := follow_append hfollow
  have hslashes' : (path.child name).slashes = 0 := hslashes
  have hsegments : (path.child name).segments = path.segments ++ [name] := rfl
  unfold find at h
  by_cases hover : (path.child name).isOverlong = true
  · simp [hover] at h
  · by_cases hnull : (path.child name).holdsNull = true
    · simp [hover, hnull] at h
    · rw [Bool.not_eq_true] at hover hnull
      simp only [hover, hnull, hslashes', if_true, Bool.false_eq_true, if_false, hsegments,
        hnext] at h
      refine ⟨⟨hup, ?_, ?_⟩, hover⟩
      · refine Nat.not_lt.mp fun hlong => ?_
        simp [follow, hplace, hup, hlong] at h
      · rw [Path.holdsNull_child, Bool.or_eq_false_iff] at hnull
        exact hnull.2

theorem entryAt_ne_outside (folder : Folder α) (place : Place) :
    folder.entryAt place ≠ .outside := by
  unfold entryAt
  split
  · simp
  · split <;> simp

theorem lookup_filter {κ β : Type} [BEq κ] [LawfulBEq κ] (keep : κ → Bool) (entries : List (κ × β))
    (key : κ) : (entries.filter fun entry => keep entry.1).lookup key =
      if keep key then entries.lookup key else none := by
  induction entries with
  | nil => simp
  | cons entry rest ih =>
    obtain ⟨first, content⟩ := entry
    by_cases hfirst : key = first
    · subst hfirst
      by_cases hkeep : keep key = true <;> simp [hkeep, ih]
    · have hne : (key == first) = false := by simpa using hfirst
      by_cases hkeep : keep first = true <;> simp [hkeep, List.lookup_cons, hne, ih]

theorem lookup_filter_ne {κ β : Type} [BEq κ] [LawfulBEq κ] {entries : List (κ × β)}
    {key other : κ} (h : other ≠ key) :
    (entries.filter fun entry => entry.1 != key).lookup other = entries.lookup other := by
  rw [lookup_filter (fun first => first != key) entries other, if_pos (by simpa using h)]

theorem entryAt_unlisted (hroot : place ≠ [])
    (h : place ∉ folder.directories ++ folder.files.map Prod.fst) :
    folder.entryAt place = .absent := by
  rw [List.mem_append, not_or] at h
  have hlookup : folder.files.lookup place = none := by
    rw [List.lookup_eq_none_iff]
    intro entry hentry
    have hne : place ≠ entry.1 := by
      rintro rfl
      exact h.2 (List.mem_map_of_mem hentry)
    simpa using hne
  simp [entryAt, hroot, h.1, hlookup]

theorem directory_iff : folder.entryAt place = .directory ↔
    (place.isEmpty || folder.directories.contains place) = true := by
  unfold entryAt
  split
  · next hd => exact iff_of_true rfl hd
  · next hd => split <;> exact iff_of_false (fun h => nomatch h) hd

theorem entryAt_addDirectory (folder : Folder α) (place other : Place) :
    (folder.addDirectory place).entryAt other =
      if other = place then .directory else folder.entryAt other := by
  by_cases h : other = place
  · simp [entryAt, addDirectory, h]
  · simp [entryAt, addDirectory, h]

theorem entryAt_addFile (h : folder.entryAt place ≠ .directory) (content : α) (other : Place) :
    (folder.addFile place content).entryAt other =
      if other = place then .file content else folder.entryAt other := by
  unfold entryAt addFile
  by_cases hother : other = place
  · subst hother
    have hdirectory : (other.isEmpty || folder.directories.contains other) = false := by
      rw [Bool.eq_false_iff]
      intro hd
      exact h (by simp only [entryAt, hd, if_true])
    dsimp only
    rw [hdirectory]
    simp
  · have hne : (other == place) = false := by simpa using hother
    simp only [List.lookup_cons, hne, lookup_filter_ne hother, hother, if_false]

theorem entryAt_addFile_other {other : Place} (h : other ≠ place) (content : α) :
    (folder.addFile place content).entryAt other = folder.entryAt other := by
  have hne : (other == place) = false := by simpa using h
  simp only [entryAt, addFile, List.lookup_cons, hne, lookup_filter_ne h]

theorem mem_names (h : folder.entryAt (place ++ [name]) ≠ .absent) :
    name ∈ folder.names place := by
  have hlisted : place ++ [name] ∈ folder.directories ++ folder.files.map Prod.fst := by
    rw [List.mem_append]
    by_cases hd : place ++ [name] ∈ folder.directories
    · exact .inl hd
    · refine .inr ?_
      cases hlookup : folder.files.lookup (place ++ [name]) with
      | none => simp [entryAt, hd, hlookup] at h
      | some content =>
        obtain ⟨before, after, hfiles, -⟩ := List.lookup_eq_some_iff.mp hlookup
        simp [hfiles]
  unfold names
  rw [List.mem_filterMap]
  exact ⟨place ++ [name], hlisted, by simp⟩

theorem names_eq_nil
    (h : ∀ name, place ++ [name] ∉ folder.directories ++ folder.files.map Prod.fst) :
    folder.names place = [] := by
  unfold names
  rw [List.filterMap_eq_nil_iff]
  intro other hother
  split
  · next name hlast =>
    rw [if_neg]
    rintro rfl
    obtain ⟨before, rfl⟩ := List.getLast?_eq_some_iff.mp hlast
    rw [List.dropLast_concat] at h
    exact h name hother
  · rfl

theorem names_addDirectory (folder : Folder α) (place directory : Place) (name : String) :
    (folder.addDirectory (place ++ [name])).names directory =
      if place = directory then name :: folder.names directory else folder.names directory := by
  by_cases h : place = directory <;> simp [names, addDirectory, h]

theorem filterMap_filter_ne {f : Place → Option String} (hf : f place = none)
    (files : List (Place × α)) :
    ((files.filter fun entry => entry.1 != place).map Prod.fst).filterMap f =
      (files.map Prod.fst).filterMap f := by
  induction files with
  | nil => rfl
  | cons entry rest ih =>
    by_cases hentry : entry.1 = place
    · simpa [hentry, hf] using ih
    · simp [hentry, List.filterMap_cons, ih]

theorem names_addFile_other {directory : Place} (h : place ≠ directory) (name : String)
    (content : α) :
    (folder.addFile (place ++ [name]) content).names directory = folder.names directory := by
  unfold names addFile
  simp only [List.filterMap_append, List.map_cons]
  rw [List.filterMap_cons_none (by simp [h]), filterMap_filter_ne (by simp [h])]

theorem names_addFile_new (h : folder.entryAt (place ++ [name]) = .absent) (content : α) :
    ((folder.addFile (place ++ [name]) content).names place).Perm (name :: folder.names place) := by
  have hlookup : folder.files.lookup (place ++ [name]) = none := by
    unfold entryAt at h
    split at h
    · cases h
    · split at h
      · cases h
      · next hnone => exact hnone
  have hfilter : folder.files.filter (fun entry => entry.1 != place ++ [name]) = folder.files := by
    rw [List.filter_eq_self]
    intro entry hentry
    rw [List.lookup_eq_none_iff] at hlookup
    simpa using Ne.symm (by simpa using hlookup entry hentry)
  unfold names addFile
  simp only [hfilter, List.filterMap_append, List.map_cons]
  rw [List.filterMap_cons_some (b := name) (by simp)]
  exact List.perm_middle

theorem directory_of_write {content : α} {after : Folder α}
    (hw : folder.write (path.child name) content = .ok after) :
    ∃ place, folder.find path = (place, .directory) := by
  unfold write slot at hw
  rw [Path.parent_child] at hw
  generalize folder.find path = found at hw ⊢
  obtain ⟨place, entry⟩ := found
  cases entry with
  | directory => exact ⟨place, rfl⟩
  | _ =>
    exfalso
    revert hw
    split
    · exact fun hw => nomatch hw
    · split <;> exact fun hw => nomatch hw

theorem write_child {content : α} {after : Folder α}
    (h : folder.find path = (place, .directory))
    (hw : folder.write (path.child name) content = .ok after) :
    name.utf8ByteSize ≤ longestName ∧ (path.child name).isOverlong = false ∧
      folder.entry (path.child name) ≠ .directory ∧
      after = folder.addFile (place ++ [name]) content := by
  have hlast : (path.child name).segments.getLast? = some name := by simp [Path.child]
  unfold write slot at hw
  by_cases hnull : (path.child name).holdsNull = true
  · simp [hnull, bind, Except.bind] at hw
  · by_cases hover : (path.child name).isOverlong = true
    · simp [hnull, hover, bind, Except.bind] at hw
    · by_cases hlong : longestName < name.utf8ByteSize
      · simp [hnull, hover, hlong, h, hlast, bind, Except.bind] at hw
      · simp only [hnull, hover, hlong, h, hlast, Path.parent_child, bind, Except.bind, if_false,
          Bool.false_eq_true] at hw
        split at hw
        · cases hw
        · cases hw
        · next hdirectory _ =>
          exact ⟨Nat.not_lt.mp hlong, Bool.eq_false_iff.mpr hover, hdirectory,
            (Except.ok.inj hw).symm⟩

theorem slot_child (h : folder.find path = (place, .directory))
    (hlong : name.utf8ByteSize ≤ longestName) (hover : (path.child name).isOverlong = false)
    (hnull : (path.child name).holdsNull = false) :
    folder.slot (path.child name) = .ok (place ++ [name]) := by
  have hlast : (path.child name).segments.getLast? = some name := by simp [Path.child]
  have hlong' : ¬ longestName < name.utf8ByteSize := Nat.not_lt.mpr hlong
  simp [slot, hnull, hover, h, hlast, hlong']

theorem makeDirectory_child (h : folder.find path = (place, .directory)) (hname : IsPlainName name)
    (hover : (path.child name).isOverlong = false) :
    folder.makeDirectory (path.child name) = .error .exists ∨
      folder.entryAt (place ++ [name]) = .absent ∧
        folder.makeDirectory (path.child name) = .ok (folder.addDirectory (place ++ [name])) := by
  have hnull : (path.child name).holdsNull = false := by
    rw [Path.holdsNull_child, (find_of_directory h).2.1, hname.whole]
    rfl
  have hlast : (path.child name).segments.getLast? = some name := by simp [Path.child]
  unfold makeDirectory
  rw [slot_child h hname.short hover hnull, hlast]
  dsimp only [bind, Except.bind]
  split
  · next hup => exact absurd (Option.some.inj hup) hname.not_up
  · next habsent _ => exact .inr ⟨habsent, rfl⟩
  · exact .inl rfl

theorem makeDirectory_found (h : folder.find path = (place, .directory)) :
    folder.makeDirectory path = .error .exists := by
  obtain ⟨hover, hnull, hslashes, hfollow⟩ := find_of_directory h
  rcases List.eq_nil_or_concat path.segments with hempty | ⟨segments, name, hsegments⟩
  · have hparent : path.parent = path := by
      obtain ⟨slashes, segments⟩ := path
      obtain rfl : segments = [] := hempty
      rfl
    simp [makeDirectory, slot, hnull, hover, hparent, h, hempty, bind, Except.bind]
  · obtain ⟨above, rfl⟩ : ∃ above : Path, path = above.child name := by
      refine ⟨{ path with segments }, ?_⟩
      rw [Path.child, ← List.concat_eq_append, ← hsegments]
    have hfound : ¬ Lost (folder.find (above.child name)).2 := by simp [h, Lost]
    obtain ⟨up, hup⟩ := find_parent hfound
    obtain ⟨hplace, hnext⟩ := follow_append (find_of_directory hup).2.2.2
    have hstep : folder.follow up [name] = (place, .directory) := (hnext name).symm.trans hfollow
    have hlast : (above.child name).segments.getLast? = some name := by simp [Path.child]
    have hlong : ¬ longestName < name.utf8ByteSize ∧
        (name ≠ ".." → folder.entryAt (up ++ [name]) = .directory) := by
      by_cases hdots : name = ".."
      · exact ⟨by rw [hdots]; decide, fun hne => absurd hdots hne⟩
      · by_cases hlong : longestName < name.utf8ByteSize
        · simp [follow, hplace, hdots, hlong] at hstep
        · simp only [follow, hplace, hdots, hlong, if_false, Prod.mk.injEq] at hstep
          exact ⟨hlong, fun _ => hstep.2⟩
    unfold makeDirectory
    rw [slot_child hup (Nat.not_lt.mp hlong.1) hover hnull, hlast]
    dsimp only [bind, Except.bind]
    split
    · rfl
    · next habsent hdots =>
      rw [hlong.2 fun hname => hdots (congrArg some hname)] at habsent
      cases habsent
    · rfl

theorem isDirectory_found (h : folder.find path = (place, .directory)) :
    folder.isDirectory path = true := by
  simp [isDirectory, entry, h]

theorem entryAt_of_find (h : folder.find path = (place, .directory)) :
    folder.entryAt place = .directory :=
  (follow_append (find_of_directory h).2.2.2).1

theorem slot_eq_ok {slot : Place} (h : folder.slot path = .ok slot) :
    ∃ place name, folder.find path.parent = (place, .directory) ∧
      path.segments.getLast? = some name ∧ slot = place ++ [name] ∧
      name.utf8ByteSize ≤ longestName ∧ path.isOverlong = false ∧ path.holdsNull = false := by
  unfold Folder.slot at h
  split at h
  · cases h
  · next hnull =>
    split at h
    · cases h
    · next hover =>
      split at h
      · next place hparent =>
        split at h
        · next name hlast =>
          split at h
          · cases h
          · next hlong =>
            cases h
            exact ⟨place, name, hparent, hlast, rfl, Nat.not_lt.mp hlong,
              Bool.eq_false_iff.mpr hover, Bool.eq_false_iff.mpr hnull⟩
        · cases h
      all_goals cases h

theorem makeDirectory_eq_ok {after : Folder α} (h : folder.makeDirectory path = .ok after) :
    ∃ place name, folder.find path.parent = (place, .directory) ∧
      path.segments.getLast? = some name ∧ folder.entryAt (place ++ [name]) = .absent ∧
      after = folder.addDirectory (place ++ [name]) := by
  unfold makeDirectory at h
  cases hslot : folder.slot path with
  | error cause =>
    rw [hslot] at h
    cases h
  | ok slot =>
    obtain ⟨place, name, hparent, hlast, rfl, -⟩ := slot_eq_ok hslot
    rw [hslot] at h
    simp only [bind, Except.bind] at h
    split at h
    · cases h
    · next habsent _ =>
      cases h
      exact ⟨place, name, hparent, hlast, habsent, rfl⟩
    · cases h

end Folder

namespace FolderTask

variable {α : Type} {folder after : Folder α} {path : Path} {place : Place} {name : String}

theorem run_write {content : α} (h : (write path content).run.run folder = (.ok (), after)) :
    folder.write path content = .ok after := by
  unfold write change at h
  rw [run_get_bind] at h
  dsimp only at h
  cases hw : folder.write path content with
  | ok changed =>
    rw [hw] at h
    cases h
    rfl
  | error cause =>
    rw [hw] at h
    cases h

theorem run_found {there : Bool} (h : (found path).run.run folder = (.ok there, after)) :
    after = folder := by
  unfold found at h
  rw [run_get_bind] at h
  split at h <;> cases h
  rfl

theorem run_found_of {there : Bool} (h : (folder.entry path).found = .ok there) :
    (found path).run.run folder = (.ok there, folder) := by
  unfold found
  rw [run_get_bind, h]
  rfl

theorem run_read_of {content : α} (h : folder.content path = .ok content) :
    (read path).run.run folder = (.ok content, folder) := by
  unfold read
  rw [run_get_bind, h]
  rfl

theorem run_write_of {content : α} (h : folder.write path content = .ok after) :
    (write path content).run.run folder = (.ok (), after) := by
  unfold write change
  rw [run_get_bind]
  dsimp only
  rw [h]
  rfl

theorem run_read {content : α} (h : (read path).run.run folder = (.ok content, after)) :
    after = folder := by
  unfold read at h
  rw [run_get_bind] at h
  split at h <;> cases h
  rfl

theorem run_ensureDirectory_found (h : folder.find path = (place, .directory)) :
    (ensureDirectory path).run.run folder = (.ok (), folder) := by
  unfold ensureDirectory
  rw [run_get_bind, Folder.makeDirectory_found h]
  dsimp only
  rw [run_get_bind, Folder.isDirectory_found h]
  rfl

theorem run_ensureDirectories_found (h : folder.find path = (place, .directory)) :
    (ensureDirectories path).run.run folder = (.ok (), folder) := by
  have hslashes := (Folder.find_of_directory h).2.2.1
  unfold ensureDirectories
  cases hsegments : path.segments.reverse with
  | nil => rfl
  | cons name above =>
    have hpath : (⟨0, (name :: above).reverse⟩ : Path) = path := by
      rw [← hsegments, List.reverse_reverse, ← hslashes]
    unfold ensureWay
    dsimp only
    rw [hpath, run_get_bind, Folder.makeDirectory_found h]
    exact run_ensureDirectory_found h

/-- The last directory of a way is made if it is not there. -/
theorem run_ensureDirectories_child (h : folder.find path = (place, .directory))
    (hname : IsPlainName name) (hover : (path.child name).isOverlong = false)
    (hrun : (ensureDirectories (path.child name)).run.run folder = (.ok (), after)) :
    folder.entryAt (place ++ [name]) = .directory ∧ after = folder ∨
      folder.entryAt (place ++ [name]) = .absent ∧
        after = folder.addDirectory (place ++ [name]) := by
  have hslashes := (Folder.find_of_directory h).2.2.1
  have hsegments : (path.child name).segments.reverse = name :: path.segments.reverse := by
    simp [Path.child]
  have hpath : (⟨0, (name :: path.segments.reverse).reverse⟩ : Path) = path.child name := by
    simp [Path.child, hslashes]
  unfold ensureDirectories at hrun
  rw [hsegments] at hrun
  unfold ensureWay at hrun
  dsimp only at hrun
  rw [hpath, run_get_bind] at hrun
  rcases Folder.makeDirectory_child h hname hover with hmake | ⟨habsent, hmake⟩
  · rw [hmake] at hrun
    unfold ensureDirectory at hrun
    dsimp only at hrun
    rw [run_get_bind, hmake] at hrun
    dsimp only at hrun
    rw [run_get_bind] at hrun
    have hentry : folder.entry (path.child name) = folder.entryAt (place ++ [name]) := by
      rw [Folder.entry, Folder.find_child h hname hover]
    rw [Folder.isDirectory, hentry] at hrun
    split at hrun
    · next hd =>
      rw [if_pos rfl] at hrun
      cases hrun
      exact .inl ⟨hd, rfl⟩
    · next hout => exact absurd hout (folder.entryAt_ne_outside _)
    · rw [if_neg Bool.false_ne_true] at hrun
      cases hrun
  · rw [hmake] at hrun
    unfold ensureDirectory at hrun
    dsimp only at hrun
    rw [run_get_bind, hmake] at hrun
    cases hrun
    exact .inr ⟨habsent, rfl⟩

end FolderTask

end StepWorld
