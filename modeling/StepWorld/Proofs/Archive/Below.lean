import StepWorld.Proofs.Archive.Trees

/-! What stands below a place while a folder changes elsewhere. A path that never leads up leads to
the place that it spells, so that what is made, written or deleted there can be told apart from what
stands below another place. And whatever is done, a folder stays a tree. -/

namespace StepWorld

/-- A path that leads down from the root, name by name. -/
structure Path.IsStraight (p : Path) : Prop where
  relative : p.slashes = 0
  forward : ".." ∉ p.segments

theorem Path.IsStraight.child {p : Path} {name : String} (h : p.IsStraight) (hname : name ≠ "..") :
    (p.child name).IsStraight :=
  ⟨h.relative, by simp [Path.child, h.forward, hname.symm]⟩

namespace Folder

variable {α : Type} {f g h : Folder α} {path : Path} {place start home other : Place}
  {names : List String} {name : String} {content : α} {x : Entry α}

/-- Names that do not lead up lead to the place that they spell, or nowhere. -/
theorem follow_forward (hup : ".." ∉ names) (hfound : ¬ Lost (f.follow start names).2) :
    f.follow start names = (start ++ names, f.entryAt (start ++ names)) ∧
      ∀ name ∈ names, name.utf8ByteSize ≤ longestName := by
  induction names generalizing start with
  | nil => simp [follow]
  | cons first rest ih =>
    rw [List.mem_cons, not_or] at hup
    have hfirst : first ≠ ".." := Ne.symm hup.1
    cases hstart : f.entryAt start with
    | directory =>
      by_cases hlong : longestName < first.utf8ByteSize
      · simp [follow, hstart, hfirst, hlong, Lost] at hfound
      · simp only [follow, hstart, hfirst, hlong, if_false] at hfound ⊢
        obtain ⟨hrest, hshort⟩ := ih hup.2 hfound
        rw [hrest, ← List.append_cons]
        exact ⟨rfl, List.forall_mem_cons.mpr ⟨Nat.not_lt.mp hlong, hshort⟩⟩
    | _ => simp [follow, hstart, Lost] at hfound

theorem find_straight (hp : path.IsStraight) (hfound : ¬ Lost (f.find path).2) :
    path.IsPlain ∧ f.find path = (path.segments, f.entryAt path.segments) := by
  unfold find at hfound ⊢
  by_cases hover : path.isOverlong = true
  · simp [hover, Lost] at hfound
  · by_cases hnull : path.holdsNull = true
    · simp [hover, hnull, Lost] at hfound
    · simp only [hover, hnull, hp.relative, Bool.false_eq_true, if_false, if_true] at hfound ⊢
      obtain ⟨hfollow, hshort⟩ := follow_forward hp.forward hfound
      rw [Bool.not_eq_true, Path.holdsNull, List.any_eq_false] at hnull
      refine ⟨⟨hp.relative, fun name hname => ⟨?_, hshort name hname, ?_⟩,
        Bool.eq_false_iff.mpr hover⟩, hfollow⟩
      · rintro rfl
        exact hp.forward hname
      · exact Bool.eq_false_iff.mpr (hnull name hname)

theorem place_of_directory (hp : path.IsStraight) (h : f.find path = (place, .directory)) :
    place = path.segments := by
  have hplace := (find_straight hp (by rw [h]; exact not_lost_directory)).2
  rw [h, Prod.mk.injEq] at hplace
  exact hplace.1

theorem IsTree.find_entry (h : f.IsTree) (hplain : path.IsPlain)
    (hpath : f.entryAt path.segments ≠ .absent) :
    f.find path = (path.segments, f.entryAt path.segments) := by
  rcases List.eq_nil_or_concat path.segments with hempty | ⟨above, name, hsegments⟩
  · rw [find_plain hplain, hempty]
    rfl
  · obtain ⟨parent, rfl⟩ : ∃ parent : Path, path = parent.child name := by
      refine ⟨{ path with segments := above }, ?_⟩
      rw [Path.child, ← List.concat_eq_append, ← hsegments]
    have hparent := h.directory_before [name] (List.cons_ne_nil _ _) hpath
    exact find_child (h.find_directory hplain.parent hparent) hplain.last hplain.short

theorem IsTree.find_iff (h : f.IsTree) (hp : path.IsStraight) (hx : ¬ Lost x) :
    f.find path = (place, x) ↔
      path.IsPlain ∧ place = path.segments ∧ f.entryAt path.segments = x := by
  constructor
  · intro hfind
    obtain ⟨hplain, hplace⟩ := find_straight hp (by rwa [hfind])
    rw [hfind, Prod.mk.injEq] at hplace
    exact ⟨hplain, hplace.1, hplace.2.symm⟩
  · rintro ⟨hplain, rfl, rfl⟩
    exact h.find_entry hplain fun habsent => hx (by simp [habsent, Lost])

/-! ### Below a place -/

structure SameBelow (home : Place) (f g : Folder α) : Prop where
  entries : ∀ place, home <+: place → g.entryAt place = f.entryAt place
  names : ∀ place, home <+: place → g.names place = f.names place

namespace SameBelow

theorem refl (f : Folder α) : SameBelow home f f := ⟨fun _ _ => rfl, fun _ _ => rfl⟩

theorem symm (h : SameBelow home f g) : SameBelow home g f where
  entries place hbelow := (h.entries place hbelow).symm
  names place hbelow := (h.names place hbelow).symm

theorem trans (hfg : SameBelow home f g) (hgh : SameBelow home g h) : SameBelow home f h where
  entries place hbelow := (hgh.entries place hbelow).trans (hfg.entries place hbelow)
  names place hbelow := (hgh.names place hbelow).trans (hfg.names place hbelow)

instance : Std.Refl (SameBelow (α := α) home) := ⟨refl⟩

instance : Trans (SameBelow (α := α) home) (SameBelow home) (SameBelow home) := ⟨trans⟩

theorem addDirectory (hhome : ¬ home <+: place ++ [name]) :
    SameBelow home f (f.addDirectory (place ++ [name])) where
  entries other hbelow := by
    rw [entryAt_addDirectory, if_neg]
    rintro rfl
    exact hhome hbelow
  names other hbelow := by
    rw [names_addDirectory, if_neg]
    rintro rfl
    exact hhome (hbelow.trans (List.prefix_append _ _))

theorem addFile (hhome : ¬ home <+: place ++ [name]) (content : α) :
    SameBelow home f (f.addFile (place ++ [name]) content) where
  entries other hbelow := by
    rw [entryAt_addFile_other]
    rintro rfl
    exact hhome hbelow
  names other hbelow := by
    rw [names_addFile_other]
    rintro rfl
    exact hhome (hbelow.trans (List.prefix_append _ _))

theorem of_filter {keep keep' : Place → Bool} (hkeep : ∀ other, home <+: other → keep other = true)
    (hkeep' : ∀ other, home <+: other → keep' other = true) :
    SameBelow home f ⟨f.directories.filter keep, f.files.filter fun entry => keep' entry.1⟩ where
  entries other hbelow := by
    have hlookup := lookup_filter keep' f.files other
    rw [if_pos (hkeep' other hbelow)] at hlookup
    simp only [entryAt, hlookup, List.contains_eq_mem, List.mem_filter, hkeep other hbelow,
      and_true]
  names directory hbelow := by
    -- A name in a directory comes from a place below it, and no such place is thrown out.
    have hsame {keep : Place → Bool} (hkeep : ∀ other, home <+: other → keep other = true)
        (places : List Place) :
        (⟨places.filter keep, []⟩ : Folder α).names directory =
          (⟨places, []⟩ : Folder α).names directory := by
      simp only [Folder.names, List.map_nil, List.append_nil, List.filterMap_filter]
      refine List.filterMap_congr fun other _ => ?_
      by_cases hkept : keep other = true
      · rw [if_pos hkept]
      · rw [if_neg hkept]
        split
        · rw [if_neg]
          rintro rfl
          exact hkept (hkeep other (hbelow.trans (List.dropLast_prefix other)))
        · rfl
    have hfiles : (f.files.filter fun entry => keep' entry.1).map Prod.fst =
        (f.files.map Prod.fst).filter keep' := by
      rw [List.filter_map]
      rfl
    have hdirectories := hsame hkeep f.directories
    have hentries := hsame hkeep' (f.files.map Prod.fst)
    simp only [Folder.names, List.map_nil, List.append_nil] at hdirectories hentries
    simp only [Folder.names, hfiles, List.filterMap_append, hdirectories, hentries]

theorem kept_of_apart (hhome : ¬ home <+: place) (hplace : ¬ place <+: home)
    (hbelow : home <+: other) : (!place.isPrefixOf other) = true := by
  rw [Bool.not_eq_true', Bool.eq_false_iff]
  intro hleads
  rcases List.prefix_or_prefix_of_prefix hbelow (List.isPrefixOf_iff_prefix.mp hleads) with h | h
  · exact hhome h
  · exact hplace h

theorem remove (hhome : ¬ home <+: place) (hplace : ¬ place <+: home) :
    SameBelow home f (f.remove place) :=
  of_filter (fun _ => kept_of_apart hhome hplace) fun _ => kept_of_apart hhome hplace

theorem clearBelow (hhome : ¬ home <+: place) (hplace : ¬ place <+: home) :
    SameBelow home f (f.clearBelow place) :=
  of_filter (fun _ hbelow => Bool.or_eq_true_iff.mpr (.inr (kept_of_apart hhome hplace hbelow)))
    fun _ => kept_of_apart hhome hplace

end SameBelow

/-! ### Trees -/

def TreeStays (f g : Folder α) : Prop := f.IsTree → g.IsTree

instance : Std.Refl (TreeStays (α := α)) := ⟨fun _ h => h⟩

instance : Trans (TreeStays (α := α)) TreeStays TreeStays := ⟨fun hfg hgh h => hgh (hfg h)⟩

theorem slot_of_write (hw : f.write path content = .ok g) :
    (∃ slot, f.slot path = .ok slot) ∧ f.isDirectory path = false := by
  unfold Folder.write at hw
  cases hslot : f.slot path with
  | error cause =>
    rw [hslot] at hw
    cases hw
  | ok slot =>
    refine ⟨⟨slot, rfl⟩, ?_⟩
    rw [hslot] at hw
    unfold isDirectory
    simp only [bind, Except.bind] at hw
    split at hw
    · cases hw
    · cases hw
    · rfl

namespace IsTree

theorem makeDirectory (h : f.IsTree) (hm : f.makeDirectory path = .ok g) : g.IsTree := by
  obtain ⟨place, name, hparent, -, habsent, rfl⟩ := makeDirectory_eq_ok hm
  exact h.addDirectory (entryAt_of_find hparent) habsent

/-- Where a directory stands the path leads to one. -/
theorem isDirectory_child (h : f.IsTree) (hparent : f.find path = (place, .directory))
    (hlong : name.utf8ByteSize ≤ longestName) (hover : (path.child name).isOverlong = false)
    (hnull : (path.child name).holdsNull = false)
    (hend : f.entryAt (place ++ [name]) = .directory) :
    f.isDirectory (path.child name) = true := by
  have hplace := entryAt_of_find hparent
  have hfollow := (follow_append (find_of_directory hparent).2.2.2).2 name
  have hfind : f.find (path.child name) = f.follow place [name] := by
    have hslashes : (path.child name).slashes = 0 := (find_of_directory hparent).2.2.1
    have hsegments : (path.child name).segments = path.segments ++ [name] := rfl
    simp [find, hover, hnull, hslashes, hsegments, hfollow]
  -- Two dots lead to a directory, or out of the folder.
  unfold isDirectory entry
  rw [hfind]
  by_cases hup : name = ".."
  · by_cases hroot : place = []
    · simp [follow, entryAt_nil, hup, hroot, Entry.beyond]
    · have habove := h.directory_above (List.dropLast_prefix place) hplace
      simp [follow, hplace, hup, hroot, habove]
  · simp [follow, hplace, hup, Nat.not_lt.mpr hlong, hend]

/-- No file is written where a directory stands. -/
theorem write (h : f.IsTree) (hw : f.write path content = .ok g) : g.IsTree := by
  obtain ⟨⟨slot, hslot⟩, hfree⟩ := slot_of_write hw
  obtain ⟨place, name, hparent, hlast, rfl, hlong, hover, hnull⟩ := slot_eq_ok hslot
  obtain ⟨parent, rfl⟩ : ∃ parent : Path, path = parent.child name := by
    obtain ⟨above, habove⟩ := List.getLast?_eq_some_iff.mp hlast
    refine ⟨{ path with segments := above }, ?_⟩
    rw [Path.child, ← habove]
  rw [Path.parent_child] at hparent
  obtain ⟨-, -, -, hadded⟩ := write_child hparent hw
  rw [hadded]
  refine h.addFile (entryAt_of_find hparent) (fun hend => ?_) content
  rw [h.isDirectory_child hparent hlong hover hnull hend] at hfree
  cases hfree

theorem entryAt_clearBelow (hplace : f.entryAt place = .directory) (other : Place) :
    (f.clearBelow place).entryAt other =
      if other = place then .directory
      else if place <+: other then .absent else f.entryAt other := by
  by_cases hsame : other = place
  · rw [if_pos hsame, hsame]
    exact directory_clearBelow (List.prefix_refl _) hplace
  · rw [if_neg hsame]
    by_cases hbelow : place <+: other
    · have hroot : other ≠ [] := by
        rintro rfl
        exact hsame (List.prefix_nil.mp hbelow).symm
      have hleads := List.isPrefixOf_iff_prefix.mpr hbelow
      rw [if_pos hbelow]
      exact entryAt_unlisted hroot (by simp [Folder.clearBelow, hleads, hsame])
    · rw [if_neg hbelow]
      have hkept : place.isPrefixOf other = false := by
        rw [Bool.eq_false_iff]
        exact fun hleads => hbelow (List.isPrefixOf_iff_prefix.mp hleads)
      have hlookup := lookup_filter (fun key => !place.isPrefixOf key) f.files other
      simp only [hkept, Bool.not_false, if_true] at hlookup
      unfold entryAt Folder.clearBelow
      simp [hlookup, hkept]

theorem clearBelow (h : f.IsTree) (hplace : f.entryAt place = .directory) :
    (f.clearBelow place).IsTree where
  apart := h.apart.sublist (List.filter_sublist.append (List.filter_sublist.map _))
  parents before last hlast := by
    rw [entryAt_clearBelow hplace] at hlast ⊢
    split at hlast
    · next heq =>
      have habove : before <+: place := heq ▸ List.prefix_append _ _
      have hshort : ¬ place <+: before := fun hbelow => by
        have hlength := hbelow.length_le
        rw [← heq, List.length_append, List.length_singleton] at hlength
        omega
      rw [if_neg hshort, h.directory_above habove hplace, ite_self]
    · split at hlast
      · exact absurd rfl hlast
      · next hbelow =>
        have hbefore : ¬ place <+: before := fun hbefore =>
          hbelow (hbefore.trans (List.prefix_append _ _))
        rw [if_neg hbefore, h.parents before last hlast, ite_self]

end IsTree

end Folder

/-! ### Tasks -/

namespace FolderTask

variable {α : Type} {path : Path} {home : Place} {names : List String} {name : String}

theorem same_ensureDirectory (hp : path.IsStraight) (hhome : ¬ home <+: path.segments) :
    Moves (Folder.SameBelow (α := α) home) (ensureDirectory path) := by
  refine .of_get_bind fun f => ?_
  cases hmake : f.makeDirectory path with
  | ok g =>
    obtain ⟨place, name, hparent, hlast, -, rfl⟩ := Folder.makeDirectory_eq_ok hmake
    obtain ⟨above, habove⟩ := List.getLast?_eq_some_iff.mp hlast
    have hplace : place = above := by
      have hup : path.parent.IsStraight :=
        ⟨hp.relative, fun hmem => hp.forward (List.dropLast_subset _ hmem)⟩
      rw [Folder.place_of_directory hup hparent, Path.parent, habove, List.dropLast_concat]
    exact .addDirectory (by rwa [hplace, ← habove])
  | error cause => exact Moves.of_bind .of_get (fun g => .of_ite (.of_pure _) (.of_throw _)) f

theorem same_ensureWay (hup : ".." ∉ names) (hhome : ¬ home <+: names.reverse) :
    Moves (Folder.SameBelow (α := α) home) (ensureWay names) := by
  induction names with
  | nil => exact .of_pure _
  | cons name above ih =>
    have hlast : Moves (Folder.SameBelow (α := α) home)
        (ensureDirectory ⟨0, (name :: above).reverse⟩) :=
      same_ensureDirectory ⟨rfl, by rwa [List.mem_reverse]⟩ hhome
    refine .of_bind .of_get fun f => ?_
    split
    · refine .of_bind (ih (fun hmem => hup (List.mem_cons_of_mem _ hmem)) fun habove => ?_)
        fun _ => hlast
      rw [List.reverse_cons] at hhome
      exact hhome (habove.trans (List.prefix_append _ _))
    · exact hlast

theorem same_ensureDirectories (hp : path.IsStraight) (hhome : ¬ home <+: path.segments) :
    Moves (Folder.SameBelow (α := α) home) (ensureDirectories path) :=
  same_ensureWay (by rw [List.mem_reverse]; exact hp.forward) (by rwa [List.reverse_reverse])

theorem same_write (hp : path.IsStraight) (hhome : ¬ home <+: path.segments ++ [name])
    (content : α) : Moves (Folder.SameBelow home) (write (path.child name) content) := by
  refine .of_get_bind fun f => ?_
  dsimp only
  cases hw : f.write (path.child name) content with
  | error cause => exact .refl f
  | ok g =>
    obtain ⟨place, hplace⟩ := Folder.directory_of_write hw
    obtain ⟨-, -, -, rfl⟩ := Folder.write_child hplace hw
    exact .addFile (by rwa [Folder.place_of_directory hp hplace]) content

theorem stays_ensureDirectory (path : Path) :
    Moves (Folder.TreeStays (α := α)) (ensureDirectory path) := by
  refine .of_get_bind fun f => ?_
  cases hmake : f.makeDirectory path with
  | ok g => exact fun h => h.makeDirectory hmake
  | error cause => exact Moves.of_bind .of_get (fun g => .of_ite (.of_pure _) (.of_throw _)) f

theorem stays_ensureDirectories (path : Path) :
    Moves (Folder.TreeStays (α := α)) (ensureDirectories path) := by
  have hway (names : List String) : Moves (Folder.TreeStays (α := α)) (ensureWay names) := by
    induction names with
    | nil => exact .of_pure _
    | cons name above ih =>
      refine .of_bind .of_get fun f => ?_
      split
      · exact .of_bind ih fun _ => stays_ensureDirectory _
      · exact stays_ensureDirectory _
  exact hway _

theorem stays_write (path : Path) (content : α) :
    Moves Folder.TreeStays (write path content) := by
  refine .of_get_bind fun f => ?_
  dsimp only
  cases hw : f.write path content with
  | error cause => exact id
  | ok g => exact fun h => h.write hw

theorem stays_deleteTree (path : Path) : Moves (Folder.TreeStays (α := α)) (deleteTree path) := by
  refine .of_get_bind fun f => ?_
  split
  · next place hfind =>
    have hclear : Folder.TreeStays f (f.clearBelow place) :=
      fun h => h.clearBelow (Folder.entryAt_of_find hfind)
    exact Moves.bind_at hclear fun _ => .of_bind .of_get fun g =>
      .of_ite (.of_modify fun g h => h.remove place) (.of_throw _)
  · exact id
  · exact id

end FolderTask

end StepWorld
