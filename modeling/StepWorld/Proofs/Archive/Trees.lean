import Mathlib.Data.List.Induction
import Mathlib.Data.List.Nodup
import StepWorld.Proofs.Archive.Folders

/-! Folders as trees, in which everything stands in a directory. A path of plain names leads to the
place that it spells, and what is made, written or deleted there changes that place alone, or what
lies below it. -/

namespace StepWorld

structure Path.IsPlain (p : Path) : Prop where
  relative : p.slashes = 0
  names : ∀ name ∈ p.segments, IsPlainName name
  short : p.isOverlong = false

namespace Path.IsPlain

variable {p : Path} {name : String}

theorem holdsNull (h : p.IsPlain) : p.holdsNull = false := by
  rw [Path.holdsNull, List.any_eq_false]
  intro name hname
  simpa using (h.names name hname).whole

theorem last (h : (p.child name).IsPlain) : IsPlainName name :=
  h.names name (by simp [Path.child])

theorem parent (h : (p.child name).IsPlain) : p.IsPlain where
  relative := h.relative
  names other hother := h.names other (by simp [Path.child, hother])
  short := Path.isOverlong_of_child h.short

end Path.IsPlain

namespace Path

variable {p : Path} {name : String}

theorem utf8ByteSize_child (p : Path) (name : String) :
    (p.child name).toString.utf8ByteSize ≤ p.toString.utf8ByteSize + 1 + name.utf8ByteSize := by
  have hslash : "/".utf8ByteSize = 1 := by decide
  by_cases hempty : p.segments = []
  · by_cases hslashes : p.slashes = 0
    · simp [toString, child, hempty, hslashes]
    · simp [toString, child, hempty, hslashes, String.utf8ByteSize_append]
  · simp [toString, child, hempty,
      String.intercalate_append_of_ne_nil hempty (List.cons_ne_nil name []),
      String.utf8ByteSize_append, hslash]
    omega

theorem IsPlain.child (h : p.IsPlain) (hname : IsPlainName name)
    (hshort : p.toString.utf8ByteSize + 1 + name.utf8ByteSize ≤ longestPath) :
    (p.child name).IsPlain where
  relative := h.relative
  names other hother := by
    rcases List.mem_append.mp hother with hother | hother
    · exact h.names other hother
    · rwa [List.mem_singleton.mp hother]
  short := by
    have hsize := p.utf8ByteSize_child name
    simp only [isOverlong, decide_eq_false_iff_not]
    omega

end Path

namespace Folder

variable {α : Type} {f g : Folder α} {path : Path} {place start other : Place} {names : List String}
  {name : String} {content : α}

/-- Everything stands in a directory, and nothing stands anywhere twice. -/
structure IsTree (f : Folder α) : Prop where
  apart : (f.directories ++ f.files.map Prod.fst).Nodup
  parents : ∀ place name, f.entryAt (place ++ [name]) ≠ .absent → f.entryAt place = .directory

def IsClear (f : Folder α) (place : Place) : Prop :=
  ∀ before, before <+: place → ∀ content, f.entryAt before ≠ .file content

theorem IsClear.parent (h : f.IsClear (place ++ [name])) : f.IsClear place :=
  fun before hbefore => h before (hbefore.trans (List.prefix_append _ _))

theorem entryAt_nil (f : Folder α) : f.entryAt [] = .directory := rfl

theorem entryAt_cases (f : Folder α) (place : Place) : f.entryAt place = .directory ∨
    (∃ content, f.entryAt place = .file content) ∨ f.entryAt place = .absent := by
  unfold entryAt
  split
  · exact .inl rfl
  · split
    · exact .inr (.inl ⟨_, rfl⟩)
    · exact .inr (.inr rfl)

theorem isTree_empty : (empty : Folder α).IsTree where
  apart := List.nodup_nil
  parents place name h := absurd (entryAt_unlisted (by simp) (by simp [empty])) h

theorem entryAt_empty (h : place ≠ []) : (empty : Folder α).entryAt place = .absent :=
  entryAt_unlisted h (by simp [empty])

theorem unlisted_of_absent (h : f.entryAt place = .absent) :
    place ∉ f.directories ++ f.files.map Prod.fst := by
  unfold entryAt at h
  split at h
  · cases h
  · next hroot =>
    split at h
    · cases h
    · next hlookup =>
      rw [List.mem_append, not_or]
      constructor
      · intro hlisted
        exact hroot (by simp [hlisted])
      · intro hlisted
        obtain ⟨entry, hentry, rfl⟩ := List.mem_map.mp hlisted
        have hne := List.lookup_eq_none_iff.mp hlookup entry hentry
        simp at hne

theorem listed_of_mem_names (h : name ∈ f.names place) :
    place ++ [name] ∈ f.directories ++ f.files.map Prod.fst := by
  obtain ⟨other, hother, hlast⟩ := List.mem_filterMap.mp h
  split at hlast
  · next last heq =>
    obtain ⟨before, rfl⟩ := List.getLast?_eq_some_iff.mp heq
    rw [List.dropLast_concat] at hlast
    split at hlast
    · next hbefore =>
      cases hlast
      exact hbefore ▸ hother
    · cases hlast
  · cases hlast

theorem mem_names_iff : name ∈ f.names place ↔ f.entryAt (place ++ [name]) ≠ .absent :=
  ⟨fun hname habsent => unlisted_of_absent habsent (listed_of_mem_names hname), mem_names⟩

theorem follow_directories (hnames : ∀ name ∈ names, IsPlainName name)
    (hway : ∀ before, before <+: start ++ names → f.entryAt before = .directory) :
    f.follow start names = (start ++ names, .directory) := by
  induction names generalizing start with
  | nil => simpa [follow] using hway start
  | cons first rest ih =>
    have hfirst := hnames first List.mem_cons_self
    have hlong : ¬ longestName < first.utf8ByteSize := Nat.not_lt.mpr hfirst.short
    have hstart := hway start (List.prefix_append _ _)
    simp only [follow, hstart, hfirst.not_up, hlong, if_false]
    rw [show start ++ first :: rest = start ++ [first] ++ rest from List.append_cons ..] at hway ⊢
    exact ih (fun name hname => hnames name (List.mem_cons_of_mem _ hname)) hway

theorem find_plain (hplain : path.IsPlain) : f.find path = f.follow [] path.segments := by
  simp [find, hplain.short, hplain.holdsNull, hplain.relative]

theorem find_directories (hplain : path.IsPlain)
    (hway : ∀ before, before <+: path.segments → f.entryAt before = .directory) :
    f.find path = (path.segments, .directory) := by
  rw [find_plain hplain]
  exact follow_directories hplain.names hway

theorem follow_absent (hclear : f.IsClear (start ++ names))
    (hnames : ∀ name ∈ names, IsPlainName name) (hend : f.entryAt (start ++ names) = .absent) :
    ∃ place, f.follow start names = (place, .absent) := by
  induction names generalizing start with
  | nil => exact ⟨start, by simpa [follow] using hend⟩
  | cons first rest ih =>
    have hfirst := hnames first List.mem_cons_self
    have hlong : ¬ longestName < first.utf8ByteSize := Nat.not_lt.mpr hfirst.short
    rcases f.entryAt_cases start with hstart | ⟨content, hstart⟩ | hstart
    · simp only [follow, hstart, hfirst.not_up, hlong, if_false]
      rw [List.append_cons] at hclear hend
      exact ih hclear (fun name hname => hnames name (List.mem_cons_of_mem _ hname)) hend
    · exact absurd hstart (hclear start (List.prefix_append _ _) content)
    · exact ⟨start, by simp [follow, hstart]⟩

theorem find_absent (hplain : path.IsPlain) (hclear : f.IsClear path.segments)
    (hpath : f.entryAt path.segments = .absent) : ∃ place, f.find path = (place, .absent) := by
  rw [find_plain hplain]
  exact follow_absent hclear hplain.names hpath

namespace IsTree

theorem nodup_names (h : f.IsTree) (place : Place) : (f.names place).Nodup := by
  refine List.Nodup.filterMap (fun first second name hfirst hsecond => ?_) h.apart
  -- What a name comes from stands alone in a folder of its own.
  have hlast (other : Place) (hother : name ∈ (⟨[other], []⟩ : Folder α).names place) :
      other = place ++ [name] := by
    have hlisted := listed_of_mem_names hother
    rw [List.map_nil, List.append_nil, List.mem_singleton] at hlisted
    exact hlisted.symm
  have hfirst' := hlast first (List.mem_filterMap.mpr ⟨first, List.mem_singleton_self _, hfirst⟩)
  have hsecond' := hlast second (List.mem_filterMap.mpr ⟨second, List.mem_singleton_self _, hsecond⟩)
  exact hfirst'.trans hsecond'.symm

theorem directory_before (h : f.IsTree) (rest : Place) (hrest : rest ≠ [])
    (hplace : f.entryAt (place ++ rest) ≠ .absent) : f.entryAt place = .directory := by
  induction rest using List.reverseRecOn with
  | nil => exact absurd rfl hrest
  | append_singleton init last ih =>
    rw [← List.append_assoc] at hplace
    have hinit := h.parents _ _ hplace
    by_cases hempty : init = []
    · simpa [hempty] using hinit
    · exact ih hempty (by simp [hinit])

theorem absent_below (h : f.IsTree) (rest : Place) (hplace : f.entryAt place = .absent) :
    f.entryAt (place ++ rest) = .absent := by
  by_cases hrest : rest = []
  · simpa [hrest] using hplace
  · refine Classical.byContradiction fun hbelow => ?_
    rw [h.directory_before rest hrest hbelow] at hplace
    cases hplace

theorem directory_above (h : f.IsTree) (hbefore : other <+: place)
    (hplace : f.entryAt place = .directory) : f.entryAt other = .directory := by
  obtain ⟨rest, rfl⟩ := hbefore
  by_cases hrest : rest = []
  · simpa [hrest] using hplace
  · exact h.directory_before rest hrest (by simp [hplace])

theorem find_directory (h : f.IsTree) (hplain : path.IsPlain)
    (hpath : f.entryAt path.segments = .directory) :
    f.find path = (path.segments, .directory) :=
  find_directories hplain fun _ hbefore => h.directory_above hbefore hpath

theorem entry_child (h : f.IsTree) (hplain : (path.child name).IsPlain)
    (hclear : f.IsClear path.segments) :
    f.entry (path.child name) = f.entryAt (path.segments ++ [name]) := by
  unfold entry
  rcases f.entryAt_cases path.segments with hpath | ⟨content, hpath⟩ | hpath
  · have hhome := h.find_directory hplain.parent hpath
    rw [find_child hhome hplain.last hplain.short]
  · exact absurd hpath (hclear _ (List.prefix_refl _) content)
  · have hend := h.absent_below [name] hpath
    have hclear' : f.IsClear (path.child name).segments := by
      intro before hbefore content hfile
      rcases List.prefix_concat_iff.mp hbefore with heq | hshort
      · rw [heq, hend] at hfile
        cases hfile
      · exact hclear before hshort content hfile
    obtain ⟨place, hfind⟩ := find_absent hplain hclear' hend
    rw [hfind, hend]

theorem addDirectory (h : f.IsTree) (hplace : f.entryAt place = .directory)
    (habsent : f.entryAt (place ++ [name]) = .absent) :
    (f.addDirectory (place ++ [name])).IsTree where
  apart := List.nodup_cons.mpr ⟨unlisted_of_absent habsent, h.apart⟩
  parents before last hlast := by
    have hbefore : f.entryAt before = .directory := by
      rw [entryAt_addDirectory] at hlast
      split at hlast
      · next heq => rwa [(List.append_inj' heq rfl).1]
      · exact h.parents before last hlast
    rw [entryAt_addDirectory, hbefore, ite_self]

theorem addFile (h : f.IsTree) (hplace : f.entryAt place = .directory)
    (hfree : f.entryAt (place ++ [name]) ≠ .directory) (content : α) :
    (f.addFile (place ++ [name]) content).IsTree where
  apart := by
    have hunlisted : place ++ [name] ∉ f.directories := by
      intro hlisted
      exact hfree (directory_iff.mpr (by simp [hlisted]))
    have hkept : ((f.files.filter fun entry => entry.1 != place ++ [name]).map Prod.fst).Sublist
        (f.files.map Prod.fst) := List.filter_sublist.map _
    have hapart := h.apart.sublist (List.Sublist.append_left hkept f.directories)
    refine List.nodup_middle.mpr (List.nodup_cons.mpr ⟨?_, hapart⟩)
    rw [List.mem_append, not_or]
    exact ⟨hunlisted, by simp⟩
  parents before last hlast := by
    have hbefore : f.entryAt before = .directory := by
      rw [entryAt_addFile hfree] at hlast
      split at hlast
      · next heq => rwa [(List.append_inj' heq rfl).1]
      · exact h.parents before last hlast
    have hne : before ≠ place ++ [name] := by
      rintro rfl
      exact hfree hbefore
    rw [entryAt_addFile hfree, if_neg hne, hbefore]

end IsTree

theorem entryAt_remove (hplace : place ≠ []) (other : Place) :
    (f.remove place).entryAt other = if place <+: other then .absent else f.entryAt other := by
  by_cases hbelow : place <+: other
  · have hroot : other ≠ [] := by
      rintro rfl
      exact hplace (List.prefix_nil.mp hbelow)
    rw [if_pos hbelow]
    have hleads := List.isPrefixOf_iff_prefix.mpr hbelow
    exact entryAt_unlisted hroot (by simp [remove, hleads])
  · have hkept : (!place.isPrefixOf other) = true := by
      rw [Bool.not_eq_true', Bool.eq_false_iff]
      exact fun hleads => hbelow (List.isPrefixOf_iff_prefix.mp hleads)
    have hlookup := lookup_filter (fun key => !place.isPrefixOf key) f.files other
    rw [if_pos hkept] at hlookup
    unfold entryAt remove
    simp only [hlookup, List.contains_eq_mem, List.mem_filter, hkept, and_true, if_neg hbelow]

theorem IsTree.remove (h : f.IsTree) (place : Place) : (f.remove place).IsTree where
  apart := by
    have hfiles : ((f.remove place).files.map Prod.fst).Sublist (f.files.map Prod.fst) :=
      List.filter_sublist.map _
    exact h.apart.sublist (List.filter_sublist.append hfiles)
  parents before last hlast := by
    by_cases hroot : place = []
    · have hempty : f.remove place = empty := by simp [Folder.remove, empty, hroot]
      rw [hempty] at hlast ⊢
      exact isTree_empty.parents before last hlast
    · rw [entryAt_remove hroot] at hlast ⊢
      split at hlast
      · exact absurd rfl hlast
      · next hbelow =>
        have hbefore : ¬ place <+: before := fun hbefore =>
          hbelow (hbefore.trans (List.prefix_append _ _))
        rw [if_neg hbefore]
        exact h.parents before last hlast

theorem makeDirectory_absent (h : f.find path = (place, .directory)) (hname : IsPlainName name)
    (hover : (path.child name).isOverlong = false)
    (habsent : f.entryAt (place ++ [name]) = .absent) :
    f.makeDirectory (path.child name) = .ok (f.addDirectory (place ++ [name])) := by
  rcases makeDirectory_child h hname hover with hmake | ⟨-, hmake⟩
  · have hnull : (path.child name).holdsNull = false := by
      rw [Path.holdsNull_child, (find_of_directory h).2.1, hname.whole]
      rfl
    unfold makeDirectory at hmake
    rw [slot_child h hname.short hover hnull] at hmake
    simp [Path.child, bind, Except.bind, hname.not_up, habsent] at hmake
    cases hmake
  · exact hmake

theorem makeDirectory_missing (hplain : (path.child name).IsPlain)
    (hparent : f.find path = (place, .absent)) :
    f.makeDirectory (path.child name) = .error .missing := by
  unfold makeDirectory slot
  rw [hplain.holdsNull, hplain.short, Path.parent_child, hparent]
  rfl

theorem write_plain (h : f.IsTree) (hplain : (path.child name).IsPlain)
    (hpath : f.entryAt path.segments = .directory)
    (hfree : f.entryAt (path.segments ++ [name]) ≠ .directory) (content : α) :
    f.write (path.child name) content = .ok (f.addFile (path.segments ++ [name]) content) := by
  have hhome := h.find_directory hplain.parent hpath
  have hentry := find_child hhome hplain.last hplain.short
  unfold write entry
  rw [slot_child hhome hplain.last.short hplain.short hplain.holdsNull, hentry]
  dsimp only [bind, Except.bind]
  rcases f.entryAt_cases (path.segments ++ [name]) with hend | ⟨old, hend⟩ | hend
  · exact absurd hend hfree
  · rw [hend]
    rfl
  · rw [hend]
    rfl

theorem remove_clearBelow (f : Folder α) (place : Place) :
    (f.clearBelow place).remove place = f.remove place := by
  have hkept (other : Place) : (!place.isPrefixOf other && (decide (other = place) ||
      !place.isPrefixOf other)) = !place.isPrefixOf other := by
    cases place.isPrefixOf other <;> simp
  simp [remove, clearBelow, List.filter_filter, hkept]

theorem directory_clearBelow (hbefore : other <+: place) (h : f.entryAt other = .directory) :
    (f.clearBelow place).entryAt other = .directory := by
  rw [directory_iff, Bool.or_eq_true] at h ⊢
  rcases h with hroot | hlisted
  · exact .inl hroot
  · refine .inr ?_
    have hkept : other = place ∨ ¬ place <+: other := by
      by_cases hsame : other = place
      · exact .inl hsame
      · refine .inr fun hafter => hsame ?_
        exact hbefore.eq_of_length (Nat.le_antisymm hbefore.length_le hafter.length_le)
    have hmem : other ∈ f.directories := by simpa using hlisted
    rcases hkept with heq | hnot
    · simp [clearBelow, heq ▸ hmem, heq]
    · have hleads : place.isPrefixOf other = false := by
        rw [Bool.eq_false_iff]
        exact fun hafter => hnot (List.isPrefixOf_iff_prefix.mp hafter)
      simp [clearBelow, hmem, hleads]

end Folder

namespace FolderTask

variable {α : Type} {f : Folder α} {path : Path} {place : Place} {name : String}
  {names : List String}

theorem run_ensureDirectory_child (h : f.IsTree) (hplain : (path.child name).IsPlain)
    (hpath : f.entryAt path.segments = .directory)
    (hclear : ∀ content, f.entryAt (path.segments ++ [name]) ≠ .file content) :
    ∃ g, (ensureDirectory (path.child name)).run.run f = (.ok (), g) ∧ g.IsTree ∧
      ∀ place, g.entryAt place =
        if place = path.segments ++ [name] then .directory else f.entryAt place := by
  have hhome := h.find_directory hplain.parent hpath
  rcases f.entryAt_cases (path.segments ++ [name]) with hend | ⟨content, hend⟩ | hend
  · have hfound := Folder.find_child hhome hplain.last hplain.short
    rw [hend] at hfound
    refine ⟨f, run_ensureDirectory_found hfound, h, fun place => ?_⟩
    split
    · next heq => rw [heq, hend]
    · rfl
  · exact absurd hend (hclear content)
  · refine ⟨f.addDirectory (path.segments ++ [name]), ?_, h.addDirectory hpath hend,
      Folder.entryAt_addDirectory f _⟩
    unfold ensureDirectory
    rw [run_get_bind, Folder.makeDirectory_absent hhome hplain.last hplain.short hend]
    rfl

theorem entryAt_way {f' g : Folder α}
    (hf' : ∀ other, f'.entryAt other = if other <+: place then .directory else f.entryAt other)
    (hg : ∀ other, g.entryAt other =
      if other = place ++ [name] then .directory else f'.entryAt other) (other : Place) :
    g.entryAt other = if other <+: place ++ [name] then .directory else f.entryAt other := by
  simp only [hg, hf', List.prefix_concat_iff, ← ite_or]

/-- A way on which no file stands is made of directories after it was asked for. -/
theorem run_ensureWay (h : f.IsTree) (hplain : Path.IsPlain ⟨0, names.reverse⟩)
    (hclear : f.IsClear names.reverse) :
    ∃ g, (ensureWay names).run.run f = (.ok (), g) ∧ g.IsTree ∧
      ∀ place, g.entryAt place =
        if place <+: names.reverse then .directory else f.entryAt place := by
  induction names generalizing f with
  | nil =>
    refine ⟨f, rfl, h, fun place => ?_⟩
    split
    · next hroot =>
      rw [List.reverse_nil, List.prefix_nil] at hroot
      rw [hroot, Folder.entryAt_nil]
    · rfl
  | cons name above ih =>
    have hpath : (⟨0, (name :: above).reverse⟩ : Path) = Path.child ⟨0, above.reverse⟩ name := by
      simp [Path.child]
    rw [hpath] at hplain
    rw [List.reverse_cons] at hclear ⊢
    have hlast : ∀ content, f.entryAt (above.reverse ++ [name]) ≠ .file content :=
      hclear _ (List.prefix_refl _)
    unfold ensureWay
    rw [run_get_bind, hpath]
    rcases f.entryAt_cases above.reverse with habove | ⟨content, habove⟩ | habove
    · obtain ⟨g, hrun, htree, hg⟩ := run_ensureDirectory_child h hplain habove hlast
      have hhome := h.find_directory hplain.parent habove
      refine ⟨g, ?_, htree, entryAt_way (fun place => ?_) hg⟩
      · rcases Folder.makeDirectory_child hhome hplain.last hplain.short with hmake | ⟨-, hmake⟩
        · rw [hmake]
          exact hrun
        · rw [hmake]
          exact hrun
      · split
        · next hbefore => exact h.directory_above hbefore habove
        · rfl
    · exact absurd habove (hclear.parent _ (List.prefix_refl _) content)
    · -- The directory above is made first, and does not change what stands at the end of the way.
      obtain ⟨place, hparent⟩ := Folder.find_absent hplain.parent hclear.parent habove
      obtain ⟨f', hrun', htree', hf'⟩ := ih h hplain.parent hclear.parent
      have hpath' : f'.entryAt above.reverse = .directory := by
        rw [hf', if_pos (List.prefix_refl _)]
      have hlonger : ¬ above.reverse ++ [name] <+: above.reverse := by
        intro hbefore
        have hlength := hbefore.length_le
        rw [List.length_append, List.length_singleton] at hlength
        omega
      have hlast' : ∀ content, f'.entryAt (above.reverse ++ [name]) ≠ .file content := by
        rwa [hf', if_neg hlonger]
      obtain ⟨g, hrun, htree, hg⟩ := run_ensureDirectory_child htree' hplain hpath' hlast'
      refine ⟨g, ?_, htree, entryAt_way hf' hg⟩
      rw [Folder.makeDirectory_missing hplain hparent]
      dsimp only
      rw [run_bind, hrun']
      exact hrun

theorem run_ensureDirectories (h : f.IsTree) (hplain : path.IsPlain)
    (hclear : f.IsClear path.segments) :
    ∃ g, (ensureDirectories path).run.run f = (.ok (), g) ∧ g.IsTree ∧
      ∀ place, g.entryAt place =
        if place <+: path.segments then .directory else f.entryAt place := by
  have hpath : (⟨0, path.segments.reverse.reverse⟩ : Path).IsPlain := by
    rw [List.reverse_reverse, ← hplain.relative]
    exact hplain
  have hway := run_ensureWay h hpath (by rwa [List.reverse_reverse])
  rwa [List.reverse_reverse] at hway

theorem run_deleteTree (h : f.IsTree) (hplain : path.IsPlain)
    (hpath : f.entryAt path.segments = .directory) :
    (deleteTree path).run.run f = (.ok (), f.remove path.segments) := by
  have hfound := h.find_directory hplain hpath
  have hleft : (f.clearBelow path.segments).isDirectory path = true := by
    refine Folder.isDirectory_found (Folder.find_directories hplain fun before hbefore => ?_)
    exact Folder.directory_clearBelow hbefore (h.directory_above hbefore hpath)
  unfold deleteTree
  rw [run_get_bind, hfound]
  dsimp only
  change ((if (f.clearBelow path.segments).isDirectory path = true then _ else _ :
    FolderTask α Unit).run.run (f.clearBelow path.segments)) = _
  rw [if_pos hleft]
  exact congrArg (Prod.mk _) (Folder.remove_clearBelow f _)

end FolderTask

end StepWorld
