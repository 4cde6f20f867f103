import StepWorld.Archive
import StepWorld.Proofs.Archive.FileShelf

/-! What an archive of either kind keeps of one simulation. The snapshots stand under the numbers
of the first steps, in memory as in files. -/

namespace StepWorld

namespace MemoryArchive

variable {a : MemoryArchive} {id : String} {worlds : List World} {result : Option SimulationResult}

structure Keeps (a : MemoryArchive) (id : String) (worlds : List World)
    (result : Option SimulationResult) : Prop where
  numbers : ((a.snapshots.filter (·.1.1 == id)).map (·.1.2)).Perm (firstSteps worlds.length)
  snapshots : ∀ n w, worlds[n]? = some w →
    a.snapshots.lookup (id, ((n + 1 : Nat) : Int)) = some w.withoutHistory
  result : a.results.get? id = result

theorem steps_eq (a : MemoryArchive) (id : String) : a.steps id =
    ((a.snapshots.filter (·.1.1 == id)).map (·.1.2)).mergeSort (· ≤ ·) := by
  unfold steps
  generalize a.snapshots = entries
  congr 1
  induction entries with
  | nil => rfl
  | cons entry rest ih => by_cases howner : entry.1.1 = id <;> simp [howner, ih]

namespace Keeps

theorem fresh (h : a.Keeps id worlds result) {entry : (String × Int) × World}
    (hentry : entry ∈ a.snapshots) (howner : entry.1.1 = id) :
    entry.1 ≠ (id, ((worlds.length + 1 : Nat) : Int)) := by
  intro heq
  have hmem : entry.1.2 ∈ (a.snapshots.filter (·.1.1 == id)).map (·.1.2) :=
    List.mem_map_of_mem (List.mem_filter.mpr ⟨hentry, by simpa using howner⟩)
  obtain ⟨k, hk, hstep⟩ := List.mem_map.mp (h.numbers.mem_iff.mp hmem)
  have hlt := List.mem_range.mp hk
  rw [heq] at hstep
  dsimp only at hstep
  omega

theorem saveSnapshot (h : a.Keeps id worlds result) (w : World) :
    (a.saveSnapshot id (worlds.length + 1 : Nat) w).Keeps id (worlds ++ [w]) result where
  numbers := by
    have hfilter : (a.snapshots.filter
        fun entry => entry.1 != (id, ((worlds.length + 1 : Nat) : Int))).filter (·.1.1 == id) =
          a.snapshots.filter (·.1.1 == id) := by
      rw [List.filter_filter]
      refine List.filter_congr fun entry hentry => ?_
      by_cases howner : entry.1.1 = id
      · simpa [howner] using h.fresh hentry howner
      · simp [howner]
    rw [MemoryArchive.saveSnapshot, List.filter_cons_of_pos (by simp), hfilter, List.map_cons,
      List.length_append, List.length_singleton, firstSteps_succ]
    exact (h.numbers.cons _).trans (List.perm_append_singleton _ _).symm
  snapshots k v hv := by
    rw [MemoryArchive.saveSnapshot, List.lookup_cons]
    by_cases hlast : k < worlds.length
    · have hne : (id, ((k + 1 : Nat) : Int)) ≠ (id, ((worlds.length + 1 : Nat) : Int)) := by
        intro heq
        have hstep := congrArg Prod.snd heq
        dsimp only at hstep
        omega
      rw [List.getElem?_append_left hlast] at hv
      rw [beq_false_of_ne hne]
      exact (Folder.lookup_filter_ne hne).trans (h.snapshots k v hv)
    · rw [List.getElem?_append_right (Nat.not_lt.mp hlast), List.getElem?_singleton] at hv
      split at hv
      · obtain rfl : k = worlds.length := by omega
        cases hv
        simp
      · cases hv
  result := h.result

theorem saveResult (h : a.Keeps id worlds result) (r : SimulationResult) :
    (a.saveResult id r).Keeps id worlds (some r) where
  numbers := h.numbers
  snapshots := h.snapshots
  result := by simp [MemoryArchive.saveResult, Table.get?_put]

theorem steps (h : a.Keeps id worlds result) : a.steps id = firstSteps worlds.length := by
  rw [steps_eq]
  exact mergeSort_firstSteps h.numbers

end Keeps

end MemoryArchive

namespace Archive

variable {a b : Archive} {id : String} {worlds : List World} {result : Option SimulationResult}

inductive Keeps (id : String) (worlds : List World) (result : Option SimulationResult) :
    Archive → Prop
  | memory {a : MemoryArchive} (h : a.Keeps id worlds result) : Keeps id worlds result (.memory a)
  | files {a : FileArchive} {place : Place} (h : a.Keeps id place worlds result) :
    Keeps id worlds result (.files a)

def kept (w : World) : Archive → World
  | .memory _ => w.withoutHistory
  | .files _ => w.withoutHistory.stored

def keptResult (r : SimulationResult) : Archive → SimulationResult
  | .memory _ => r
  | .files _ => r.stored

theorem run_change (inMemory : MemoryArchive → MemoryArchive) (inFiles : FileArchive.Task Unit)
    (files : FileArchive) : (change inMemory inFiles).run.run (.files files) =
      ((inFiles.run.run files).1, .files (inFiles.run.run files).2) := rfl

theorem run_change_files {inMemory : MemoryArchive → MemoryArchive} {inFiles : FileArchive.Task Unit}
    {files : FileArchive} (h : (change inMemory inFiles).run.run (.files files) = (.ok (), b)) :
    ∃ after, inFiles.run.run files = (.ok (), after) ∧ b = .files after := by
  rw [run_change, Prod.mk.injEq] at h
  exact ⟨_, Prod.ext h.1 rfl, h.2.symm⟩

namespace Keeps

theorem setStatus (h : Keeps id worlds result a) {status : SimulationStatus}
    {completedAt : Option Nat}
    (hrun : (Archive.setStatus id status completedAt).run.run a = (.ok (), b)) :
    Keeps id worlds result b := by
  cases h with
  | memory h =>
    cases hrun
    exact .memory ⟨h.numbers, h.snapshots, h.result⟩
  | files h =>
    obtain ⟨after, hafter, rfl⟩ := run_change_files hrun
    exact .files (h.setStatus hafter)

theorem saveSnapshot (h : Keeps id worlds result a) {w : World}
    (hrun : (Archive.saveSnapshot id (worlds.length + 1 : Nat) w).run.run a = (.ok (), b)) :
    Keeps id (worlds ++ [w]) result b := by
  cases h with
  | memory h =>
    cases hrun
    exact .memory (h.saveSnapshot w)
  | files h =>
    obtain ⟨after, hafter, rfl⟩ := run_change_files hrun
    exact .files (h.saveSnapshot hafter)

theorem saveResult (h : Keeps id worlds result a) {r : SimulationResult}
    (hrun : (Archive.saveResult id r).run.run a = (.ok (), b)) : Keeps id worlds (some r) b := by
  cases h with
  | memory h =>
    cases hrun
    exact .memory (h.saveResult r)
  | files h =>
    obtain ⟨after, hafter, rfl⟩ := run_change_files hrun
    exact .files (h.saveResult hafter)

theorem steps (h : Keeps id worlds result a) : a.steps id = .ok (firstSteps worlds.length) := by
  cases h with
  | memory h => exact congrArg Except.ok h.steps
  | files h => exact h.steps

theorem snapshot? (h : Keeps id worlds result a) {n : Nat} {w : World} (hw : worlds[n]? = some w) :
    a.snapshot? id (n + 1 : Nat) = .ok (some (a.kept w)) := by
  cases h with
  | memory h => exact congrArg Except.ok (h.snapshots n w hw)
  | files h => exact h.snapshot? hw

theorem result? (h : Keeps id worlds result a) :
    a.result? id = .ok (result.map fun r => a.keptResult r) := by
  cases h with
  | memory h =>
    have hresult := h.result
    cases result <;> exact congrArg Except.ok hresult
  | files h => exact h.result?

end Keeps

/-- Of a simulation only the record is kept. A record in a file stands in a directory in which
nothing else stands. -/
def OnlyRecord (id : String) : Archive → Prop
  | .memory a => a.steps id = [] ∧ a.result? id = none
  | .files a => ∃ place s,
    a.folder.find (a.recordPath id) = (place ++ ["simulation.json"], .file (.record s)) ∧
      ∀ other ∈ a.folder.directories ++ a.folder.files.map Prod.fst, place <+: other →
        other = place ∨ other = place ++ ["simulation.json"]

def holdsOnlyRecord (id : String) : Archive → Bool
  | .memory a => a.steps id == [] && (a.result? id).isNone
  | .files a =>
    match a.folder.find (a.recordPath id) with
    | (place, .file (.record _)) =>
      place == place.dropLast ++ ["simulation.json"] &&
        (a.folder.directories ++ a.folder.files.map Prod.fst).all fun other =>
          !place.dropLast.isPrefixOf other || other == place.dropLast || other == place
    | _ => false

theorem onlyRecord_of_holds (h : a.holdsOnlyRecord id = true) : a.OnlyRecord id := by
  cases a with
  | memory a => simpa [holdsOnlyRecord, OnlyRecord] using h
  | files a =>
    simp only [holdsOnlyRecord] at h
    generalize hfind : a.folder.find (a.recordPath id) = found at h
    split at h
    · next place s =>
      simp only [Bool.and_eq_true, beq_iff_eq, List.all_eq_true, Bool.or_eq_true,
        Bool.not_eq_true', or_assoc] at h
      obtain ⟨hplace, hothers⟩ := h
      refine ⟨place.dropLast, s, by rw [← hplace]; exact hfind, fun other hother hbelow => ?_⟩
      rcases hothers other hother with hnot | hsame
      · rw [List.isPrefixOf_iff_prefix.mpr hbelow] at hnot
        cases hnot
      · rw [← hplace]
        exact hsame
    · cases h

theorem keeps_of_files {a : FileArchive} {place : Place} {s : Simulation}
    (hrecord : a.folder.find (a.recordPath id) =
      (place ++ ["simulation.json"], .file (.record s)))
    (halone : ∀ other ∈ a.folder.directories ++ a.folder.files.map Prod.fst, place <+: other →
      other = place ∨ other = place ++ ["simulation.json"]) : a.Keeps id place [] none := by
  have hfits : (a.recordPath id).isOverlong = false := by
    rw [Bool.eq_false_iff]
    intro hover
    simp [Folder.find, hover] at hrecord
  have hfound : ¬ Folder.Lost (a.folder.find ((a.directoryPath id).child "simulation.json")).2 := by
    rw [FileArchive.recordPath] at hrecord
    rw [hrecord]
    exact fun hlost => hlost
  obtain ⟨home, hhome⟩ := Folder.find_parent hfound
  obtain rfl : home = place := by
    have hchild := Folder.find_child hhome ⟨by decide, by decide, by decide⟩ hfits
    have hplace := congrArg Prod.fst (hchild.symm.trans hrecord)
    exact List.append_cancel_right hplace
  -- What would stand below one of these names is no record.
  have hunlisted {below : Place} (hne : below ≠ []) (hfirst : below ≠ ["simulation.json"]) :
      home ++ below ∉ a.folder.directories ++ a.folder.files.map Prod.fst := by
    intro hlisted
    rcases halone _ hlisted (List.prefix_append _ _) with heq | heq
    · exact hne (by simpa using heq)
    · exact hfirst (List.append_cancel_left heq)
  have habsent {below : Place} (hne : below ≠ []) (hfirst : below ≠ ["simulation.json"]) :
      a.folder.entryAt (home ++ below) = .absent :=
    Folder.entryAt_unlisted (by simp [hne]) (hunlisted hne hfirst)
  refine ⟨hhome, hfits, .inr ⟨habsent (by simp) (by simp), rfl⟩, ?_, ?_, ?_, ?_⟩
  · rw [Folder.names_eq_nil fun name => ?_]
    · exact .refl _
    · rw [List.append_assoc]
      exact hunlisted (by simp) (by simp)
  · intro n hn
    cases hn
  · intro n w hw
    cases hw
  · exact habsent (by simp) (by simp)

theorem keeps_of_onlyRecord (h : a.OnlyRecord id) : Keeps id [] none a := by
  cases a with
  | memory a =>
    obtain ⟨hsteps, hresult⟩ := h
    rw [MemoryArchive.steps_eq] at hsteps
    have hnone := (List.mergeSort_perm ((a.snapshots.filter (·.1.1 == id)).map (·.1.2))
      (· ≤ ·)).symm
    rw [hsteps] at hnone
    exact .memory ⟨hnone, fun n w hw => (by cases hw), hresult⟩
  | files a =>
    obtain ⟨place, s, hrecord, halone⟩ := h
    exact .files (keeps_of_files hrecord halone)

end Archive

end StepWorld
