import Mathlib.Data.List.Nodup
import StepWorld.Proofs.Archive.Shelf
import StepWorld.Proofs.World.Frame

/-! The files in which an archive in memory would be kept: one for each record, each result and each
snapshot. Each change of the archive changes one file, or removes those of one simulation. -/

namespace StepWorld

theorem Simulation.isWritable_withStatus {s : Simulation} (h : s.document.isWritable = true)
    (status : SimulationStatus) {completedAt : Option Nat}
    (hstamp : (optionalStamp completedAt).isWritable = true) :
    (s.withStatus status completedAt).document.isWritable = true := by
  cases completedAt with
  | none => simpa [document, withStatus, Value.isWritable, Value.fieldsWritable] using h
  | some stamp =>
    have hstamp' : StepWorld.isWritable stamp = true := hstamp
    simp_all [document, withStatus, Value.isWritable, Value.fieldsWritable, optionalStamp]

namespace MemoryArchive

variable {m n : MemoryArchive} {id : String} {rest : Place} {file : StoredFile}

section Observations

variable (m : MemoryArchive) (id other : String)

theorem record?_saveRecord (s : Simulation) :
    (m.saveRecord s).record? id = if id = s.id then some s else m.record? id :=
  Table.get?_put _ _ _ _

theorem record?_setStatus (status : SimulationStatus) (completedAt : Option Nat) :
    (m.setStatus id status completedAt).record? other =
      if other = id then (m.record? id).map (·.withStatus status completedAt)
      else m.record? other := by
  rw [record?, setStatus, Table.get?_modify]
  split
  · next heq => rw [heq, record?]
  · rfl

theorem result?_saveResult (r : SimulationResult) :
    (m.saveResult id r).result? other = if other = id then some r else m.result? other :=
  Table.get?_put _ _ _ _

theorem snapshot?_saveSnapshot (step at_ : Int) (w : World) :
    (m.saveSnapshot id step w).snapshot? other at_ =
      if other = id ∧ at_ = step then some w.withoutHistory else m.snapshot? other at_ := by
  unfold snapshot? saveSnapshot
  rw [List.lookup_cons]
  by_cases hkey : (other, at_) = (id, step)
  · obtain ⟨rfl, rfl⟩ := Prod.mk.inj hkey
    simp
  · have hkey' : ¬ (other = id ∧ at_ = step) := fun h => hkey (Prod.ext h.1 h.2)
    rw [beq_false_of_ne hkey, if_neg hkey']
    exact Folder.lookup_filter_ne hkey

theorem record?_delete :
    (m.delete id).record? other = if other = id then none else m.record? other :=
  Table.get?_remove _ _ _

theorem result?_delete :
    (m.delete id).result? other = if other = id then none else m.result? other :=
  Table.get?_remove _ _ _

theorem snapshot?_delete (step : Int) :
    (m.delete id).snapshot? other step = if other = id then none else m.snapshot? other step := by
  have hlookup := Folder.lookup_filter (fun key : String × Int => key.1 != id) m.snapshots
    (other, step)
  unfold snapshot? delete
  rw [hlookup]
  by_cases hid : other = id <;> simp [hid]

theorem isSome_snapshot?_iff (step : Int) :
    (m.snapshot? id step).isSome ↔ (id, step) ∈ m.snapshots.map Prod.fst := by
  rw [snapshot?, List.lookup_isSome_iff, List.mem_map]
  exact exists_congr fun entry => and_congr_right fun _ => by rw [beq_iff_eq, eq_comm]

end Observations

/-- The files of an archive, by the names that lead to them from its directory. -/
inductive Files (m : MemoryArchive) : Place → StoredFile → Prop
  | record {id : String} {s : Simulation} (h : m.record? id = some s) :
    Files m [id, "simulation.json"] (.record s)
  | result {id : String} {r : SimulationResult} (h : m.result? id = some r) :
    Files m [id, "result.json"] (.result r)
  | snapshot {id : String} {n : Nat} {w : World} (h : m.snapshot? id n = some w) :
    Files m [id, "snapshots", snapshotName n] (.snapshot w)

theorem files_record : m.Files [id, "simulation.json"] file ↔
    ∃ s, m.record? id = some s ∧ file = .record s := by
  constructor
  · intro h
    generalize hrest : [id, "simulation.json"] = rest at h
    cases h with
    | record h =>
      cases hrest
      exact ⟨_, h, rfl⟩
    | result => simp at hrest
    | snapshot => simp at hrest
  · rintro ⟨s, h, rfl⟩
    exact .record h

theorem files_result : m.Files [id, "result.json"] file ↔
    ∃ r, m.result? id = some r ∧ file = .result r := by
  constructor
  · intro h
    generalize hrest : [id, "result.json"] = rest at h
    cases h with
    | record => simp at hrest
    | result h =>
      cases hrest
      exact ⟨_, h, rfl⟩
    | snapshot => simp at hrest
  · rintro ⟨r, h, rfl⟩
    exact .result h

theorem files_snapshot {name : String} : m.Files [id, "snapshots", name] file ↔
    ∃ (n : Nat) (w : World), name = snapshotName n ∧ m.snapshot? id n = some w ∧
      file = .snapshot w := by
  constructor
  · intro h
    generalize hrest : [id, "snapshots", name] = rest at h
    cases h with
    | record => simp at hrest
    | result => simp at hrest
    | @snapshot _ n w h =>
      obtain ⟨rfl, hname⟩ : _ ∧ name = snapshotName n := by simpa using hrest
      exact ⟨n, w, hname, h, rfl⟩
  · rintro ⟨n, w, rfl, h, rfl⟩
    exact .snapshot h

theorem not_on_way_of_files (h : m.Files rest file) (id : String) : ¬ rest <+: [id, "snapshots"] := by
  intro hleads
  cases h with
  | record => simp [List.cons_prefix_cons] at hleads
  | result => simp [List.cons_prefix_cons] at hleads
  | snapshot => simp [List.cons_prefix_cons] at hleads

theorem files_congr (hrecord : ∀ id, rest = [id, "simulation.json"] → n.record? id = m.record? id)
    (hresult : ∀ id, rest = [id, "result.json"] → n.result? id = m.result? id)
    (hsnapshot : ∀ (id : String) (k : Nat), rest = [id, "snapshots", snapshotName k] →
      n.snapshot? id k = m.snapshot? id k) : n.Files rest file ↔ m.Files rest file := by
  constructor
  · intro h
    cases h with
    | record h => exact .record ((hrecord _ rfl).symm.trans h)
    | result h => exact .result ((hresult _ rfl).symm.trans h)
    | snapshot h => exact .snapshot ((hsnapshot _ _ rfl).symm.trans h)
  · intro h
    cases h with
    | record h => exact .record ((hrecord _ rfl).trans h)
    | result h => exact .result ((hresult _ rfl).trans h)
    | snapshot h => exact .snapshot ((hsnapshot _ _ rfl).trans h)

theorem files_saveRecord (m : MemoryArchive) (s : Simulation) (rest : Place) (file : StoredFile) :
    (m.saveRecord s).Files rest file ↔
      if rest = [s.id, "simulation.json"] then file = .record s else m.Files rest file := by
  split
  · next heq => simp [heq, files_record, record?_saveRecord]
  · next hne =>
    refine files_congr (fun id hrest => ?_) (fun _ _ => rfl) fun _ _ _ => rfl
    have hid : id ≠ s.id := by
      rintro rfl
      exact hne hrest
    rw [record?_saveRecord, if_neg hid]

theorem files_setStatus (m : MemoryArchive) (id : String) (status : SimulationStatus)
    (completedAt : Option Nat) (rest : Place) (file : StoredFile) :
    (m.setStatus id status completedAt).Files rest file ↔
      if rest = [id, "simulation.json"] then
        ∃ s, m.record? id = some s ∧ file = .record (s.withStatus status completedAt)
      else m.Files rest file := by
  split
  · next heq =>
    rw [heq, files_record, record?_setStatus, if_pos rfl]
    constructor
    · rintro ⟨t, ht, rfl⟩
      obtain ⟨s, hs, rfl⟩ := Option.map_eq_some_iff.mp ht
      exact ⟨s, hs, rfl⟩
    · rintro ⟨s, hs, rfl⟩
      exact ⟨_, Option.map_eq_some_iff.mpr ⟨s, hs, rfl⟩, rfl⟩
  · next hne =>
    refine files_congr (fun other hrest => ?_) (fun _ _ => rfl) fun _ _ _ => rfl
    have hid : other ≠ id := by
      rintro rfl
      exact hne hrest
    rw [record?_setStatus, if_neg hid]

theorem files_saveResult (m : MemoryArchive) (id : String) (r : SimulationResult) (rest : Place)
    (file : StoredFile) : (m.saveResult id r).Files rest file ↔
      if rest = [id, "result.json"] then file = .result r else m.Files rest file := by
  split
  · next heq => simp [heq, files_result, result?_saveResult]
  · next hne =>
    refine files_congr (fun _ _ => rfl) (fun other hrest => ?_) fun _ _ _ => rfl
    have hid : other ≠ id := by
      rintro rfl
      exact hne hrest
    rw [result?_saveResult, if_neg hid]

theorem files_saveSnapshot (m : MemoryArchive) (id : String) (step : Nat) (w : World)
    (rest : Place) (file : StoredFile) : (m.saveSnapshot id step w).Files rest file ↔
      if rest = [id, "snapshots", snapshotName step] then file = .snapshot w.withoutHistory
      else m.Files rest file := by
  split
  · next heq =>
    rw [heq, files_snapshot]
    constructor
    · rintro ⟨k, kept, hname, hkept, rfl⟩
      rw [← snapshotName_injective hname, snapshot?_saveSnapshot, if_pos ⟨rfl, rfl⟩] at hkept
      cases hkept
      rfl
    · rintro rfl
      exact ⟨step, _, rfl, by rw [snapshot?_saveSnapshot, if_pos ⟨rfl, rfl⟩], rfl⟩
  · next hne =>
    refine files_congr (fun _ _ => rfl) (fun _ _ => rfl) fun other k hrest => ?_
    have hkey : ¬ (other = id ∧ (k : Int) = step) := by
      rintro ⟨rfl, hk⟩
      rw [hrest, Int.ofNat_inj.mp hk] at hne
      exact hne rfl
    rw [snapshot?_saveSnapshot, if_neg hkey]

theorem files_delete (m : MemoryArchive) (id : String) (rest : Place) (file : StoredFile) :
    (m.delete id).Files rest file ↔ ¬ [id] <+: rest ∧ m.Files rest file := by
  by_cases hid : [id] <+: rest
  · refine iff_of_false (fun h => ?_) fun h => h.1 hid
    cases h with
    | @record other s h =>
      obtain rfl : id = other := by simpa using hid
      simp [record?_delete] at h
    | @result other r h =>
      obtain rfl : id = other := by simpa using hid
      simp [result?_delete] at h
    | @snapshot other k w h =>
      obtain rfl : id = other := by simpa using hid
      simp [snapshot?_delete] at h
  · have hne {other : String} {names : Place} (hrest : rest = other :: names) : other ≠ id := by
      rintro rfl
      exact hid (by simp [hrest])
    refine (files_congr (fun other hrest => ?_) (fun other hrest => ?_)
      fun other k hrest => ?_).trans (and_iff_right hid).symm
    · rw [record?_delete, if_neg (hne hrest)]
    · rw [result?_delete, if_neg (hne hrest)]
    · rw [snapshot?_delete, if_neg (hne hrest)]

structure Sound (m : MemoryArchive) : Prop where
  keyed : (m.snapshots.map Prod.fst).Nodup
  numbered : ∀ key ∈ m.snapshots.map Prod.fst,
    ∃ n : Nat, key.2 = n ∧ (snapshotName n).utf8ByteSize ≤ longestName
  writable : ∀ id s, m.record? id = some s → s.document.isWritable = true

namespace Sound

theorem empty : Sound .empty where
  keyed := List.nodup_nil
  numbered key hkey := absurd hkey (List.not_mem_nil)
  writable id s h := absurd h (by simp [record?, MemoryArchive.empty, Table.get?])

theorem saveRecord (h : m.Sound) {s : Simulation} (hs : s.document.isWritable = true) :
    (m.saveRecord s).Sound where
  keyed := h.keyed
  numbered := h.numbered
  writable id t ht := by
    rw [record?_saveRecord] at ht
    split at ht
    · cases ht
      exact hs
    · exact h.writable id t ht

theorem setStatus (h : m.Sound) (id : String) (status : SimulationStatus)
    {completedAt : Option Nat} (hstamp : (optionalStamp completedAt).isWritable = true) :
    (m.setStatus id status completedAt).Sound where
  keyed := h.keyed
  numbered := h.numbered
  writable other t ht := by
    rw [record?_setStatus] at ht
    split at ht
    · obtain ⟨s, hs, rfl⟩ := Option.map_eq_some_iff.mp ht
      exact Simulation.isWritable_withStatus (h.writable id s hs) status hstamp
    · exact h.writable other t ht

theorem saveSnapshot (h : m.Sound) (id : String) {step : Nat}
    (hshort : (snapshotName step).utf8ByteSize ≤ longestName) (w : World) :
    (m.saveSnapshot id step w).Sound where
  keyed := by
    have hkept : ((m.snapshots.filter fun entry => entry.1 != (id, (step : Int))).map
        Prod.fst).Sublist (m.snapshots.map Prod.fst) := List.filter_sublist.map _
    exact List.nodup_cons.mpr ⟨by simp, h.keyed.sublist hkept⟩
  numbered key hkey := by
    rcases List.mem_cons.mp hkey with rfl | hkey
    · exact ⟨step, rfl, hshort⟩
    · exact h.numbered key ((List.filter_sublist.map _).subset hkey)
  writable := h.writable

theorem saveResult (h : m.Sound) (id : String) (r : SimulationResult) :
    (m.saveResult id r).Sound := ⟨h.keyed, h.numbered, h.writable⟩

theorem delete (h : m.Sound) (id : String) : (m.delete id).Sound where
  keyed := h.keyed.sublist (List.filter_sublist.map _)
  numbered key hkey := h.numbered key ((List.filter_sublist.map _).subset hkey)
  writable other s hs := by
    rw [record?_delete] at hs
    split at hs
    · cases hs
    · exact h.writable other s hs

theorem natural (h : m.Sound) {step : Int} {w : World} (hw : m.snapshot? id step = some w) :
    ∃ n : Nat, step = n ∧ (snapshotName n).utf8ByteSize ≤ longestName :=
  h.numbered (id, step) ((m.isSome_snapshot?_iff id step).mp (by rw [hw]; rfl))

theorem naturals (h : m.Sound) (id : String) : ∃ steps : List Nat,
    m.steps id = (steps.map fun n : Nat => (n : Int)).mergeSort (· ≤ ·) ∧ steps.Nodup ∧
      ∀ n : Nat, n ∈ steps ↔ (m.snapshot? id n).isSome := by
  have hmem {key : String × Int} : key ∈ (m.snapshots.filter (·.1.1 == id)).map Prod.fst ↔
      key ∈ m.snapshots.map Prod.fst ∧ key.1 = id := by
    simp only [List.mem_map, List.mem_filter, beq_iff_eq]
    constructor
    · rintro ⟨entry, ⟨hentry, howner⟩, rfl⟩
      exact ⟨⟨entry, hentry, rfl⟩, howner⟩
    · rintro ⟨⟨entry, hentry, rfl⟩, howner⟩
      exact ⟨entry, ⟨hentry, howner⟩, rfl⟩
  refine ⟨((m.snapshots.filter (·.1.1 == id)).map Prod.fst).map (·.2.toNat), ?_, ?_, fun n => ?_⟩
  · rw [steps_eq, List.map_map, List.map_map]
    congr 1
    refine List.map_congr_left fun entry hentry => ?_
    have hkey : entry.1 ∈ m.snapshots.map Prod.fst :=
      List.mem_map_of_mem (List.mem_filter.mp hentry).1
    obtain ⟨n, hn, -⟩ := h.numbered _ hkey
    simp [hn]
  · have hapart : ((m.snapshots.filter (·.1.1 == id)).map Prod.fst).Nodup :=
      h.keyed.sublist (List.filter_sublist.map Prod.fst)
    refine List.Nodup.map_on (fun key hkey other hother heq => ?_) hapart
    obtain ⟨hkey, howner⟩ := hmem.mp hkey
    obtain ⟨hother, howner'⟩ := hmem.mp hother
    obtain ⟨n, hn, -⟩ := h.numbered key hkey
    obtain ⟨k, hk, -⟩ := h.numbered other hother
    refine Prod.ext (howner.trans howner'.symm) ?_
    rw [hn, hk, Int.toNat_natCast, Int.toNat_natCast] at heq
    rw [hn, hk, heq]
  · rw [m.isSome_snapshot?_iff, List.mem_map]
    constructor
    · rintro ⟨key, hkey, rfl⟩
      obtain ⟨hlisted, howner⟩ := hmem.mp hkey
      obtain ⟨n, hn, -⟩ := h.numbered key hlisted
      rwa [hn, Int.toNat_natCast, ← hn, ← howner]
    · exact fun hkey => ⟨_, hmem.mpr ⟨hkey, rfl⟩, Int.toNat_natCast n⟩

end Sound

end MemoryArchive

end StepWorld
