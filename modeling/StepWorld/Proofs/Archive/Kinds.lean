import StepWorld.Proofs.Archive.Mirror

/-! The two kinds of archives side by side. Whatever both are asked to keep, to change and to
delete, they are asked for the same and answer the same, as long as files can hold it: JSON knows
no infinities and no NaN, and an integer of too many digits is not written at all. -/

namespace StepWorld

namespace Value

mutual

def isFinite : Value → Bool
  | .float x => x.isFinite
  | .nan _ => false
  | .list _ items => itemsFinite items
  | .map fields => fieldsFinite fields
  | _ => true

def itemsFinite : List Value → Bool
  | [] => true
  | v :: rest => v.isFinite && itemsFinite rest

def fieldsFinite : List (String × Value) → Bool
  | [] => true
  | (_, v) :: rest => v.isFinite && fieldsFinite rest

end

mutual

theorem stored_of_isFinite : ∀ {v : Value}, v.isFinite = true → v.stored = v
  | .float _, h => if_pos h
  | .nan _, h => nomatch h
  | .list _ _, h => congrArg (Value.list _) (storedItems_of_finite h)
  | .map _, h => congrArg Value.map (storedFields_of_finite h)
  | .null, _ | .bool _, _ | .int _, _ | .str _, _ | .torn _, _ => rfl

theorem storedItems_of_finite :
    ∀ {items : List Value}, itemsFinite items = true → storedItems items = items
  | [], _ => rfl
  | _ :: _, h => by
    obtain ⟨hfirst, hrest⟩ := Bool.and_eq_true_iff.mp h
    rw [storedItems, stored_of_isFinite hfirst, storedItems_of_finite hrest]

theorem storedFields_of_finite :
    ∀ {fields : List (String × Value)}, fieldsFinite fields = true → storedFields fields = fields
  | [], _ => rfl
  | (_, _) :: _, h => by
    obtain ⟨hfirst, hrest⟩ := Bool.and_eq_true_iff.mp h
    rw [storedFields, stored_of_isFinite hfirst, storedFields_of_finite hrest]

end

end Value

/-- Whether all floats in a world are finite, whatever its history holds. -/
def World.isFinite (w : World) : Bool :=
  Value.fieldsFinite w.vars && w.entities.all fun entry =>
    entry.2.all fun i => Value.fieldsFinite i.state

def Moment.isFinite (m : Moment) : Bool :=
  Value.fieldsFinite m.vars && m.entities.all fun entry =>
    entry.2.all fun i => Value.fieldsFinite i.2

def SimulationResult.isFinite (r : SimulationResult) : Bool :=
  r.finalWorld.isFinite && r.finalWorld.history.all (·.isFinite) && r.history.all (·.isFinite)

theorem map_entries_eq_self {α : Type} {f : α → α} {entries : Table (List α)}
    (h : ∀ entry ∈ entries, ∀ i ∈ entry.2, f i = i) :
    entries.map (fun entry => (entry.1, entry.2.map f)) = entries := by
  have hentry : ∀ entry ∈ entries, (entry.1, entry.2.map f) = entry := fun entry hentry =>
    Prod.ext rfl ((List.map_congr_left (h entry hentry)).trans (List.map_id _))
  exact (List.map_congr_left hentry).trans (List.map_id _)

theorem Moment.stored_of_isFinite {m : Moment} (h : m.isFinite = true) : m.stored = m := by
  obtain ⟨hvars, hentities⟩ := Bool.and_eq_true_iff.mp h
  have hstates : m.entities.map (fun entry => (entry.1, entry.2.map fun i =>
      (i.1, Value.storedFields i.2))) = m.entities := by
    refine map_entries_eq_self fun entry hentry i hi => Prod.ext rfl ?_
    exact Value.storedFields_of_finite
      (List.all_eq_true.mp (List.all_eq_true.mp hentities entry hentry) i hi)
  obtain ⟨step, time, vars, entities, events, rules⟩ := m
  simp only [Moment.stored, Value.storedFields_of_finite hvars]
  exact congrArg (Moment.mk step time vars · events rules) hstates

theorem World.stored_of_isFinite {w : World} (h : w.isFinite = true)
    (hhistory : w.history.all (·.isFinite) = true) : w.stored = w := by
  obtain ⟨hvars, hentities⟩ := Bool.and_eq_true_iff.mp h
  have hinstances : w.entities.map (fun entry => (entry.1, entry.2.map (·.stored))) =
      w.entities := by
    refine map_entries_eq_self fun entry hentry i hi => ?_
    have hstate := Value.storedFields_of_finite
      (List.all_eq_true.mp (List.all_eq_true.mp hentities entry hentry) i hi)
    rw [Instance.stored, hstate]
  have hmoments : w.history.map (·.stored) = w.history :=
    (List.map_congr_left fun m hm =>
      Moment.stored_of_isFinite (List.all_eq_true.mp hhistory m hm)).trans (List.map_id _)
  obtain ⟨time, step, entities, vars, history, totalSteps, stamp⟩ := w
  simp only [World.stored, Value.storedFields_of_finite hvars]
  simp only at hinstances hmoments
  rw [hinstances, hmoments]

theorem SimulationResult.stored_of_isFinite {r : SimulationResult} (h : r.isFinite = true) :
    r.stored = r := by
  obtain ⟨hworld, hhistory⟩ := Bool.and_eq_true_iff.mp h
  obtain ⟨hpresent, hpast⟩ := Bool.and_eq_true_iff.mp hworld
  have hmoments : r.history.map (·.stored) = r.history :=
    (List.map_congr_left fun m hm =>
      Moment.stored_of_isFinite (List.all_eq_true.mp hhistory m hm)).trans (List.map_id _)
  rw [SimulationResult.stored, World.stored_of_isFinite hpresent hpast, hmoments]

/-- What an archive can be asked to change. -/
inductive ArchiveCall where
  | saveRecord (s : Simulation)
  | setStatus (id : String) (status : SimulationStatus) (completedAt : Option Nat)
  | saveSnapshot (id : String) (step : Nat) (w : World)
  | saveResult (id : String) (r : SimulationResult)
  | delete (id : String)

namespace ArchiveCall

def task : ArchiveCall → Archive.Task Unit
  | .saveRecord s => Archive.saveRecord s
  | .setStatus id status completedAt => Archive.setStatus id status completedAt
  | .saveSnapshot id step w => Archive.saveSnapshot id step w
  | .saveResult id r => Archive.saveResult id r
  | .delete id => Archive.delete id

def inMemory (m : MemoryArchive) : ArchiveCall → MemoryArchive
  | .saveRecord s => m.saveRecord s
  | .setStatus id status completedAt => m.setStatus id status completedAt
  | .saveSnapshot id step w => m.saveSnapshot id step w
  | .saveResult id r => m.saveResult id r
  | .delete id => m.delete id

def owner : ArchiveCall → String
  | .saveRecord s => s.id
  | .setStatus id _ _ | .saveSnapshot id _ _ | .saveResult id _ | .delete id => id

/-- Files can hold what is to be kept: its floats are finite, its integers have not too many
digits, and its step names a file. -/
def Fits : ArchiveCall → Prop
  | .saveRecord s => s.document.isWritable = true
  | .setStatus _ _ completedAt => (optionalStamp completedAt).isWritable = true
  | .saveSnapshot _ step w => w.isFinite = true ∧
    (Value.map w.presentFields).isWritable = true ∧
    (snapshotName step).utf8ByteSize ≤ longestName
  | .saveResult _ r => r.isFinite = true ∧ r.document.isWritable = true
  | .delete _ => True

end ArchiveCall

namespace Archive

variable {base : Path} {m : MemoryArchive} {a : FileArchive} {id : String}

end Archive

end StepWorld
