import StepWorld.Proofs.World.Replay
import StepWorld.Proofs.World.Types

/-! Instances under their types. Whatever is set, added or removed, every instance of a world stands
under its own type and knows the events that this type was declared with. -/

namespace StepWorld

namespace World

variable {b : Blueprint} {w : World} {type id : String}

/-- Every instance stands under its type and knows the events that this was declared with. -/
def Filed (b : Blueprint) (w : World) : Prop :=
  ∀ entry ∈ w.entities, ∀ i ∈ entry.2,
    i.type = entry.1 ∧ (b.get? entry.1).map EntityDecl.eventNames = some i.events

theorem Filed.modify (h : w.Filed b) {f : List Instance → List Instance}
    (hf : ∀ is, ∀ i ∈ f is, ∃ j ∈ is, i.type = j.type ∧ i.events = j.events) :
    { w with entities := w.entities.modify type f }.Filed b := by
  intro entry hentry i hi
  rcases Table.mem_modify hentry with hold | ⟨is, his, rfl⟩
  · exact h entry hold i hi
  · obtain ⟨j, hj, htype, hevents⟩ := hf is i hi
    obtain ⟨hjtype, hjevents⟩ := h _ his j hj
    exact ⟨htype.trans hjtype, hevents ▸ hjevents⟩

theorem mem_modifyFirst {f : Instance → Instance} {is : List Instance} {i : Instance}
    (h : i ∈ modifyFirst id f is) : i ∈ is ∨ ∃ j ∈ is, i = f j := by
  induction is with
  | nil => cases h
  | cons first rest ih =>
    unfold modifyFirst at h
    split at h
    · rcases List.mem_cons.mp h with rfl | h
      · exact .inr ⟨first, List.mem_cons_self, rfl⟩
      · exact .inl (List.mem_cons_of_mem _ h)
    · rcases List.mem_cons.mp h with rfl | h
      · exact .inl List.mem_cons_self
      · rcases ih h with h | ⟨j, hj, rfl⟩
        · exact .inl (List.mem_cons_of_mem _ h)
        · exact .inr ⟨j, List.mem_cons_of_mem _ hj, rfl⟩

theorem Filed.modifyInstance (h : w.Filed b) {f : Instance → Instance}
    (hf : ∀ i, (f i).type = i.type ∧ (f i).events = i.events) :
    (w.modifyInstance type id f).Filed b := by
  refine h.modify fun is i hi => ?_
  rcases mem_modifyFirst hi with hi | ⟨j, hj, rfl⟩
  · exact ⟨i, hi, rfl, rfl⟩
  · exact ⟨j, hj, hf j⟩

theorem Filed.removeInstance (h : w.Filed b) : (w.removeInstance type id).Filed b :=
  h.modify fun _ i hi => ⟨i, List.mem_of_mem_eraseP hi, rfl, rfl⟩

theorem Filed.addInstance (h : w.Filed b) {entity : EntityDecl}
    (hentity : b.get? type = some entity) (properties : Record) :
    (w.addInstance (entity.instantiate type id properties)).Filed b := by
  intro entry hentry i hi
  rcases Table.mem_put hentry with hold | rfl
  · exact h entry hold i hi
  · rcases List.mem_append.mp hi with hi | hi
    · unfold instances at hi
      cases his : w.entities.get? type with
      | none =>
        rw [show (entity.instantiate type id properties).type = type from rfl, his] at hi
        cases hi
      | some is =>
        rw [show (entity.instantiate type id properties).type = type from rfl, his] at hi
        exact h _ (Table.mem_of_get? his) i hi
    · obtain rfl := List.mem_singleton.mp hi
      exact ⟨rfl, congrArg (Option.map _) hentity⟩

theorem filed_build (hb : b.keys.Nodup) (stamp : Nat) : (b.build stamp).Filed b := by
  intro entry hentry i hi
  obtain ⟨declared, hdeclared, rfl⟩ := List.mem_map.mp hentry
  obtain rfl := List.mem_singleton.mp hi
  exact ⟨rfl, congrArg (Option.map _) (Table.get?_of_mem hb hdeclared)⟩

theorem ids_modify_sublist {f : List Instance → List Instance}
    (hf : ∀ is, ((f is).map (·.id)).Sublist (is.map (·.id))) :
    { w with entities := w.entities.modify type f }.ids.Sublist w.ids := by
  unfold ids inhabitants
  dsimp only
  rw [List.map_flatMap, List.map_flatMap]
  generalize w.entities = entities
  induction entities with
  | nil => exact List.Sublist.refl _
  | cons entry rest ih =>
    unfold Table.modify
    split
    · exact (hf entry.2).append (List.Sublist.refl _)
    · exact (List.Sublist.refl _).append ih

theorem map_modifyFirst {α : Type} {g : Instance → α} {f : Instance → Instance}
    (hg : ∀ i, g (f i) = g i) (is : List Instance) : (modifyFirst id f is).map g = is.map g := by
  induction is with
  | nil => rfl
  | cons first rest ih =>
    unfold modifyFirst
    split
    · rw [List.map_cons, List.map_cons, hg]
    · rw [List.map_cons, List.map_cons, ih]

end World

end StepWorld
