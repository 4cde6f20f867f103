import StepWorld.Proofs.World.Addressed
import StepWorld.Proofs.World.Upkeep

/-! Worlds in order. Events and rules change neither who is there nor the order, so that a world
stays as its declarations make it while a step runs in it, and whatever is asked from outside. -/

namespace StepWorld

namespace World

def SameLineup (w v : World) : Prop := v.lineup = w.lineup

instance : Std.Refl SameLineup := ⟨fun _ => rfl⟩

instance : Trans SameLineup SameLineup SameLineup :=
  ⟨fun {u v w} (h : v.lineup = u.lineup) (h' : w.lineup = v.lineup) => h'.trans h⟩

variable {b : Blueprint} {w v : World}

theorem SameLineup.keys (h : w.SameLineup v) : v.entities.keys = w.entities.keys := by
  have hkeys (w : World) : w.lineup.keys = w.entities.keys := by
    unfold lineup Table.keys
    rw [List.map_map]
    rfl
  rw [← hkeys, h, hkeys]

theorem SameLineup.ids (h : w.SameLineup v) : v.ids = w.ids := by
  have hids (w : World) : (w.lineup.flatMap (·.2)).map Instance.id = w.ids := by
    unfold lineup World.ids inhabitants
    simp only [List.map_flatMap, List.flatMap_map, List.map_map]
    rfl
  rw [← hids, h, hids]

theorem Filed.lined (hw : w.Filed b) (h : w.SameLineup v) : v.Filed b := by
  intro entry hentry i hi
  have hmem : (entry.1, entry.2.map Instance.bare) ∈ w.lineup :=
    h ▸ List.mem_map_of_mem hentry
  obtain ⟨⟨type, is⟩, hold, heq⟩ := List.mem_map.mp hmem
  obtain ⟨rfl, hbare⟩ := Prod.mk.inj heq
  obtain ⟨j, hj, hji⟩ := List.mem_map.mp (hbare ▸ List.mem_map_of_mem hi)
  obtain ⟨htype, hevents⟩ := hw _ hold j hj
  exact ⟨(congrArg Instance.type hji).symm.trans htype,
    hevents.trans (congrArg (some ·.events) hji)⟩

end World

theorem Realm.Kept.lined {issued : Nat} {entities : List EntityDecl} {r : Realm} {v : World}
    (h : r.Kept issued entities) (hsame : r.world.SameLineup v) :
    { r with world := v }.Kept issued entities :=
  h.withWorld hsame.keys (h.filed.lined hsame) (hsame.ids ▸ List.Sublist.refl _)

namespace Arena

def InOrder (a : Arena) : Prop :=
  ∀ id r, a.realms.get? id = some r → ∃ entities, r.Kept a.ambient.issued entities

variable {a b : Arena} {id : String}

theorem Kept.inOrder {known : Table (List EntityDecl)} (h : a.Kept known) : a.InOrder := by
  intro id r hr
  have hknown : (known.get? id).isSome := by
    rw [Table.isSome_get?_iff, ← h.keys, ← Table.isSome_get?_iff, hr]
    rfl
  obtain ⟨entities, hentities⟩ := Option.isSome_iff_exists.mp hknown
  obtain ⟨r', hr', hkept⟩ := h.realms id entities hentities
  exact ⟨entities, Option.some.inj (hr.symm.trans hr') ▸ hkept⟩

open Classical in
theorem InOrder.exists_kept (h : a.InOrder) : ∃ known, a.Kept known := by
  let declared (r : Realm) : List EntityDecl :=
    if hr : ∃ entities, r.Kept a.ambient.issued entities then hr.choose else []
  refine ⟨a.realms.map fun (k, r) => (k, declared r), ?_, fun k entities hk => ?_⟩
  · unfold Table.keys
    rw [List.map_map]
    rfl
  · have hget : Table.get? k (a.realms.map fun (k, r) => (k, declared r)) =
        (a.realms.get? k).map declared := by
      induction a.realms with
      | nil => rfl
      | cons entry rest ih =>
        by_cases hkey : entry.1 = k
        · simp [Table.get?, hkey]
        · simpa [Table.get?, hkey] using ih
    rw [hget] at hk
    obtain ⟨r, hr, rfl⟩ := Option.map_eq_some_iff.mp hk
    have hexists := h k r hr
    refine ⟨r, hr, ?_⟩
    simp only [declared, dif_pos hexists]
    exact hexists.choose_spec

namespace InOrder

theorem later (h : a.InOrder) {ambient : Ambient} (hle : a.ambient.issued ≤ ambient.issued) :
    { a with ambient }.InOrder := by
  intro k r hr
  obtain ⟨entities, hkept⟩ := h k r hr
  exact ⟨entities, hkept.later hle⟩

theorem of_realms (h : a.InOrder) (hrealms : b.realms = a.realms)
    (hle : a.ambient.issued ≤ b.ambient.issued) : b.InOrder := by
  obtain ⟨realms, ambient⟩ := b
  obtain rfl : realms = a.realms := hrealms
  exact h.later hle

theorem create (h : a.InOrder) (id : String) (entities : List EntityDecl) :
    (a.create id entities).InOrder := by
  obtain ⟨known, hknown⟩ := h.exists_kept
  exact (hknown.create id entities).inOrder

theorem delete (h : a.InOrder) (id : String) : (a.delete id).InOrder := by
  obtain ⟨known, hknown⟩ := h.exists_kept
  exact (hknown.delete id).inOrder

theorem grantAll (h : a.InOrder) (requests : List Upkeep) : (a.grantAll requests).InOrder := by
  obtain ⟨known, hknown⟩ := h.exists_kept
  exact (hknown.grantAll requests).inOrder

theorem along {k : String} (h : a.InOrder) (hadvances : a.Advances b)
    (halong : Along World.SameLineup k a b) : b.InOrder := by
  intro id r' hr'
  have hsome : (a.realms.get? id).isSome := by
    rw [← hadvances.realms, hr']
    rfl
  obtain ⟨r, hr⟩ := Option.isSome_iff_exists.mp hsome
  obtain ⟨entities, hkept⟩ := h id r hr
  have hkept := hkept.later hadvances.ambient.issued
  refine ⟨entities, ?_⟩
  by_cases hid : id = k
  · subst hid
    have hblueprint := hadvances.blueprints id
    rw [hr, hr'] at hblueprint
    obtain ⟨v, hv, hsame⟩ := halong.own r.world (by rw [world?, hr]; rfl)
    obtain rfl : r'.world = v := by
      rw [world?, hr'] at hv
      exact Option.some.inj hv
    have hmade : r' = { r with world := r'.world } := by
      obtain ⟨blueprint, world⟩ := r'
      exact congrArg (Realm.mk · world) (Option.some.inj hblueprint)
    exact hmade ▸ hkept.lined hsame
  · rw [halong.others id hid] at hr'
    exact Option.some.inj (hr.symm.trans hr') ▸ hkept

end InOrder

end Arena

/-! ### Events and rules -/

theorem lined_runEvent {programs : Programs} {r : Request} (h : r.Sourced programs) :
    Moves (Arena.Along World.SameLineup r.worldId) (runEvent programs r) := fun a =>
  (keptBut_runEvent h a).mono fun _ _ hkept => hkept.lineup

theorem lined_runRule (programs : Programs) (r : Request) :
    Moves (Arena.Along World.SameLineup r.worldId) (runRule programs r) :=
  along_runRule ⟨fun _ _ _ => rfl, fun _ _ => rfl⟩ programs r

end StepWorld
