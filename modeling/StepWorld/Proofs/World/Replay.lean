import Mathlib.Data.List.Nodup
import Mathlib.Data.List.Pairwise
import StepWorld.Proofs.World.Frame

/-! Worlds whose instances have ids of their own, and the replay of changes on them. A replay
finds an instance by its id alone, wherever it stands. -/

namespace StepWorld

theorem ne_underscore_of_mem_hexText {width n : Nat} {c : Char} (h : c ∈ hexText width n) :
    c ≠ '_' := by
  have hdigits : ∀ d < 16, Nat.digitChar d ≠ '_' := by decide
  obtain ⟨d, hd, rfl⟩ := exists_digit_of_mem_hexText h
  exact hdigits d hd

theorem takeWhile_numberedId (name : String) (n : Nat) :
    (numberedId name n).toList.reverse.takeWhile (· != '_') = (hexText 12 n).reverse := by
  have hreverse : (numberedId name n).toList.reverse =
      (hexText 12 n).reverse ++ '_' :: name.toList.reverse := by
    simp [numberedId, String.toList_append]
  rw [hreverse, List.takeWhile_append_of_pos fun c hc => ?_]
  · simp
  · simpa using ne_underscore_of_mem_hexText (List.mem_reverse.mp hc)

theorem numberedId_number {name other : String} {m n : Nat}
    (h : numberedId name m = numberedId other n) : m = n := by
  have htext : hexText 12 m = hexText 12 n := by
    have hsame := takeWhile_numberedId name m
    rw [h, takeWhile_numberedId other n] at hsame
    exact List.reverse_injective hsame.symm
  have hvalue := congrArg hexValue htext
  simpa only [hexText, hexValue_zeros, hexValue_toDigits] using hvalue

theorem numberedId_ne_first (name other : String) (n : Nat) : numberedId name n ≠ other ++ "_0" := by
  intro h
  have hdigits := congrArg List.length (takeWhile_numberedId name n)
  have hlong : 12 ≤ (hexText 12 n).length := by
    rw [hexText, List.length_append, List.length_replicate]
    omega
  rw [h, List.length_reverse] at hdigits
  simp [String.toList_append] at hdigits
  omega

namespace World

def inhabitants (w : World) : List Instance := w.entities.flatMap (·.2)

def ids (w : World) : List String := w.inhabitants.map (·.id)

def holder? (w : World) (id : String) : Option Instance := w.inhabitants.find? (·.id == id)

def assign (w : World) (id property : String) (value : Value) : World :=
  { w with
    entities := w.entities.map fun (type, is) =>
      (type, is.map fun i => if i.id = id then i.setProperty property value else i) }

def discard (w : World) (id : String) : World :=
  { w with entities := w.entities.map fun (type, is) => (type, is.filter (·.id != id)) }

end World

namespace Change

/-- Makes a change in a world. A new instance has the defaults of its declaration, overlaid with
the properties that the change lists. -/
def replay (b : Blueprint) (w : World) : Change → World
  | .assigned id property _ new | .modified id property _ new => w.assign id property new
  | .created id type properties =>
    (b.get? type).elim w fun entity => w.addInstance (entity.instantiate type id properties)
  | .removed id _ _ => w.discard id
  | .flagged .. => w

/-- Whether a change says of a world how it was. What is changed or removed is there, and the old
value is the present one. -/
def Fits (b : Blueprint) (w : World) : Change → Prop
  | .assigned id property old _ | .modified id property old _ =>
    ∃ i, w.holder? id = some i ∧ old = (i.state.get? property).getD .null
  | .created id type _ => id ∉ w.ids ∧ (b.get? type).isSome
  | .removed id _ state => ∃ i, w.holder? id = some i ∧ i.state = state
  | .flagged .. => False

def replayAll (b : Blueprint) (w : World) (changes : List Change) : World :=
  changes.foldl (replay b) w

def FitAll (b : Blueprint) : World → List Change → Prop
  | _, [] => True
  | w, c :: rest => c.Fits b w ∧ FitAll b (c.replay b w) rest

variable {b : Blueprint} {w : World}

theorem replayAll_append (first second : List Change) :
    replayAll b w (first ++ second) = replayAll b (replayAll b w first) second :=
  List.foldl_append

theorem fitAll_append {first second : List Change} :
    FitAll b w (first ++ second) ↔ FitAll b w first ∧ FitAll b (replayAll b w first) second := by
  induction first generalizing w with
  | nil => simp [FitAll, replayAll]
  | cons c rest ih => simp [FitAll, replayAll, ih, and_assoc]

theorem FitAll.fits {before after : List Change} {c : Change}
    (h : FitAll b w (before ++ c :: after)) : c.Fits b (replayAll b w before) :=
  (fitAll_append.mp h).2.1

theorem replay_kept (b : Blueprint) (w : World) (c : Change) :
    (c.replay b w).time = w.time ∧ (c.replay b w).step = w.step ∧ (c.replay b w).vars = w.vars ∧
      (c.replay b w).history = w.history ∧ (c.replay b w).totalSteps = w.totalSteps ∧
      (c.replay b w).stamp = w.stamp := by
  cases c with
  | created id type properties =>
    simp only [replay]
    cases b.get? type <;> exact ⟨rfl, rfl, rfl, rfl, rfl, rfl⟩
  | _ => exact ⟨rfl, rfl, rfl, rfl, rfl, rfl⟩

theorem replayAll_kept (b : Blueprint) (w : World) (changes : List Change) :
    (replayAll b w changes).time = w.time ∧ (replayAll b w changes).step = w.step ∧
      (replayAll b w changes).vars = w.vars ∧ (replayAll b w changes).history = w.history ∧
      (replayAll b w changes).totalSteps = w.totalSteps ∧
      (replayAll b w changes).stamp = w.stamp := by
  induction changes generalizing w with
  | nil => exact ⟨rfl, rfl, rfl, rfl, rfl, rfl⟩
  | cons c rest ih =>
    obtain ⟨htime, hstep, hvars, hhistory, htotal, hstamp⟩ := ih (c.replay b w)
    obtain ⟨htime', hstep', hvars', hhistory', htotal', hstamp'⟩ := replay_kept b w c
    exact ⟨htime.trans htime', hstep.trans hstep', hvars.trans hvars', hhistory.trans hhistory',
      htotal.trans htotal', hstamp.trans hstamp'⟩

end Change

namespace World

variable {w : World} {type id : String} {i : Instance}

theorem mem_inhabitants : i ∈ w.inhabitants ↔ ∃ entry ∈ w.entities, i ∈ entry.2 := by
  simp [inhabitants]

theorem mem_of_mem_instances (h : i ∈ w.instances type) : i ∈ w.inhabitants := by
  unfold instances at h
  cases hget : w.entities.get? type with
  | none => simp [hget] at h
  | some is =>
    rw [hget, Option.getD_some] at h
    exact mem_inhabitants.mpr ⟨_, Table.mem_of_get? hget, h⟩

theorem id_of_find? (h : w.find? type id = some i) : i.id = id := by
  simpa using List.find?_some h

theorem mem_of_find? (h : w.find? type id = some i) : i ∈ w.inhabitants :=
  mem_of_mem_instances (List.mem_of_find?_eq_some h)

theorem find?_of_first? (h : w.first? type = some i) : w.find? type i.id = some i := by
  unfold first? at h
  unfold find?
  cases his : w.instances type with
  | nil => simp [his] at h
  | cons first rest =>
    rw [his] at h
    cases h
    simp

theorem holder?_of_find? (hw : w.ids.Nodup) (h : w.find? type id = some i) :
    w.holder? id = some i := by
  have hmem := mem_of_find? h
  have hid := id_of_find? h
  subst hid
  have hpair : w.inhabitants.Pairwise fun a b => a.id ≠ b.id := List.pairwise_map.mp hw
  unfold holder?
  generalize w.inhabitants = is at hmem hpair
  clear h hw
  induction is with
  | nil => cases hmem
  | cons first rest ih =>
    rw [List.pairwise_cons] at hpair
    rcases List.mem_cons.mp hmem with rfl | hrest
    · simp
    · have hne : (first.id == i.id) = false := by simpa using hpair.1 i hrest
      rw [List.find?_cons, hne]
      exact ih hrest hpair.2

/-- A change of the one list in which an id stands is a change of all lists, if it does not
matter to the others. -/
theorem modify_eq_map {entities : Table (List Instance)} {f g : List Instance → List Instance}
    (hnodup : ((entities.flatMap (·.2)).map (·.id)).Nodup)
    (hfound : ∃ i ∈ (entities.get? type).getD [], i.id = id)
    (hsame : ∀ is : List Instance, (is.map (·.id)).Nodup → f is = g is)
    (hnone : ∀ is : List Instance, (∀ i ∈ is, i.id ≠ id) → g is = is) :
    entities.modify type f = entities.map fun (type, is) => (type, g is) := by
  have hkept {entities : Table (List Instance)}
      (h : ∀ i ∈ entities.flatMap (·.2), i.id ≠ id) :
      entities.map (fun (type, is) => (type, g is)) = entities := by
    refine (List.map_congr_left fun entry hentry => ?_).trans (List.map_id _)
    have hentry' : g entry.2 = entry.2 :=
      hnone _ fun i hi => h i (List.mem_flatMap.mpr ⟨entry, hentry, hi⟩)
    simp [hentry']
  induction entities with
  | nil =>
    obtain ⟨i, hi, -⟩ := hfound
    cases hi
  | cons entry rest ih =>
    obtain ⟨k, is⟩ := entry
    rw [List.flatMap_cons, List.map_append, List.nodup_append] at hnodup
    obtain ⟨hfirst, hrest, hapart⟩ := hnodup
    obtain ⟨i, hi, hid⟩ := hfound
    by_cases hk : k = type
    · subst hk
      have hi' : i ∈ is := by simpa [Table.get?] using hi
      have hothers : ∀ j ∈ rest.flatMap (·.2), j.id ≠ id := fun j hj he =>
        hapart i.id (List.mem_map_of_mem hi') j.id (List.mem_map_of_mem hj) (hid.trans he.symm)
      have htail := hkept hothers
      simp only [Table.modify, if_true, List.map_cons, htail, hsame is hfirst]
    · have hi' : i ∈ (Table.get? type rest).getD [] := by simpa [Table.get?, hk] using hi
      have hmem : i ∈ rest.flatMap (·.2) := by
        cases hget : Table.get? type rest with
        | none => simp [hget] at hi'
        | some js =>
          rw [hget, Option.getD_some] at hi'
          exact List.mem_flatMap.mpr ⟨_, Table.mem_of_get? hget, hi'⟩
      have hnot : ∀ j ∈ is, j.id ≠ id := fun j hj he =>
        hapart j.id (List.mem_map_of_mem hj) i.id (List.mem_map_of_mem hmem) (he.trans hid.symm)
      simp only [Table.modify, hk, if_false, List.map_cons, hnone is hnot,
        ih hrest ⟨i, hi', hid⟩]

theorem modifyFirst_eq_map {is : List Instance} {f : Instance → Instance}
    (h : (is.map (·.id)).Nodup) :
    modifyFirst id f is = is.map fun i => if i.id = id then f i else i := by
  induction is with
  | nil => rfl
  | cons first rest ih =>
    rw [List.map_cons, List.nodup_cons] at h
    by_cases hid : first.id = id
    · have hrest : rest.map (fun i => if i.id = id then f i else i) = rest := by
        refine (List.map_congr_left fun j hj => if_neg fun he => ?_).trans (List.map_id _)
        exact h.1 (hid.trans he.symm ▸ List.mem_map_of_mem hj)
      simp [modifyFirst, hid, hrest]
    · simp [modifyFirst, hid, ih h.2]

theorem eraseP_eq_filter {is : List Instance} (h : (is.map (·.id)).Nodup) :
    is.eraseP (·.id == id) = is.filter (·.id != id) := by
  induction is with
  | nil => rfl
  | cons first rest ih =>
    rw [List.map_cons, List.nodup_cons] at h
    by_cases hid : first.id = id
    · have hrest : rest.filter (·.id != id) = rest := by
        rw [List.filter_eq_self]
        intro j hj
        have hne : j.id ≠ id := fun he => h.1 (hid.trans he.symm ▸ List.mem_map_of_mem hj)
        simpa using hne
      simp [hid, hrest]
    · simp [hid, ih h.2]

theorem exists_of_find? (h : (w.find? type id).isSome) :
    ∃ i ∈ (w.entities.get? type).getD [], i.id = id := by
  obtain ⟨i, hi⟩ := Option.isSome_iff_exists.mp h
  exact ⟨i, List.mem_of_find?_eq_some hi, id_of_find? hi⟩

theorem modifyInstance_eq_assign (hw : w.ids.Nodup) (h : (w.find? type id).isSome)
    (property : String) (value : Value) :
    w.modifyInstance type id (·.setProperty property value) = w.assign id property value := by
  have hentities := modify_eq_map hw (exists_of_find? h)
    (fun is his => modifyFirst_eq_map (f := (·.setProperty property value)) his)
    fun is his => (List.map_congr_left fun i hi => if_neg (his i hi)).trans (List.map_id _)
  unfold modifyInstance assign
  rw [hentities]

theorem removeInstance_eq_discard (hw : w.ids.Nodup) (h : (w.find? type id).isSome) :
    w.removeInstance type id = w.discard id := by
  have hentities := modify_eq_map hw (exists_of_find? h) (fun is his => eraseP_eq_filter his)
    fun is his => List.filter_eq_self.mpr fun i hi => by simpa using his i hi
  unfold removeInstance discard
  rw [hentities]

theorem ids_assign (property : String) (value : Value) :
    (w.assign id property value).ids = w.ids := by
  have hlist (is : List Instance) :
      (is.map fun i => if i.id = id then i.setProperty property value else i).map (·.id) =
        is.map (·.id) := by
    rw [List.map_map]
    refine List.map_congr_left fun i _ => ?_
    by_cases hi : i.id = id <;> simp [Instance.setProperty, hi]
  simp only [ids, inhabitants, assign, List.map_flatMap, List.flatMap_map, hlist]

theorem get?_map_lists (f : List Instance → List Instance) (entities : Table (List Instance))
    (type : String) : (Table.get? type (entities.map fun (type, is) => (type, f is))).getD (f []) =
      f ((entities.get? type).getD []) := by
  induction entities with
  | nil => rfl
  | cons entry rest ih =>
    by_cases hk : entry.1 = type
    · simp [Table.get?, hk]
    · simpa [Table.get?, hk] using ih

theorem find?_assign (other : String) (property : String) (value : Value) :
    ((w.assign id property value).find? type other).isSome = (w.find? type other).isSome := by
  have hget := get?_map_lists
    (fun is => is.map fun i => if i.id = id then i.setProperty property value else i) w.entities type
  rw [List.map_nil] at hget
  unfold find? instances assign
  rw [hget, List.find?_map, Option.isSome_map]
  congr 1
  refine congrArg (List.find? · _) (funext fun i => ?_)
  by_cases hi : i.id = id <;> simp [Instance.setProperty, hi]

theorem find?_discard {other : String} (h : other ≠ id) :
    (w.discard id).find? type other = w.find? type other := by
  have hget := get?_map_lists (fun is => is.filter (·.id != id)) w.entities type
  rw [List.filter_nil] at hget
  unfold find? instances discard
  rw [hget, List.find?_filter]
  refine congrArg (List.find? · _) (funext fun i => ?_)
  by_cases hi : i.id = other
  · simp [hi, h]
  · simp [hi]

theorem ids_discard_sublist : (w.discard id).ids.Sublist w.ids := by
  unfold ids inhabitants discard
  refine List.Sublist.map _ ?_
  dsimp only
  generalize w.entities = entities
  induction entities with
  | nil => exact List.Sublist.refl _
  | cons entry rest ih =>
    rw [List.map_cons, List.flatMap_cons, List.flatMap_cons]
    exact List.filter_sublist.append ih

theorem ids_addInstance (w : World) (i : Instance) : (w.addInstance i).ids.Perm (i.id :: w.ids) := by
  have hput (entities : Table (List Instance)) :
      ((entities.put i.type ((entities.get? i.type).getD [] ++ [i])).flatMap (·.2)).Perm
        (i :: entities.flatMap (·.2)) := by
    induction entities with
    | nil => simp [Table.put, Table.get?]
    | cons entry rest ih =>
      obtain ⟨k, is⟩ := entry
      by_cases hk : k = i.type
      · simp only [Table.put, Table.get?, hk, if_true, Option.getD_some, List.flatMap_cons,
          List.append_assoc, List.singleton_append]
        exact List.perm_middle
      · simp only [Table.put, Table.get?, hk, if_false, List.flatMap_cons]
        exact (ih.append_left is).trans List.perm_middle
  exact (hput w.entities).map _

theorem type_unique {other : String} (hw : w.ids.Nodup) (h : (w.find? type id).isSome)
    (h' : (w.find? other id).isSome) : type = other := by
  have hentry {type : String} (h : (w.find? type id).isSome) :
      ∃ is, (type, is) ∈ w.entities ∧ id ∈ is.map (·.id) := by
    obtain ⟨i, hi, hid⟩ := exists_of_find? h
    cases hget : w.entities.get? type with
    | none => simp [hget] at hi
    | some is =>
      rw [hget, Option.getD_some] at hi
      exact ⟨is, Table.mem_of_get? hget, hid ▸ List.mem_map_of_mem hi⟩
  obtain ⟨is, his, hid⟩ := hentry h
  obtain ⟨js, hjs, hid'⟩ := hentry h'
  by_contra hne
  have hapart : w.entities.Pairwise fun a b => (a.2.map (·.id)).Disjoint (b.2.map (·.id)) := by
    rw [ids, inhabitants, List.map_flatMap] at hw
    exact (List.nodup_flatMap.mp hw).2
  have hsymmetric : Std.Symm fun a b : String × List Instance =>
      (a.2.map (·.id)).Disjoint (b.2.map (·.id)) := ⟨fun _ _ hab _ ha hb => hab hb ha⟩
  have hpair : (type, is) ≠ (other, js) := fun he => hne (congrArg Prod.fst he)
  exact hapart.forall his hjs hpair hid hid'

theorem find?_addInstance (i : Instance) (h : (w.find? type id).isSome) :
    ((w.addInstance i).find? type id).isSome := by
  have hget : (w.addInstance i).instances type =
      if type = i.type then w.instances i.type ++ [i] else w.instances type := by
    unfold instances addInstance
    rw [Table.get?_put]
    split <;> rfl
  unfold find? at h ⊢
  rw [hget]
  split
  · next ht =>
    subst ht
    rw [List.find?_append]
    simp [h]
  · exact h

end World

theorem ids_build (b : Blueprint) (stamp : Nat) :
    (b.build stamp).ids = b.keys.map (· ++ "_0") := by
  unfold World.ids World.inhabitants Blueprint.build Table.keys
  induction b with
  | nil => rfl
  | cons entry rest ih =>
    rw [List.map_cons, List.flatMap_cons, List.map_append, ih]
    rfl

theorem ids_create (entities : List EntityDecl) (stamp : Nat) :
    (Realm.create entities stamp).world.ids.Nodup ∧
      ∀ name n, numberedId name n ∉ (Realm.create entities stamp).world.ids := by
  have hids : (Realm.create entities stamp).world.ids =
      (Blueprint.ofEntities entities).keys.map (· ++ "_0") := ids_build _ _
  rw [hids]
  refine ⟨(Table.keys_ofEntries_nodup _).map fun a b hab => ?_, fun name n hmem => ?_⟩
  · have hlist := congrArg String.toList hab
    exact String.toList_inj.mp (by simpa [String.toList_append] using hlist)
  · obtain ⟨key, -, hkey⟩ := List.mem_map.mp hmem
    exact numberedId_ne_first name key n hkey.symm

end StepWorld
