import Mathlib.Data.List.Nodup
import StepWorld.Table

/-! Tables under look-ups and changes: which keys there are, in which order, and what stands
under them. -/

namespace StepWorld

namespace Table

variable {α : Type}

theorem get?_modify (key other : String) (f : α → α) (t : Table α) :
    get? other (modify key f t) = if other = key then (get? other t).map f else get? other t := by
  induction t with
  | nil => simp [modify, get?]
  | cons entry rest ih =>
    obtain ⟨k, v⟩ := entry
    by_cases hk : k = key
    · subst hk
      by_cases h : k = other
      · simp [modify, get?, h]
      · simp [modify, get?, h, Ne.symm h]
    · by_cases h : k = other
      · subst h
        simp [modify, get?, hk]
      · simp [modify, get?, hk, h, ih]

theorem isSome_get?_modify (key other : String) (f : α → α) (t : Table α) :
    (get? other (modify key f t)).isSome = (get? other t).isSome := by
  rw [get?_modify]
  split <;> simp

theorem modify_same (key : String) (t : Table α) : modify key (fun a => a) t = t := by
  induction t with
  | nil => rfl
  | cons entry rest ih => simp [modify, ih]

theorem keys_modify (key : String) (f : α → α) (t : Table α) :
    (t.modify key f).keys = t.keys := by
  induction t with
  | nil => rfl
  | cons entry rest ih =>
    unfold modify
    split
    · rfl
    · exact congrArg (entry.1 :: ·) ih

theorem get?_put_self (key : String) (value : α) (t : Table α) :
    (t.put key value).get? key = some value := by
  rw [get?_put, if_pos rfl]

theorem keys_put (key : String) (value : α) (t : Table α) :
    (t.put key value).keys = if key ∈ t.keys then t.keys else t.keys ++ [key] := by
  induction t with
  | nil => rfl
  | cons entry rest ih =>
    obtain ⟨k, v⟩ := entry
    by_cases hk : k = key
    · simp [put, keys, hk]
    · simp only [keys] at ih
      have hk' : ¬ key = k := Ne.symm hk
      simp only [put, hk, hk', if_false, keys, List.map_cons, ih, List.mem_cons, false_or]
      by_cases hmem : key ∈ rest.map Prod.fst <;> simp [hmem]

theorem nodup_keys_put {t : Table α} (h : t.keys.Nodup) (key : String) (value : α) :
    (t.put key value).keys.Nodup := by
  rw [keys_put]
  split
  · exact h
  · next hnot =>
    refine List.nodup_append.mpr ⟨h, List.nodup_singleton _, fun k hk l hl he => hnot ?_⟩
    rwa [← List.mem_singleton.mp hl, ← he]

theorem keys_ofEntries_nodup (entries : List (String × α)) : (ofEntries entries).keys.Nodup := by
  have hfold (t : Table α) (ht : t.keys.Nodup) : (putAll t entries).keys.Nodup := by
    unfold putAll
    induction entries generalizing t with
    | nil => exact ht
    | cons entry rest ih => exact ih _ (nodup_keys_put ht _ _)
  exact hfold [] List.nodup_nil

theorem put_of_notMem {t : Table α} {key : String} (h : key ∉ t.keys) (value : α) :
    t.put key value = t ++ [(key, value)] := by
  induction t with
  | nil => rfl
  | cons entry rest ih =>
    have hne : entry.1 ≠ key := fun heq => h (heq ▸ List.mem_cons_self)
    have hrest := ih fun hmem => h (List.mem_cons_of_mem _ hmem)
    simp [put, hne, hrest]

theorem ofEntries_of_nodup {entries : Table α} (h : entries.keys.Nodup) :
    ofEntries entries = entries := by
  have hfold (t : Table α) (ht : (t ++ entries).keys.Nodup) : putAll t entries = t ++ entries := by
    unfold putAll
    clear h
    induction entries generalizing t with
    | nil => exact (List.append_nil t).symm
    | cons entry rest ih =>
      have hkeys : (t.keys ++ entry.1 :: Table.keys rest).Nodup := by simpa [keys] using ht
      have hfresh : entry.1 ∉ t.keys := fun hmem =>
        (List.nodup_append.mp hkeys).2.2 _ hmem _ List.mem_cons_self rfl
      rw [List.foldl_cons, put_of_notMem hfresh, ih _ (by simpa [keys] using ht)]
      simp
  exact hfold [] h

theorem get?_of_mem {t : Table α} (h : t.keys.Nodup) {entry : String × α}
    (hmem : entry ∈ t) : t.get? entry.1 = some entry.2 := by
  induction t with
  | nil => cases hmem
  | cons first rest ih =>
    have hnodup := List.nodup_cons.mp h
    rcases List.mem_cons.mp hmem with rfl | hmem
    · exact if_pos rfl
    · refine (if_neg fun hkey => hnodup.1 ?_).trans (ih hnodup.2 hmem)
      exact hkey ▸ List.mem_map_of_mem hmem

theorem mem_of_get? {t : Table α} {key : String} {a : α} (h : t.get? key = some a) :
    (key, a) ∈ t := by
  induction t with
  | nil => cases h
  | cons entry rest ih =>
    obtain ⟨k, v⟩ := entry
    unfold get? at h
    split at h
    · next hk =>
      cases h
      rw [hk]
      exact List.mem_cons_self
    · exact List.mem_cons_of_mem _ (ih h)

theorem get?_append (t u : Table α) (key : String) :
    get? key (t ++ u) = (get? key t).or (get? key u) := by
  induction t with
  | nil => rfl
  | cons entry rest ih =>
    rw [List.cons_append, get?, get?, ih]
    split <;> rfl

theorem get?_of_perm {t u : Table α} (h : t.Perm u) (hkeys : t.keys.Nodup) (key : String) :
    t.get? key = u.get? key := by
  induction h with
  | nil => rfl
  | cons entry _ ih =>
    have hrest := ih (List.nodup_cons.mp hkeys).2
    simp only [get?, hrest]
  | swap first second rest =>
    have hne : second.1 ≠ first.1 := fun heq =>
      (List.nodup_cons.mp hkeys).1 (heq ▸ List.mem_cons_self)
    by_cases hfirst : first.1 = key
    · have hsecond : second.1 ≠ key := fun heq => hne (heq.trans hfirst.symm)
      simp [get?, hfirst, hsecond]
    · simp [get?, hfirst]
  | trans h _ ih ih' =>
    exact (ih hkeys).trans (ih' ((h.map Prod.fst).nodup_iff.mp hkeys))

theorem isSome_get?_iff {t : Table α} {key : String} :
    (t.get? key).isSome ↔ key ∈ t.keys := by
  induction t with
  | nil => simp [get?, keys]
  | cons entry rest ih =>
    unfold get?
    split
    · next heq => simp [keys, heq]
    · next hne =>
      rw [ih]
      simp [keys, Ne.symm hne]

theorem get?_of_remove {t : Table α} {key other : String} {a : α}
    (h : (t.remove key).get? other = some a) : other ≠ key ∧ t.get? other = some a := by
  rw [get?_remove] at h
  split at h
  · cases h
  · next hne => exact ⟨hne, h⟩

theorem forall_get?_put {P : String → α → Prop} {t : Table α} {key : String} {value : α}
    (hvalue : P key value) (h : ∀ other a, other ≠ key → t.get? other = some a → P other a) :
    ∀ other a, (t.put key value).get? other = some a → P other a := by
  intro other a ha
  rw [get?_put] at ha
  split at ha
  · next heq =>
    cases ha
    exact heq ▸ hvalue
  · next hne => exact h other a hne ha

theorem mem_or_get?_of_putAll {t entries : Table α} {key : String} {value : α}
    (h : (t.putAll entries).get? key = some value) :
    (key, value) ∈ entries ∨ t.get? key = some value := by
  unfold putAll at h
  induction entries generalizing t with
  | nil => exact .inr h
  | cons entry rest ih =>
    rcases ih h with hmem | hget
    · exact .inl (List.mem_cons_of_mem _ hmem)
    · rw [get?_put] at hget
      split at hget
      · next heq =>
        cases hget
        exact .inl (heq ▸ List.mem_cons_self)
      · exact .inr hget

theorem mem_modify {t : Table α} {key : String} {entry : String × α} {f : α → α}
    (h : entry ∈ t.modify key f) :
    entry ∈ t ∨ ∃ a, (key, a) ∈ t ∧ entry = (key, f a) := by
  induction t with
  | nil => cases h
  | cons first rest ih =>
    obtain ⟨k, v⟩ := first
    unfold modify at h
    split at h
    · next heq =>
      subst heq
      rcases List.mem_cons.mp h with rfl | h
      · exact .inr ⟨v, List.mem_cons_self, rfl⟩
      · exact .inl (List.mem_cons_of_mem _ h)
    · rcases List.mem_cons.mp h with rfl | h
      · exact .inl List.mem_cons_self
      · rcases ih h with hold | ⟨a, ha, hentry⟩
        · exact .inl (List.mem_cons_of_mem _ hold)
        · exact .inr ⟨a, List.mem_cons_of_mem _ ha, hentry⟩

theorem mem_put {t : Table α} {key : String} {entry : String × α} {value : α}
    (h : entry ∈ t.put key value) : entry ∈ t ∨ entry = (key, value) := by
  induction t with
  | nil => exact .inr (List.mem_singleton.mp h)
  | cons first rest ih =>
    obtain ⟨k, v⟩ := first
    unfold put at h
    split at h
    · next heq =>
      rcases List.mem_cons.mp h with rfl | h
      · exact .inr (by rw [heq])
      · exact .inl (List.mem_cons_of_mem _ h)
    · rcases List.mem_cons.mp h with rfl | h
      · exact .inl List.mem_cons_self
      · exact (ih h).imp (List.mem_cons_of_mem _) id

theorem keys_remove (key : String) (t : Table α) :
    (t.remove key).keys = t.keys.filter (· != key) :=
  (List.filter_map (f := Prod.fst) (p := (· != key)) (l := t)).symm

end Table

end StepWorld
