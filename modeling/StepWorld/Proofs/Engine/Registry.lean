import StepWorld.Proofs.Engine.Deeds
import StepWorld.Proofs.World.Types

/-! The registry of specifications. A specification is its source, the program of that source, what
is said of the program, and a world. Whatever is called, the four agree. -/

namespace StepWorld

/-! ### What is registered -/

theorem prefix_duplicatesAfter (seen found names : List String) :
    found <+: duplicatesAfter seen found names := by
  induction names generalizing seen found with
  | nil => exact List.prefix_refl found
  | cons name names ih =>
    unfold duplicatesAfter
    refine List.IsPrefix.trans ?_ (ih _ _)
    split
    · exact List.prefix_append found [name]
    · exact List.prefix_refl found

theorem duplicatesAfter_eq_nil {seen names : List String}
    (h : duplicatesAfter seen [] names = []) :
    names.Nodup ∧ ∀ name ∈ names, name ∉ seen := by
  induction names generalizing seen with
  | nil => exact ⟨List.nodup_nil, fun _ hname => absurd hname List.not_mem_nil⟩
  | cons name names ih =>
    rw [duplicatesAfter] at h
    split at h
    · have hprefix := prefix_duplicatesAfter (name :: seen) ([] ++ [name]) names
      rw [h] at hprefix
      exact absurd (List.prefix_nil.mp hprefix) (List.cons_ne_nil _ _)
    · next hseen =>
      obtain ⟨hnodup, hapart⟩ := ih h
      refine ⟨List.nodup_cons.mpr ⟨fun hmem => ?_, hnodup⟩, ?_⟩
      · exact hapart name hmem List.mem_cons_self
      · intro other hother
        rcases List.mem_cons.mp hother with rfl | hother
        · simpa using hseen
        · exact fun hmem => hapart other hother (List.mem_cons_of_mem _ hmem)

theorem nodup_of_duplicates {names : List String} (h : duplicates names = []) : names.Nodup :=
  (duplicatesAfter_eq_nil h).1

/-- A specification tells what its source and its program hold. -/
structure Specification.Faithful (s : Specification) : Prop where
  program : readProgram s.source = .ok s.program
  entities : s.program.entities ≠ []
  entityNames : (s.program.entities.map (·.name)).Nodup
  ruleNames : (s.program.rules.map (·.name)).Nodup
  entityCount : s.entityCount = s.program.entities.length
  ruleCount : s.ruleCount = s.program.rules.length
  hasTemporal : s.hasTemporal = s.program.hasTemporal
  hasProbability : s.hasProbability = s.program.hasProbability

theorem registrable_eq_ok {source : String} {p : Program} (h : registrable source = .ok p) :
    readProgram source = .ok p ∧ p.entities ≠ [] ∧ (p.entities.map (·.name)).Nodup ∧
      (p.rules.map (·.name)).Nodup := by
  unfold registrable at h
  split at h
  · cases h
  · cases h
  · cases h
  · next p' hread =>
    split at h
    · next hproblems =>
      cases h
      obtain ⟨hduplicates, hempty⟩ := List.append_eq_nil_iff.mp hproblems
      obtain ⟨hentities, hrules⟩ := List.append_eq_nil_iff.mp hduplicates
      refine ⟨hread, ?_, nodup_of_duplicates (List.map_eq_nil_iff.mp hentities),
        nodup_of_duplicates (List.map_eq_nil_iff.mp hrules)⟩
      intro hnone
      rw [hnone] at hempty
      cases hempty
    · cases h

theorem Specification.faithful_create {source : String} {p : Program}
    (h : registrable source = .ok p) (name description : Option String) (stamp : Nat) :
    (Specification.create source p name description stamp).Faithful := by
  obtain ⟨hread, hentities, hnames, hrules⟩ := registrable_eq_ok h
  exact ⟨hread, hentities, hnames, hrules, rfl, rfl, rfl, rfl⟩

theorem Specification.Faithful.renamed {s : Specification} (h : s.Faithful)
    (name description : Option String) (stamp : Nat) :
    (s.revise s.source s.program name description stamp).Faithful :=
  ⟨h.program, h.entities, h.entityNames, h.ruleNames, rfl, rfl, rfl, rfl⟩

theorem Specification.faithful_revise (s : Specification) {source : String} {p : Program}
    (h : registrable source = .ok p) (name description : Option String) (stamp : Nat) :
    (s.revise source p name description stamp).Faithful := by
  obtain ⟨hread, hentities, hnames, hrules⟩ := registrable_eq_ok h
  exact ⟨hread, hentities, hnames, hrules, rfl, rfl, rfl, rfl⟩

/-- Registering, revising and deleting specifications, and running their events and rules by
hand. -/
def Deed.managesSpecifications : Deed → Bool
  | .register .. | .revise .. | .withdraw _ | .runEvent _ | .runRule _ => true
  | _ => false

namespace Engine

variable {e f : Engine} {id : String}

/-- Every specification is faithful, has a world of its types and an id that was given out, and
there are no other worlds. -/
structure Consistent (e : Engine) : Prop where
  faithful : ∀ id s, e.specifications.get? id = some s → s.Faithful
  housed : ∀ id s, e.specifications.get? id = some s → e.arena.Houses id s.program.entities
  numbered : ∀ id s, e.specifications.get? id = some s →
    ∃ n ≤ e.arena.ambient.issued, id = numberedId "spec" n
  alone : ∀ id, e.specifications.get? id = none → e.arena.realms.get? id = none

namespace Consistent

theorem numberedLater (h : e.Consistent) {issued : Nat} (hle : e.arena.ambient.issued ≤ issued)
    (id : String) (s : Specification) (hs : e.specifications.get? id = some s) :
    ∃ n ≤ issued, id = numberedId "spec" n := by
  obtain ⟨n, hn, hid⟩ := h.numbered id s hs
  exact ⟨n, Nat.le_trans hn hle, hid⟩

theorem later (h : e.Consistent) {ambient : Ambient}
    (hle : e.arena.ambient.issued ≤ ambient.issued) :
    { e with arena := { e.arena with ambient } }.Consistent :=
  ⟨h.faithful, h.housed, h.numberedLater hle, h.alone⟩

theorem install (h : e.Consistent) {s : Specification} (hs : s.Faithful)
    (hid : ∃ n ≤ e.arena.ambient.issued, id = numberedId "spec" n) :
    (e.install id s).Consistent where
  faithful := Table.forall_get?_put hs fun k t _ ht => h.faithful k t ht
  housed := by
    refine Table.forall_get?_put (e.arena.houses_create id _) fun k t hk ht => ?_
    obtain ⟨realm, hrealm, hhoused⟩ := h.housed k t ht
    refine ⟨realm, ?_, hhoused⟩
    change (e.arena.realms.put id _).get? k = some realm
    rw [Table.get?_put, if_neg hk, hrealm]
  numbered := Table.forall_get?_put hid fun k t _ ht => h.numbered k t ht
  alone k hk := by
    have hk : (e.specifications.put id s).get? k = none := hk
    rw [Table.get?_put] at hk
    split at hk
    · cases hk
    · next hne =>
      change (e.arena.realms.put id _).get? k = none
      rw [Table.get?_put, if_neg hne]
      exact h.alone k hk

theorem register (h : e.Consistent) (source : String) (name description : Option String) :
    (e.register source name description).2.Consistent := by
  unfold Engine.register
  split
  · split
    · exact h.later (Nat.le_refl _)
    · exact h
  · next p hsource =>
    have hissued : (e.tick.2.issue "spec").2.Consistent := h.later (Nat.le_succ _)
    have hinstalled := hissued.install (Specification.faithful_create hsource name description
      e.tick.1) ⟨_, Nat.le_refl _, rfl⟩
    exact hinstalled.later (Nat.le_refl _)

theorem renamed (h : e.Consistent) {s t : Specification} (hs : e.specifications.get? id = some s)
    (ht : t.Faithful) (hprogram : t.program = s.program) :
    { e with specifications := e.specifications.put id t }.Consistent where
  faithful := Table.forall_get?_put ht fun k u _ hu => h.faithful k u hu
  housed := Table.forall_get?_put (hprogram ▸ h.housed id s hs) fun k u _ hu => h.housed k u hu
  numbered := Table.forall_get?_put (h.numbered id s hs) fun k u _ hu => h.numbered k u hu
  alone k hk := by
    have hk : (e.specifications.put id t).get? k = none := hk
    rw [Table.get?_put] at hk
    split at hk
    · cases hk
    · exact h.alone k hk

theorem revise (h : e.Consistent) {source name description : Option String}
    (hrevise : e.revise id source name description = .ok f) : f.Consistent := by
  have hticked : e.tick.2.Consistent := h.later (Nat.le_refl _)
  cases hs : e.specifications.get? id with
  | none =>
    simp only [Engine.revise, hs] at hrevise
    cases hrevise
  | some s =>
    cases source with
    | none =>
      simp only [Engine.revise, hs] at hrevise
      cases hrevise
      exact hticked.renamed hs ((h.faithful id s hs).renamed name description _) rfl
    | some source =>
      cases hsource : registrable source with
      | error refusal =>
        simp only [Engine.revise, hs, hsource] at hrevise
        cases hrevise
      | ok p =>
        simp only [Engine.revise, hs, hsource] at hrevise
        cases hrevise
        exact hticked.install (s.faithful_revise hsource name description _) (h.numbered id s hs)

theorem withdraw (h : e.Consistent) (id : String) :
    { e with specifications := e.specifications.remove id
             schedule := e.schedule.unlock id
             arena := e.arena.delete id }.Consistent where
  faithful k t ht := h.faithful k t (Table.get?_of_remove ht).2
  housed k t ht := by
    obtain ⟨hk, ht⟩ := Table.get?_of_remove ht
    obtain ⟨realm, hrealm, hhoused⟩ := h.housed k t ht
    refine ⟨realm, ?_, hhoused⟩
    change (e.arena.realms.remove id).get? k = some realm
    rw [Table.get?_remove, if_neg hk, hrealm]
  numbered k t ht := h.numbered k t (Table.get?_of_remove ht).2
  alone k hk := by
    have hk : (e.specifications.remove id).get? k = none := hk
    change (e.arena.realms.remove id).get? k = none
    rw [Table.get?_remove] at hk ⊢
    split at hk
    · next heq => rw [if_pos heq]
    · next hne =>
      rw [if_neg hne]
      exact h.alone k hk

theorem along (h : e.Consistent) {k : String} {arena : Arena} (hadvances : e.arena.Advances arena)
    (halong : Arena.Along World.SameTypes k e.arena arena) : { e with arena }.Consistent where
  faithful := h.faithful
  housed id s hs := (h.housed id s hs).along hadvances halong
  numbered := h.numberedLater hadvances.ambient.issued
  alone id hid := by
    have hrealm := hadvances.realms id
    rw [h.alone id hid] at hrealm
    exact Option.not_isSome_iff_eq_none.mp (by rw [hrealm]; decide)

theorem typed (h : e.Consistent) {realm : Realm} (hrealm : e.arena.realms.get? id = some realm) :
    realm.Typed := by
  cases hs : e.specifications.get? id with
  | none => cases (h.alone id hs).symm.trans hrealm
  | some s =>
    obtain ⟨realm', hrealm', -, htyped⟩ := h.housed id s hs
    exact Option.some.inj (hrealm.symm.trans hrealm') ▸ htyped

theorem create (settings : Settings) (environment : Environment) (chance : Chance)
    (archive : Archive) (listener : String → Nat → List Reaction) :
    (create settings environment chance archive listener).Consistent :=
  ⟨fun _ _ hs => (nomatch hs), fun _ _ hs => (nomatch hs), fun _ _ hs => (nomatch hs),
    fun _ _ => rfl⟩

theorem after (h : e.Consistent) {d : Deed} (hd : d.managesSpecifications = true) :
    (e.after d).Consistent := by
  cases d with
  | register source name description => exact h.register source name description
  | revise id source name description =>
    cases hrevise : e.revise id source name description with
    | error =>
      simp only [Engine.after, hrevise]
      exact h
    | ok f =>
      simp only [Engine.after, hrevise]
      exact h.revise hrevise
  | withdraw id =>
    cases hs : e.specifications.get? id with
    | none =>
      simp only [Engine.after, deleteSpecification?, hs]
      exact h
    | some s =>
      simp only [Engine.after, deleteSpecification?, hs]
      exact h.withdraw id
  | runEvent r =>
    exact h.along (advances_runEvent e.programs r e.arena)
      (sameTypes_runEvent fun _ hrealm => h.typed hrealm)
  | runRule r =>
    exact h.along (advances_runRule e.programs r e.arena) (sameTypes_runRule e.programs r e.arena)
  | _ => cases hd

theorem afterAll (h : e.Consistent) {deeds : List Deed}
    (hdeeds : ∀ d ∈ deeds, d.managesSpecifications = true) : (e.afterAll deeds).Consistent := by
  induction deeds generalizing e with
  | nil => exact h
  | cons d rest ih =>
    exact ih (h.after (hdeeds d List.mem_cons_self)) fun d' hd' =>
      hdeeds d' (List.mem_cons_of_mem d hd')

end Consistent

/-! ### What is gone -/

def Retired (e : Engine) (id : String) : Prop :=
  e.specifications.get? id = none ∧ ∃ n ≤ e.arena.ambient.issued, id = numberedId "spec" n

namespace Retired

theorem later (h : e.Retired id) (hf : Persists e f)
    (hspecifications : f.specifications.get? id = none) : f.Retired id := by
  obtain ⟨-, n, hn, hid⟩ := h
  exact ⟨hspecifications, n, Nat.le_trans hn hf.ambient.issued, hid⟩

theorem ne (h : e.Retired id) {k : String} {s : Specification}
    (hs : e.specifications.get? k = some s) : id ≠ k := by
  rintro rfl
  cases h.1.symm.trans hs

theorem after (h : e.Retired id) (d : Deed) : (e.after d).Retired id := by
  have hdeals := deals_after e d
  refine h.later hdeals.persists ?_
  generalize e.after d = f at hdeals
  cases hdeals with
  | stirred hf =>
    rw [specifications_stirred hf]
    exact h.1
  | @registered _ _ _ n spec f g hf hfresh _ _ hg =>
    -- Ids are given out in order, and this one was given out before.
    obtain ⟨hnone, m, hm, hid⟩ := h
    have hne : id ≠ numberedId "spec" n := by
      rintro rfl
      have := numberedId_injective hid
      omega
    rw [hg.specifications]
    change (f.specifications.put _ spec).get? id = none
    rw [Table.get?_put, if_neg hne, hf.specifications]
    exact hnone
  | renamed spec hs =>
    change (e.specifications.put _ spec).get? id = none
    rw [Table.get?_put, if_neg (h.ne hs)]
    exact h.1
  | rewritten spec hs =>
    change (e.specifications.put _ spec).get? id = none
    rw [Table.get?_put, if_neg (h.ne hs)]
    exact h.1
  | withdrawn hs =>
    change (e.specifications.remove _).get? id = none
    rw [Table.get?_remove, if_neg (h.ne hs)]
    exact h.1
  | event | rule | disturbed => exact h.1
  | cleared => rfl

theorem afterAll (h : e.Retired id) (deeds : List Deed) : (e.afterAll deeds).Retired id := by
  induction deeds generalizing e with
  | nil => exact h
  | cons d rest ih => exact ih (h.after d)

end Retired

theorem Consistent.retired_withdraw (h : e.Consistent)
    (hdeleted : (e.deleteSpecification? id).isSome) : (e.after (.withdraw id)).Retired id := by
  obtain ⟨s, hs⟩ := Option.isSome_iff_exists.mp (Option.isSome_map.symm.trans hdeleted)
  simp only [Engine.after, deleteSpecification?, hs]
  exact ⟨(Table.get?_remove ..).trans (if_pos rfl), h.numbered id s hs⟩

/-! ### What fails -/

theorem register_refused {source : String} {name description : Option String} {refusal : Refusal}
    (h : (e.register source name description).1 = .error refusal) :
    (e.register source name description).2.specifications = e.specifications ∧
      (e.register source name description).2.arena.realms = e.arena.realms := by
  unfold register at h ⊢
  cases hsource : registrable source with
  | error refusal' => cases refusal' <;> exact ⟨rfl, rfl⟩
  | ok p =>
    rw [hsource] at h
    cases h

theorem revise_refused {source name description : Option String} {error : RevisionError}
    (h : e.revise id source name description = .error error) :
    e.after (.revise id source name description) = e := by
  simp only [Engine.after, h]

/-- On a new engine, whatever is registered, revised, deleted and run by hand: a specification is
read from its source, tells what is in it and has a world of its entities, in order; a deleted one
leaves neither a specification nor a world; and what fails changes no specification and no world. -/
theorem registry_agrees (settings : Settings) (environment : Environment) (chance : Chance)
    (archive : Archive) (listener : String → Nat → List Reaction) {deeds : List Deed}
    (h : ∀ d ∈ deeds, d.managesSpecifications = true) :
    let e := Engine.create settings environment chance archive listener
    let f := e.afterAll deeds
    (∀ id s, f.specifications.get? id = some s →
      s.Faithful ∧ ∃ w, f.arena.world? id = some w ∧
        w.entities.keys = s.program.entities.map (·.name)) ∧
    (∀ before id after, deeds = before ++ .withdraw id :: after →
      ((e.afterAll before).deleteSpecification? id).isSome →
        f.specifications.get? id = none ∧ f.arena.world? id = none) ∧
    (∀ source name description refusal,
      (f.register source name description).1 = .error refusal →
        (f.after (.register source name description)).specifications = f.specifications ∧
        (f.after (.register source name description)).arena.realms = f.arena.realms) ∧
    (∀ id source name description error,
      f.revise id source name description = .error error →
        (f.after (.revise id source name description)).specifications = f.specifications ∧
        (f.after (.revise id source name description)).arena.realms = f.arena.realms) := by
  intro e f
  have he : e.Consistent := .create settings environment chance archive listener
  have hf : f.Consistent := he.afterAll h
  refine ⟨fun id s hs => ?_, ?_, fun _ _ _ _ hrefused => register_refused hrefused, ?_⟩
  · have hfaithful := hf.faithful id s hs
    exact ⟨hfaithful, (hf.housed id s hs).types hfaithful.entityNames⟩
  · rintro before id after rfl hdeleted
    have hbefore : (e.afterAll before).Consistent :=
      he.afterAll fun d hd => h d (List.mem_append_left _ hd)
    have hgone : f.specifications.get? id = none := by
      have hretired := (hbefore.retired_withdraw hdeleted).afterAll after
      have hrun : f = ((e.afterAll before).after (.withdraw id)).afterAll after :=
        List.foldl_append
      exact hrun ▸ hretired.1
    refine ⟨hgone, ?_⟩
    rw [Arena.world?, hf.alone id hgone]
    rfl
  · intro id source name description error hrefused
    rw [revise_refused hrefused]
    exact ⟨rfl, rfl⟩

def silent : Engine := .create .default [] (.cyclic [0] 0) (.memory ⟨[], [], []⟩) fun _ _ => []

/-- Two specifications are registered. The first is run, refused a source of one name twice, and
given one of two other entities. -/
def bellsAndLamps : List Deed :=
  [.register "Entity Lamp { State { lit: boolean } Event spark { effect: Create(Lamp) } }" none
      none,
    .register "Entity Cat { State { n: int } }" none none,
    .runEvent ⟨"spec_000000000001", none, some "Lamp", some "Lamp_0", some "spark", none, []⟩,
    .revise "spec_000000000001" (some "Entity Bell { } Entity Bell { }") none none,
    .revise "spec_000000000001" (some "Entity Door { } Entity Bell { }") none none]

def catless : Engine := silent.afterAll (bellsAndLamps ++ [.withdraw "spec_000000000002"])

theorem runs_bellsAndLamps :
    ((silent.afterAll bellsAndLamps).deleteSpecification? "spec_000000000002").isSome ∧
      (catless.specifications.get? "spec_000000000001").map
        (fun s => s.program.entities.map (·.name)) = some ["Door", "Bell"] := by decide +kernel

/-- The world of the deleted specification is gone, and the other one has the types that its last
good source gave it. -/
theorem registry_agrees_bellsAndLamps :
    (∀ d ∈ bellsAndLamps ++ [.withdraw "spec_000000000002"], d.managesSpecifications = true) ∧
      catless.arena.world? "spec_000000000002" = none ∧
      ∃ w, catless.arena.world? "spec_000000000001" = some w ∧
        w.entities.keys = ["Door", "Bell"] := by
  have hmanages : ∀ d ∈ bellsAndLamps ++ [.withdraw "spec_000000000002"],
      d.managesSpecifications = true := by decide
  obtain ⟨hregistered, hgone, -⟩ := registry_agrees .default [] (.cyclic [0] 0)
    (.memory ⟨[], [], []⟩) (fun _ _ => []) hmanages
  obtain ⟨hdeleted, hnames⟩ := runs_bellsAndLamps
  obtain ⟨s, hs, hnames⟩ := Option.map_eq_some_iff.mp hnames
  obtain ⟨-, w, hw, hkeys⟩ := hregistered _ s hs
  exact ⟨hmanages, (hgone _ _ _ rfl hdeleted).2, w, hw, hkeys.trans hnames⟩

end Engine

end StepWorld
