import Mathlib.Data.Nat.Find
import StepWorld.Proofs.Engine.Deeds

/-! The listing of specifications, page by page. The pages of a filter are the pieces of one list,
in which the specifications that the filter asks for stand by the time of their last parsing or
update. -/

namespace StepWorld

/-! ### Pages of a list -/

section Pages

variable {α : Type} {items : List α} {size : Nat}

theorem slice_page (items : List α) (size n : Nat) :
    slice ((n * size : Nat) : Int) ((n * size : Nat) + size) items =
      (items.drop (n * size)).take size := by
  have hstart : slicePosition items.length ((n * size : Nat) : Int) =
      min (n * size) items.length := by
    rw [slicePosition, if_neg (by omega)]
    omega
  have hstop : slicePosition items.length (((n * size : Nat) : Int) + size) =
      min (n * size + size) items.length := by
    rw [slicePosition, if_neg (by omega)]
    omega
  rw [slice, hstart, hstop, ← List.take_eq_take_min, List.drop_take]
  by_cases hn : n * size ≤ items.length
  · rw [Nat.min_eq_left hn, Nat.add_sub_cancel_left]
  · have hlength : items.length ≤ n * size := by omega
    rw [Nat.min_eq_right hlength, List.drop_length, List.drop_eq_nil_of_le hlength]
    simp

theorem flatMap_pages (items : List α) (size n : Nat) :
    (List.range n).flatMap (fun m => (items.drop (m * size)).take size) =
      items.take (n * size) := by
  induction n with
  | zero => simp
  | succ n ih =>
    rw [List.range_succ, List.flatMap_append, ih, Nat.succ_mul, List.take_add]
    simp

theorem page_eq_nil_iff (hsize : 0 < size) {n : Nat} :
    (items.drop (n * size)).take size = [] ↔ items.length ≤ n * size := by
  simp [hsize.ne']

/-- The pages up to the first empty one are the whole list. -/
theorem exists_pages (items : List α) (hsize : 0 < size) :
    ∃ n, (∀ m < n, (items.drop (m * size)).take size ≠ []) ∧
      (items.drop (n * size)).take size = [] ∧
      (List.range n).flatMap (fun m => (items.drop (m * size)).take size) = items := by
  have hend : ∃ n, items.length ≤ n * size := ⟨items.length, Nat.le_mul_of_pos_right _ hsize⟩
  refine ⟨Nat.find hend, fun m hm hempty => ?_, (page_eq_nil_iff hsize).mpr (Nat.find_spec hend), ?_⟩
  · exact Nat.find_min hend hm ((page_eq_nil_iff hsize).mp hempty)
  · rw [flatMap_pages, List.take_of_length_le (Nat.find_spec hend)]

end Pages

/-! ### What a filter lists -/

theorem wanted_iff {α : Type} [BEq α] [LawfulBEq α] {wish : Option α} {a : α} :
    wanted wish a = true ↔ ∀ b ∈ wish, a = b := by
  cases wish with
  | none => simp [wanted]
  | some b =>
    simp only [wanted, Option.all_some, beq_iff_eq]
    exact ⟨fun h c hc => h.symm.trans (Option.some.inj hc), fun h => (h b rfl).symm⟩

namespace SpecificationFilter

variable {f : SpecificationFilter} {t : Table Specification} {id : String} {s : Specification}

/-- A specification is as a filter wants it. -/
structure Matches (f : SpecificationFilter) (s : Specification) : Prop where
  status : ∀ status ∈ f.status, s.status = status
  hasTemporal : ∀ b ∈ f.hasTemporal, s.hasTemporal = b
  hasProbability : ∀ b ∈ f.hasProbability, s.hasProbability = b

theorem accepts_iff : f.accepts s = true ↔ f.Matches s := by
  rw [accepts, Bool.and_eq_true, Bool.and_eq_true, wanted_iff, wanted_iff, wanted_iff]
  exact ⟨fun ⟨⟨hstatus, htemporal⟩, hprobability⟩ => ⟨hstatus, htemporal, hprobability⟩,
    fun h => ⟨⟨h.status, h.hasTemporal⟩, h.hasProbability⟩⟩

def listing (f : SpecificationFilter) (t : Table Specification) : Table Specification :=
  (t.filter fun e => f.accepts e.2).mergeSort fun a b => b.2.updatedAt ≤ a.2.updatedAt

theorem listing_perm (f : SpecificationFilter) (t : Table Specification) :
    (f.listing t).Perm (t.filter fun e => f.accepts e.2) := List.mergeSort_perm _ _

theorem get?_of_mem_listing (h : t.keys.Nodup) (hmem : (id, s) ∈ f.listing t) :
    t.get? id = some s ∧ f.Matches s := by
  rw [(f.listing_perm t).mem_iff, List.mem_filter, accepts_iff] at hmem
  exact ⟨Table.get?_of_mem h hmem.1, hmem.2⟩

theorem mem_keys_listing (h : t.keys.Nodup) :
    id ∈ (f.listing t).keys ↔ ∃ s, t.get? id = some s ∧ f.Matches s := by
  constructor
  · intro hid
    obtain ⟨⟨id, s⟩, hmem, rfl⟩ := List.mem_map.mp hid
    exact ⟨s, get?_of_mem_listing h hmem⟩
  · rintro ⟨s, hs, hmatches⟩
    have hmem : (id, s) ∈ f.listing t := by
      rw [(f.listing_perm t).mem_iff, List.mem_filter, accepts_iff]
      exact ⟨Table.mem_of_get? hs, hmatches⟩
    exact List.mem_map_of_mem hmem

theorem nodup_listing (h : t.keys.Nodup) : (f.listing t).keys.Nodup :=
  ((f.listing_perm t).map Prod.fst).nodup_iff.mpr (h.sublist (List.filter_sublist.map Prod.fst))

theorem listing_latestFirst (h : (t.map (·.2.updatedAt)).Nodup) :
    (f.listing t).Pairwise fun a b => b.2.updatedAt < a.2.updatedAt := by
  have hsorted : (f.listing t).Pairwise fun a b => b.2.updatedAt ≤ a.2.updatedAt := by
    have hle := @List.pairwise_mergeSort (String × Specification)
      (fun a b => decide (b.2.updatedAt ≤ a.2.updatedAt))
      (fun a b c hab hbc => by simp only [decide_eq_true_eq] at hab hbc ⊢; omega)
      (fun a b => by simp only [Bool.or_eq_true, decide_eq_true_eq]; omega)
      (t.filter fun e => f.accepts e.2)
    exact hle.imp fun h => of_decide_eq_true h
  have hdistinct : (f.listing t).Pairwise fun a b => a.2.updatedAt ≠ b.2.updatedAt := by
    have htimes : ((f.listing t).map (·.2.updatedAt)).Nodup :=
      ((f.listing_perm t).map _).nodup_iff.mpr (h.sublist (List.filter_sublist.map _))
    exact List.pairwise_map.mp htimes
  exact hsorted.imp₂ (fun a b hle hne => by omega) hdistinct

theorem select_page (f : SpecificationFilter) (t : Table Specification) (size n : Nat) :
    { f with limit := size, offset := (n * size : Nat) }.select t =
      (((f.listing t).drop (n * size)).take size).map (·.1) :=
  congrArg (List.map Prod.fst) (slice_page (f.listing t) size n)

theorem exists_pages_select (f : SpecificationFilter) (t : Table Specification) {size : Nat}
    (hsize : 0 < size) :
    ∃ n, (∀ m < n, { f with limit := size, offset := (m * size : Nat) }.select t ≠ []) ∧
      { f with limit := size, offset := (n * size : Nat) }.select t = [] ∧
      (List.range n).flatMap (fun m =>
        { f with limit := size, offset := (m * size : Nat) }.select t) = (f.listing t).keys := by
  obtain ⟨n, hfull, hempty, hall⟩ := exists_pages (f.listing t) hsize
  simp only [select_page]
  refine ⟨n, fun m hm hnil => hfull m hm (List.map_eq_nil_iff.mp hnil), ?_, ?_⟩
  · rw [hempty]
    rfl
  · rw [← List.map_flatMap, hall]
    rfl

end SpecificationFilter

def Deed.shelves : Deed → Bool
  | .register .. | .revise .. | .withdraw _ | .clear => true
  | _ => false

namespace Engine

variable {e f : Engine} {d : Deed} {deeds : List Deed} {id : String}

/-! ### When a specification was last parsed or updated -/

/-- A deed parses a specification that gets an id, or updates the one of an id. -/
def Dates (e : Engine) (id : String) : Deed → Prop
  | .register source name description => (e.register source name description).1 = .ok id
  | .revise known source name description =>
    known = id ∧ ∃ f, e.revise known source name description = .ok f
  | _ => False

theorem Dates.shelves (h : e.Dates id d) : d.shelves = true := by
  cases d with
  | register | revise => rfl
  | _ => exact h.elim

/-- `e.LastDated id deeds time`: the last of some deeds to parse or update a specification did so
at a time, which is what the clock showed then. -/
inductive LastDated (e : Engine) (id : String) : List Deed → Nat → Prop
  | now {deeds : List Deed} {d : Deed} (h : (e.afterAll deeds).Dates id d) :
    LastDated e id (deeds ++ [d]) (e.afterAll deeds).tick.1
  | before {deeds : List Deed} {d : Deed} {time : Nat} (h : LastDated e id deeds time)
      (hd : ¬ (e.afterAll deeds).Dates id d) : LastDated e id (deeds ++ [d]) time

/-- What a deed makes of the registered specifications. -/
inductive Shelves (e : Engine) (d : Deed) : Table Specification → Prop
  | kept (h : ∀ id, ¬ e.Dates id d) : Shelves e d e.specifications
  | dated {id : String} {s : Specification} (h : e.Dates id d)
      (hother : ∀ other, e.Dates other d → other = id) (hs : s.updatedAt = e.tick.1) :
    Shelves e d (e.specifications.put id s)
  | removed (id : String) (h : ∀ id, ¬ e.Dates id d) : Shelves e d (e.specifications.remove id)
  | cleared : Shelves e d []

theorem shelves_register (e : Engine) (source : String) (name description : Option String) :
    Shelves e (.register source name description)
      (e.register source name description).2.specifications := by
  have hdates (other : String) : e.Dates other (.register source name description) ↔
      (e.register source name description).1 = .ok other := Iff.rfl
  unfold register at hdates ⊢
  cases hsource : registrable source with
  | error refusal =>
    simp only [hsource, reduceCtorEq, iff_false] at hdates
    cases refusal <;> exact .kept hdates
  | ok p =>
    simp only [hsource, Except.ok.injEq] at hdates
    exact .dated ((hdates _).mpr rfl) (fun other hother => ((hdates other).mp hother).symm) rfl

theorem shelves_revise (e : Engine) (known : String) (source name description : Option String) :
    Shelves e (.revise known source name description)
      (e.after (.revise known source name description)).specifications := by
  cases hrevise : e.revise known source name description with
  | error error =>
    simp only [after, hrevise]
    exact .kept fun id hdates => by simp [Dates, hrevise] at hdates
  | ok f =>
    simp only [after, hrevise]
    have hdates : e.Dates known (.revise known source name description) := ⟨rfl, f, hrevise⟩
    have hspecifications : ∃ s : Specification, s.updatedAt = e.tick.1 ∧
        f.specifications = e.specifications.put known s := by
      unfold revise at hrevise
      split at hrevise
      · cases hrevise
      · next s hs =>
        dsimp only at hrevise
        split at hrevise
        · cases hrevise
          exact ⟨_, rfl, rfl⟩
        · split at hrevise
          · cases hrevise
          · cases hrevise
            exact ⟨_, rfl, rfl⟩
    obtain ⟨s, hs, hspecifications⟩ := hspecifications
    rw [hspecifications]
    exact .dated hdates (fun other hother => hother.1.symm) hs

theorem Deals.specifications_kept (h : Deals e d f) (hd : d.shelves = false) :
    f.specifications = e.specifications := by
  cases h with
  | stirred h => exact specifications_stirred h
  | event | rule | disturbed => rfl
  | registered | renamed | rewritten | withdrawn | cleared => cases hd

theorem shelves_after (e : Engine) (d : Deed) : Shelves e d (e.after d).specifications := by
  cases hd : d.shelves with
  | false =>
    rw [(deals_after e d).specifications_kept hd]
    exact .kept fun _ hdates => Bool.false_ne_true (hd.symm.trans hdates.shelves)
  | true =>
    cases d with
    | register source name description => exact shelves_register e source name description
    | revise known source name description => exact shelves_revise e known source name description
    | withdraw known =>
      cases hs : e.specifications.get? known with
      | none =>
        simp only [after, deleteSpecification?, hs]
        exact .kept fun _ hdates => hdates
      | some s =>
        simp only [after, deleteSpecification?, hs]
        exact .removed known fun _ hdates => hdates
    | clear => exact .cleared
    | _ => cases hd

theorem afterAll_concat (e : Engine) (deeds : List Deed) (d : Deed) :
    e.afterAll (deeds ++ [d]) = (e.afterAll deeds).after d := List.foldl_append

structure Dated (e : Engine) (deeds : List Deed) : Prop where
  distinct : (e.afterAll deeds).specifications.keys.Nodup
  dated : ∀ id s, (e.afterAll deeds).specifications.get? id = some s →
    e.LastDated id deeds s.updatedAt

theorem Dated.concat (h : Dated e deeds) (d : Deed) : Dated e (deeds ++ [d]) := by
  have hshelves := shelves_after (e.afterAll deeds) d
  suffices hafter : ((e.afterAll deeds).after d).specifications.keys.Nodup ∧
      ∀ id s, ((e.afterAll deeds).after d).specifications.get? id = some s →
        e.LastDated id (deeds ++ [d]) s.updatedAt by
    rw [← afterAll_concat] at hafter
    exact ⟨hafter.1, hafter.2⟩
  generalize ((e.afterAll deeds).after d).specifications = t at hshelves
  cases hshelves with
  | kept hnot => exact ⟨h.distinct, fun id s hs => .before (h.dated id s hs) (hnot id)⟩
  | @dated id s hdates hother hs =>
    refine ⟨Table.nodup_keys_put h.distinct id s, Table.forall_get?_put ?_ fun other u hne hu => ?_⟩
    · exact hs ▸ .now hdates
    · exact .before (h.dated other u hu) fun hdates' => hne (hother other hdates')
  | removed id hnot =>
    refine ⟨?_, fun other s hs => .before (h.dated other s (Table.get?_of_remove hs).2) (hnot other)⟩
    rw [Table.keys_remove]
    exact h.distinct.sublist List.filter_sublist
  | cleared => exact ⟨List.nodup_nil, fun _ _ hs => nomatch hs⟩

theorem dated_afterAll (h : e.specifications = []) (deeds : List Deed) : Dated e deeds := by
  induction deeds using List.reverseRecOn with
  | nil =>
    refine ⟨?_, fun id s hs => ?_⟩
    · show e.specifications.keys.Nodup
      rw [h]
      exact List.nodup_nil
    · change e.specifications.get? id = some s at hs
      rw [h] at hs
      cases hs
  | append_singleton deeds d ih => exact ih.concat d

/-- Whatever is done from the creation of an engine on: as long as the times of the last updates
differ, the pages of a filter up to the first empty one list every specification that it wants, each
once, and no other, in the order of these times, the latest first. -/
theorem pages_partition_listing (settings : Settings) (environment : Environment) (chance : Chance)
    (archive : Archive) (listener : String → Nat → List Reaction) (deeds : List Deed)
    (f : SpecificationFilter) {size : Nat} (hsize : 1 ≤ size)
    (htimes : (((create settings environment chance archive listener).afterAll
      deeds).specifications.map (·.2.updatedAt)).Nodup) :
    let start := create settings environment chance archive listener
    let registered := (start.afterAll deeds).specifications
    let page (n : Nat) := { f with limit := size, offset := (n * size : Nat) }.select registered
    ∃ n, (∀ m < n, page m ≠ []) ∧ page n = [] ∧
      let listed := (List.range n).flatMap page
      listed.Nodup ∧ (∀ id, id ∈ listed ↔ ∃ s, registered.get? id = some s ∧ f.Matches s) ∧
      (listed.Pairwise fun id other => ∃ s t, registered.get? id = some s ∧
        registered.get? other = some t ∧ t.updatedAt < s.updatedAt) ∧
      ∀ id s, registered.get? id = some s → start.LastDated id deeds s.updatedAt := by
  intro start registered page
  obtain ⟨hdistinct, hdated⟩ := dated_afterAll (e := start) rfl deeds
  obtain ⟨n, hfull, hempty, hall⟩ := f.exists_pages_select registered hsize
  refine ⟨n, hfull, hempty, ?_⟩
  intro listed
  have hlisted : listed = (f.listing registered).keys := hall
  rw [hlisted]
  refine ⟨SpecificationFilter.nodup_listing hdistinct,
    fun id => SpecificationFilter.mem_keys_listing hdistinct, ?_, hdated⟩
  refine List.pairwise_map.mpr (List.Pairwise.imp_of_mem ?_ (f.listing_latestFirst htimes))
  rintro ⟨id, s⟩ ⟨other, t⟩ hmem hother hlt
  have hs := (SpecificationFilter.get?_of_mem_listing hdistinct hmem).1
  have ht := (SpecificationFilter.get?_of_mem_listing hdistinct hother).1
  exact ⟨s, t, hs, ht, hlt⟩

/-- Three specifications, two of them temporal. The first of these two is renamed at the end. -/
def catAndDoors : List Deed :=
  [.register "Entity Cat { }" none none,
    .register "Entity Door { } Rule r { when: G(a) }" none none,
    .register "Entity Gate { } Rule r { when: F(b) }" none none,
    .revise "spec_000000000002" none (some "Hatch") none]

def temporalOnly : SpecificationFilter := ⟨none, some true, none, 50, 0⟩

def shown : Table Specification :=
  ((create .default [] (.cyclic [0] 0) (.memory ⟨[], [], []⟩) fun _ _ => []).afterAll
    catAndDoors).specifications

theorem runs_catAndDoors : (shown.map (·.2.updatedAt)).Nodup ∧
    (shown.get? "spec_000000000001").map (·.hasTemporal) = some false ∧
    (shown.get? "spec_000000000002").map (·.hasTemporal) = some true := by decide +kernel

/-- Page by page, one specification at a time, only temporal ones are shown. -/
theorem pages_partition_listing_doors : 1 ≤ 1 ∧ (shown.map (·.2.updatedAt)).Nodup ∧
    let page (n : Nat) := { temporalOnly with limit := (1 : Nat), offset := (n * 1 : Nat) }.select shown
    ∃ n, page n = [] ∧ "spec_000000000002" ∈ (List.range n).flatMap page ∧
      "spec_000000000001" ∉ (List.range n).flatMap page := by
  obtain ⟨htimes, hcat, hdoor⟩ := runs_catAndDoors
  obtain ⟨n, -, hempty, -, hlisted, -⟩ := pages_partition_listing .default [] (.cyclic [0] 0)
    (.memory ⟨[], [], []⟩) (fun _ _ => []) catAndDoors temporalOnly (Nat.le_refl 1) htimes
  obtain ⟨door, hdoor, htemporal⟩ := Option.map_eq_some_iff.mp hdoor
  refine ⟨Nat.le_refl 1, htimes, n, hempty, (hlisted _).mpr ⟨door, hdoor, ?_⟩, fun hmem => ?_⟩
  · exact ⟨nofun, fun b hb => htemporal.trans (Option.some.inj hb), nofun⟩
  · obtain ⟨s, hs, hmatches⟩ := (hlisted _).mp hmem
    change shown.get? _ = some s at hs
    rw [hs, Option.map_some, Option.some.injEq, hmatches.hasTemporal true rfl] at hcat
    cases hcat

end Engine

end StepWorld
