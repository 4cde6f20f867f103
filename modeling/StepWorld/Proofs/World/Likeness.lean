import Mathlib.Data.List.Forall2
import Mathlib.Data.List.Perm.Subperm
import StepWorld.Evaluation
import StepWorld.Proofs.Tables

/-! When values are equal. Equality goes down two values together and looks at what stands
opposite each other. Truth values and numbers are kept apart where it begins, but not within lists
and maps: there a truth value counts as 0 or 1. -/

namespace StepWorld

namespace Value

variable {v w x y : Value} {xs ys : List Value} {fields others : Record} {o p : Origin}

mutual

def isKeyed : Value → Bool
  | .list _ items => itemsKeyed items
  | .map fields => decide (Table.keys fields).Nodup && fieldsKeyed fields
  | _ => true

def itemsKeyed : List Value → Bool
  | [] => true
  | v :: rest => isKeyed v && itemsKeyed rest

def fieldsKeyed : List (String × Value) → Bool
  | [] => true
  | (_, v) :: rest => isKeyed v && fieldsKeyed rest

end

/-- `Opposite v w x y`: going down both values along the same places and keys, one comes to `x`
in `v` and to `y` in `w`. -/
inductive Opposite : Value → Value → Value → Value → Prop
  | whole (v w : Value) : Opposite v w v w
  | item {o p : Origin} {xs ys : List Value} {n : Nat} {v w x y : Value} : xs[n]? = some v →
      ys[n]? = some w → Opposite v w x y → Opposite (.list o xs) (.list p ys) x y
  | entry {fields others : Record} {key : String} {v w x y : Value} : fields.get? key = some v →
      others.get? key = some w → Opposite v w x y → Opposite (.map fields) (.map others) x y

/-- Equal texts, lists of one length, maps with the same keys, or what a relation on truth values
and numbers says. -/
inductive Fits (leaf : Value → Value → Prop) : Value → Value → Prop
  | null : Fits leaf .null .null
  | str (s : String) : Fits leaf (.str s) (.str s)
  | torn (s : String) : Fits leaf (.torn s) (.torn s)
  | list {o p : Origin} {xs ys : List Value} : xs.length = ys.length →
      Fits leaf (.list o xs) (.list p ys)
  | map {fields others : Record} : (∀ key, fields.has key = others.has key) →
      Fits leaf (.map fields) (.map others)
  | leaf {v w : Value} : leaf v w → Fits leaf v w

/-- Values of one shape: what stands opposite fits everywhere. -/
def Alike (leaf : Value → Value → Prop) (v w : Value) : Prop :=
  ∀ x y, Opposite v w x y → Fits leaf x y

/-- Equal truth values, or equal numbers. -/
inductive Strict : Value → Value → Prop
  | truth (b : Bool) : Strict (.bool b) (.bool b)
  | number {v w : Value} {m n : Number} : v.number? = some m → w.number? = some n →
      m.relation n = .equal → Strict v w

/-- Equal numbers, where truth values count as 0 and 1. -/
def Ranked (v w : Value) : Prop :=
  ∃ m n, v.rank? = some m ∧ w.rank? = some n ∧ m.relation n = .equal

/-- What equality lets stand opposite each other within lists and maps. -/
def Loose (v w : Value) : Prop := v.samePayload w = true ∨ Ranked v w

theorem rank?_of_isBool (h : v.isBool = false) : v.rank? = v.number? := by
  cases v <;> first | rfl | cases h

theorem isBool_of_number? {m : Number} (h : v.number? = some m) : v.isBool = false := by
  cases v <;> first | rfl | cases h

theorem Strict.isBool (h : Strict v w) : v.isBool = w.isBool := by
  cases h with
  | truth b => rfl
  | number hv hw _ => rw [isBool_of_number? hv, isBool_of_number? hw]

theorem Strict.ranked (h : Strict v w) : Ranked v w := by
  cases h with
  | truth b => cases b <;> exact ⟨_, _, rfl, rfl, rfl⟩
  | @number _ _ m n hv hw hequal =>
    have hrank (u : Value) (k : Number) (hu : u.number? = some k) : u.rank? = some k :=
      (rank?_of_isBool (isBool_of_number? hu)).trans hu
    exact ⟨m, n, hrank v m hv, hrank w n hw, hequal⟩

theorem Ranked.strict (h : Ranked v w) (hbool : v.isBool = w.isBool) : Strict v w := by
  obtain ⟨m, n, hv, hw, hequal⟩ := h
  cases hkind : v.isBool with
  | false =>
    rw [rank?_of_isBool hkind] at hv
    rw [rank?_of_isBool (hbool ▸ hkind)] at hw
    exact .number hv hw hequal
  | true =>
    rw [hkind] at hbool
    cases v <;> cases hkind
    cases w <;> cases hbool
    next b c =>
      obtain rfl := Option.some.inj hv
      obtain rfl := Option.some.inj hw
      cases b <;> cases c <;> first | exact .truth _ | cases hequal

theorem Fits.mono {leaf leaf' : Value → Value → Prop} (h : Fits leaf v w)
    (hleaf : leaf v w → leaf' v w) : Fits leaf' v w := by
  cases h with
  | null => exact .null
  | str s => exact .str s
  | torn s => exact .torn s
  | list hlength => exact .list hlength
  | map hkeys => exact .map hkeys
  | leaf h => exact .leaf (hleaf h)

theorem Fits.isBool (h : Fits Strict v w) : v.isBool = w.isBool := by
  cases h with
  | leaf h => exact h.isBool
  | _ => rfl

/-! Equality goes down two values along what stands opposite. -/

theorem Alike.fits {leaf : Value → Value → Prop} (h : Alike leaf v w) : Fits leaf v w :=
  h v w (.whole v w)

theorem alike_of_fits {leaf : Value → Value → Prop} (hlist : ∀ o xs, v ≠ .list o xs)
    (hmap : ∀ fields, v ≠ .map fields) (h : Fits leaf v w) : Alike leaf v w := by
  intro x y hopposite
  cases hopposite with
  | whole => exact h
  | item => exact absurd rfl (hlist _ _)
  | entry => exact absurd rfl (hmap _)

theorem Fits.length (h : Fits Loose (.list o xs) (.list p ys)) : xs.length = ys.length := by
  cases h with
  | list hlength => exact hlength
  | leaf h => rcases h with h | ⟨_, _, h, _⟩ <;> cases h

theorem Fits.keys (h : Fits Loose (.map fields) (.map others)) (key : String) :
    fields.has key = others.has key := by
  cases h with
  | map hkeys => exact hkeys key
  | leaf h => rcases h with h | ⟨_, _, h, _⟩ <;> cases h

theorem alike_list : Alike Loose (.list o xs) (.list p ys) ↔ List.Forall₂ (Alike Loose) xs ys := by
  rw [List.forall₂_iff_get]
  constructor
  · intro h
    refine ⟨h.fits.length, fun n hx hy x y hopposite => h x y ?_⟩
    exact .item (List.getElem?_eq_getElem hx) (List.getElem?_eq_getElem hy) hopposite
  · rintro ⟨hlength, hitems⟩ x y hopposite
    cases hopposite with
    | whole => exact .list hlength
    | @item _ _ _ _ n _ _ _ _ hx hy hopposite =>
      obtain ⟨hxs, rfl⟩ := List.getElem?_eq_some_iff.mp hx
      obtain ⟨hys, rfl⟩ := List.getElem?_eq_some_iff.mp hy
      exact hitems n hxs hys x y hopposite

theorem alike_map : Alike Loose (.map fields) (.map others) ↔
    (∀ key, fields.has key = others.has key) ∧
      ∀ key v w, fields.get? key = some v → others.get? key = some w → Alike Loose v w := by
  constructor
  · intro h
    exact ⟨h.fits.keys, fun key v w hv hw x y hopposite => h x y (.entry hv hw hopposite)⟩
  · rintro ⟨hkeys, hentries⟩ x y hopposite
    cases hopposite with
    | whole => exact .map hkeys
    | @entry _ _ key v w _ _ hv hw hopposite => exact hentries key v w hv hw x y hopposite

/-! Equality of leaves. -/

theorem same_of_rank? {m : Number} (hv : v.rank? = some m) (w : Value) :
    v.same w = w.rank?.any fun n => m.relation n == .equal := by
  cases v <;> cases hv <;> cases w <;> rfl

theorem ranked_iff {m : Number} (hv : v.rank? = some m) : Ranked v w ↔ v.same w = true := by
  rw [same_of_rank? hv, Option.any_eq_true]
  constructor
  · rintro ⟨_, n, hm, hn, hequal⟩
    cases hv.symm.trans hm
    exact ⟨n, hn, beq_iff_eq.mpr hequal⟩
  · rintro ⟨n, hn, hequal⟩
    exact ⟨m, n, hv, hn, beq_iff_eq.mp hequal⟩

theorem loose_iff {m : Number} (hv : v.rank? = some m) :
    Loose v w ↔ (v.samePayload w || v.same w) = true := by
  rw [Bool.or_eq_true, ← ranked_iff hv]
  rfl

theorem Loose.same (h : Loose v w) : (v.samePayload w || v.same w) = true := by
  refine (Bool.or_eq_true _ _).mpr (h.imp_right fun hranked => ?_)
  obtain ⟨m, _, hv, _⟩ := id hranked
  exact (ranked_iff hv).mp hranked

theorem alike_iff_same (hlist : ∀ o xs, v ≠ .list o xs) (hmap : ∀ fields, v ≠ .map fields) :
    Alike Loose v w ↔ (v.samePayload w || v.same w) = true := by
  constructor
  · intro h
    cases h.fits with
    | null => rfl
    | str s => exact beq_self_eq_true s
    | torn s => exact beq_self_eq_true s
    | list => exact absurd rfl (hlist _ _)
    | map => exact absurd rfl (hmap _)
    | leaf h => exact h.same
  · intro h
    refine alike_of_fits hlist hmap ?_
    cases hv : v.rank? with
    | some m => exact .leaf ((loose_iff hv).mpr h)
    | none =>
      cases v with
      | null => cases w <;> first | exact .null | cases h
      | str s =>
        cases w <;> try cases h
        next t => exact beq_iff_eq.mp h ▸ .str s
      | torn s =>
        cases w <;> try cases h
        next t => exact beq_iff_eq.mp h ▸ .torn s
      | list => exact absurd rfl (hlist _ _)
      | map => exact absurd rfl (hmap _)
      | _ => cases hv

theorem alike_list_iff_same (hitems : ∀ ys, itemsKeyed ys = true →
      (List.Forall₂ (Alike Loose) xs ys ↔ sameItems xs ys = true)) (hw : w.isKeyed = true) :
    Alike Loose (.list o xs) w ↔
      ((Value.list o xs).samePayload w || (Value.list o xs).same w) = true := by
  cases w with
  | list p ys => exact alike_list.trans (hitems ys hw)
  | _ =>
    refine iff_of_false (fun h => ?_) nofun
    cases h.fits with
    | leaf h => cases h.same

theorem has_eq_iff (hfields : fields.keys.Nodup) (hothers : others.keys.Nodup) :
    (∀ key, fields.has key = others.has key) ↔
      fields.length = others.length ∧ ∀ key ∈ fields.keys, key ∈ others.keys := by
  have hhas (t : Record) (key : String) : t.has key = true ↔ key ∈ t.keys := Table.isSome_get?_iff
  have hlength (t : Record) : t.keys.length = t.length := List.length_map _
  simp only [Bool.eq_iff_iff, hhas, ← hlength]
  constructor
  · intro h
    exact ⟨((List.perm_ext_iff_of_nodup hfields hothers).mpr h).length_eq, fun key => (h key).mp⟩
  · rintro ⟨hequal, hsub⟩ key
    exact ((hfields.subperm hsub).perm_of_length_le (Nat.le_of_eq hequal.symm)).mem_iff

theorem alike_map_iff_forall (hfields : fields.keys.Nodup) (hothers : others.keys.Nodup) :
    Alike Loose (.map fields) (.map others) ↔ fields.length = others.length ∧
      ∀ entry ∈ fields, ∃ w, others.get? entry.1 = some w ∧ Alike Loose entry.2 w := by
  rw [alike_map, has_eq_iff hfields hothers, and_assoc]
  refine and_congr_right fun _ => ⟨?_, ?_⟩
  · rintro ⟨hsub, halike⟩ entry hentry
    have hkey := hsub entry.1 (List.mem_map_of_mem hentry)
    obtain ⟨w, hw⟩ := Option.isSome_iff_exists.mp (Table.isSome_get?_iff.mpr hkey)
    exact ⟨w, hw, halike _ _ _ (Table.get?_of_mem hfields hentry) hw⟩
  · intro h
    constructor
    · intro key hkey
      obtain ⟨entry, hentry, rfl⟩ := List.mem_map.mp hkey
      obtain ⟨w, hw, -⟩ := h entry hentry
      exact Table.isSome_get?_iff.mp (Option.isSome_of_eq_some hw)
    · intro key v w hv hw
      obtain ⟨w', hw', halike⟩ := h (key, v) (Table.mem_of_get? hv)
      cases hw.symm.trans hw'
      exact halike

theorem alike_map_iff_same (hentries : ∀ others, fieldsKeyed others = true →
      ((∀ entry ∈ fields, ∃ w, Table.get? entry.1 others = some w ∧ Alike Loose entry.2 w) ↔
        sameFields fields others = true))
    (hfields : fields.keys.Nodup) (hw : w.isKeyed = true) :
    Alike Loose (.map fields) w ↔
      ((Value.map fields).samePayload w || (Value.map fields).same w) = true := by
  cases w with
  | map others =>
    obtain ⟨hothers, hkeyed⟩ := (Bool.and_eq_true _ _).mp hw
    rw [alike_map_iff_forall hfields (of_decide_eq_true hothers), hentries others hkeyed]
    exact (and_congr_left' beq_iff_eq.symm).trans (Iff.of_eq (Bool.and_eq_true _ _).symm)
  | _ =>
    refine iff_of_false (fun h => ?_) nofun
    cases h.fits with
    | leaf h => cases h.same

theorem isKeyed_of_get? {key : String} (h : fieldsKeyed fields = true)
    (hv : fields.get? key = some v) : v.isKeyed = true := by
  induction fields with
  | nil => cases hv
  | cons entry rest ih =>
    obtain ⟨hentry, hrest⟩ := (Bool.and_eq_true _ _).mp h
    rw [Table.get?] at hv
    split at hv
    · exact Option.some.inj hv ▸ hentry
    · exact ih hrest hv

mutual

theorem alike_iff (v w : Value) (hv : v.isKeyed = true) (hw : w.isKeyed = true) :
    Alike Loose v w ↔ (v.samePayload w || v.same w) = true := by
  match v with
  | .list o xs => exact alike_list_iff_same (fun ys hys => forall₂_alike_iff xs ys hv hys) hw
  | .map fields =>
    obtain ⟨hnodup, hkeyed⟩ := (Bool.and_eq_true _ _).mp hv
    exact alike_map_iff_same (fun others hothers => forall_alike_iff fields others hkeyed hothers)
      (of_decide_eq_true hnodup) hw
  | .null => exact alike_iff_same (by simp) (by simp)
  | .bool b => exact alike_iff_same (by simp) (by simp)
  | .int n => exact alike_iff_same (by simp) (by simp)
  | .float x => exact alike_iff_same (by simp) (by simp)
  | .nan payload => exact alike_iff_same (by simp) (by simp)
  | .str s => exact alike_iff_same (by simp) (by simp)
  | .torn s => exact alike_iff_same (by simp) (by simp)

theorem forall₂_alike_iff (xs ys : List Value) (hxs : itemsKeyed xs = true)
    (hys : itemsKeyed ys = true) :
    List.Forall₂ (Alike Loose) xs ys ↔ sameItems xs ys = true := by
  match xs, ys with
  | [], [] => exact iff_of_true .nil rfl
  | [], _ :: _ => exact iff_of_false nofun nofun
  | _ :: _, [] => exact iff_of_false nofun nofun
  | x :: xs, y :: ys =>
    rw [itemsKeyed, Bool.and_eq_true] at hxs hys
    rw [List.forall₂_cons, sameItems, Bool.and_eq_true, alike_iff x y hxs.1 hys.1,
      forall₂_alike_iff xs ys hxs.2 hys.2]

theorem forall_alike_iff (fields others : List (String × Value)) (hfields : fieldsKeyed fields = true)
    (hothers : fieldsKeyed others = true) :
    (∀ entry ∈ fields, ∃ w, Table.get? entry.1 others = some w ∧ Alike Loose entry.2 w) ↔
      sameFields fields others = true := by
  match fields with
  | [] => exact iff_of_true nofun rfl
  | (key, v) :: rest =>
    rw [fieldsKeyed, Bool.and_eq_true] at hfields
    rw [List.forall_mem_cons, sameFields, Bool.and_eq_true,
      forall_alike_iff rest others hfields.2 hothers]
    refine and_congr_left fun _ => ?_
    cases hw : Table.get? key others with
    | none => exact iff_of_false nofun nofun
    | some w =>
      simpa using alike_iff v w hfields.1 (isKeyed_of_get? hothers hw)

end

theorem same_iff (hv : v.isKeyed = true) (hw : w.isKeyed = true) :
    v.same w = true ↔ Fits Ranked v w ∧ Alike Loose v w := by
  rw [alike_iff v w hv hw, Bool.or_eq_true]
  constructor
  · intro h
    have halike := (alike_iff v w hv hw).mpr ((Bool.or_eq_true _ _).mpr (.inr h))
    refine ⟨halike.fits.mono fun hleaf => hleaf.elim (fun hpayload => ?_) id, .inr h⟩
    cases v <;> first | exact (ranked_iff rfl).mpr h | cases hpayload
  · rintro ⟨hfits, hpayload | h⟩
    · cases v <;> try cases hpayload
      cases hfits with
      | leaf h => exact (ranked_iff rfl).mp h
    · exact h

theorem alike_strict_iff (hpayload : ∀ x y, Opposite v w x y → x.samePayload y = false) :
    Alike Strict v w ↔ Alike Loose v w ∧ ∀ x y, Opposite v w x y → x.isBool = y.isBool := by
  constructor
  · intro h
    exact ⟨fun x y hopposite => (h x y hopposite).mono fun hleaf => .inr hleaf.ranked,
      fun x y hopposite => (h x y hopposite).isBool⟩
  · rintro ⟨h, hbool⟩ x y hopposite
    refine (h x y hopposite).mono fun hleaf => ?_
    rcases hleaf with hsame | hranked
    · exact absurd hsame (Bool.eq_false_iff.mp (hpayload x y hopposite))
    · exact hranked.strict (hbool x y hopposite)

/-- Two values are equal if both or neither are truth values and they are alike, where below them
truth values count as 0 and 1 and a NaN is like itself. So, a NaN opposite itself aside, equal
values are strictly alike exactly if nowhere within them a truth value stands opposite anything but
a truth value. Being unequal is the opposite of being equal. -/
theorem equal_iff_alike (hv : v.isKeyed = true) (hw : w.isKeyed = true) :
    (v.compares .eq w = true ↔ v.isBool = w.isBool ∧ Fits Ranked v w ∧ Alike Loose v w) ∧
      v.compares .ne w = !v.compares .eq w ∧
      ((∀ x y, Opposite v w x y → x.samePayload y = false) →
        (Alike Strict v w ↔
          v.compares .eq w = true ∧ ∀ x y, Opposite v w x y → x.isBool = y.isBool)) := by
  have hequal : v.compares .eq w = true ↔
      v.isBool = w.isBool ∧ Fits Ranked v w ∧ Alike Loose v w := by
    rw [← same_iff hv hw, ← beq_iff_eq (a := v.isBool)]
    exact Iff.of_eq (Bool.and_eq_true _ _)
  refine ⟨hequal, rfl, fun hpayload => ?_⟩
  rw [hequal, alike_strict_iff hpayload]
  constructor
  · rintro ⟨halike, hbool⟩
    have hleaf : Loose v w → Ranked v w := fun h => h.resolve_left
      (Bool.eq_false_iff.mp (hpayload v w (.whole v w)))
    exact ⟨⟨hbool v w (.whole v w), halike.fits.mono hleaf, halike⟩, hbool⟩
  · rintro ⟨⟨-, -, halike⟩, hbool⟩
    exact ⟨halike, hbool⟩

/-- A chest, with its entries in one order and in the other. -/
theorem equal_iff_alike_chest :
    Alike Strict (.map [("open", .bool true), ("gems", .int 3)])
      (.map [("gems", .int 3), ("open", .bool true)]) := by
  have hopposite (x y : Value) (h : Opposite (.map [("open", .bool true), ("gems", .int 3)])
      (.map [("gems", .int 3), ("open", .bool true)]) x y) :
      x.isBool = y.isBool ∧ x.samePayload y = false := by
    cases h with
    | whole => exact ⟨rfl, rfl⟩
    | @entry _ _ key _ _ _ _ hx hy h =>
      simp only [Table.get?] at hx hy
      split at hx
      · subst_vars
        cases hx
        cases hy
        cases h
        exact ⟨rfl, rfl⟩
      · split at hx
        · subst_vars
          cases hx
          cases hy
          cases h
          exact ⟨rfl, rfl⟩
        · cases hx
  exact ((equal_iff_alike (by decide) (by decide)).2.2 fun x y h => (hopposite x y h).2).mpr
    ⟨by decide, fun x y h => (hopposite x y h).1⟩

/-- Within a list the number one is equal to the truth value. -/
theorem one_equals_truth_within :
    let v : Value := .ofItems [.bool true]
    let w : Value := .ofItems [.int 1]
    (Value.bool true).compares .eq (.int 1) = false ∧
      v.compares .eq w = true ∧ v.compares .ne w = false ∧ ¬ Alike Strict v w := by
  intro v w
  refine ⟨by decide, by decide, by decide, fun h => ?_⟩
  have hbool := (h (.bool true) (.int 1) (.item (n := 0) rfl rfl (.whole _ _))).isBool
  cases hbool

end Value

end StepWorld
