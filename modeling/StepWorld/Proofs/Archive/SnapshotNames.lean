import StepWorld.Archive.Files

/-! The names of snapshot files. The number of a step is read back from the name that it was
given, and no two steps share a name. -/

namespace StepWorld

theorem digitValue?_of_isDigit {c : Char} (h : c.isDigit = true) :
    digitValue? c = some (c.toNat - '0'.toNat) := by
  simp [digitValue?, h]

theorem isDigitLike_of_isDigit {c : Char} (h : c.isDigit = true) : isDigitLike c = true := by
  simp [isDigitLike, digitValue?_of_isDigit h]

theorem not_isNumberBlank_of_isDigit {c : Char} (h : c.isDigit = true) :
    isNumberBlank c = false := by
  have hrange : 48 ≤ c.toNat ∧ c.toNat ≤ 57 := by
    simpa [Char.isDigit, UInt32.le_iff_toNat_le] using h
  have hblank : isBlank c = false := by
    simp only [isBlank, isWideBlank, Bool.or_eq_false_iff, Bool.and_eq_false_iff,
      decide_eq_false_iff_not]
    omega
  simp [isNumberBlank, hblank]

variable {text : List Char}

theorem takeDigits_of_isDigit (h : ∀ c ∈ text, c.isDigit = true) :
    takeDigits text = (text.map fun c => c.toNat - '0'.toNat, []) := by
  induction text with
  | nil => rfl
  | cons c rest ih =>
    have hc := digitValue?_of_isDigit (h c List.mem_cons_self)
    have hrest := ih fun d hd => h d (List.mem_cons_of_mem _ hd)
    unfold takeDigits
    split
    · next heq => cases heq
    · next heq =>
      cases heq
      exact absurd (h '_' (by simp)) (by decide)
    · next heq =>
      cases heq
      simp [hc, hrest]

theorem trimNumber_of_isDigit (h : ∀ c ∈ text, c.isDigit = true) : trimNumber text = text := by
  have hdrop (row : List Char) (hrow : ∀ c ∈ row, c.isDigit = true) :
      row.dropWhile isNumberBlank = row := by
    cases row with
    | nil => rfl
    | cons c rest => simp [not_isNumberBlank_of_isDigit (hrow c List.mem_cons_self)]
  unfold trimNumber
  rw [hdrop text h, hdrop text.reverse (by simpa using h), List.reverse_reverse]

theorem takeSign_of_isDigit (h : ∀ c ∈ text, c.isDigit = true) : takeSign text = (false, text) := by
  unfold takeSign
  split
  · exact absurd (h '-' (by simp)) (by decide)
  · exact absurd (h '+' (by simp)) (by decide)
  · rfl

theorem readInt_of_isDigit (h : ∀ c ∈ text, c.isDigit = true) (hne : text ≠ [])
    (hlimit : text.length ≤ digitLimit) :
    readInt (String.ofList text) = .ok (Nat.ofDigitChars 10 text 0 : Int) := by
  have hvalue : digitsValue (text.map fun c => c.toNat - '0'.toNat) =
      Nat.ofDigitChars 10 text 0 := by
    simp [digitsValue, Nat.ofDigitChars_eq_foldl, List.foldl_map]
  have hlong : ¬ digitLimit < text.length := Nat.not_lt.mpr hlimit
  cases text with
  | nil => exact absurd rfl hne
  | cons c rest =>
    unfold readInt
    rw [String.toList_ofList, trimNumber_of_isDigit h, takeSign_of_isDigit h]
    dsimp only
    rw [takeDigits_of_isDigit h, ← hvalue]
    simp only [List.length_cons] at hlong
    simp [hlong]

theorem paddedInt_natCast (n : Nat) :
    paddedInt 5 n = List.replicate (5 - (Nat.toDigits 10 n).length) '0' ++ Nat.toDigits 10 n := by
  have hsign : ¬ (n : Int) < 0 := by omega
  simp [paddedInt, hsign]

theorem isDigit_of_mem_paddedInt {n : Nat} {c : Char} (h : c ∈ paddedInt 5 n) :
    c.isDigit = true := by
  rw [paddedInt_natCast, List.mem_append, List.mem_replicate] at h
  rcases h with ⟨-, rfl⟩ | h
  · decide
  · exact Nat.isDigit_of_mem_toDigits (by decide) (by decide) h

theorem ofDigitChars_paddedInt (n : Nat) : Nat.ofDigitChars 10 (paddedInt 5 n) 0 = n := by
  rw [paddedInt_natCast, Nat.ofDigitChars_append]
  simp

theorem paddedInt_ne_nil (n : Nat) : paddedInt 5 n ≠ [] := by
  rw [paddedInt_natCast]
  simp [Nat.toDigits_ne_nil]

theorem stepText?_snapshotName (n : Nat) :
    stepText? (snapshotName n) = some (String.ofList (paddedInt 5 n)) := by
  have htake : (paddedInt 5 n ++ ".json".toList).takeWhile isDigitLike = paddedInt 5 n := by
    rw [List.takeWhile_append_of_pos fun c hc =>
      isDigitLike_of_isDigit (isDigit_of_mem_paddedInt hc)]
    have hjson : ".json".toList.takeWhile isDigitLike = [] := by decide
    rw [hjson, List.append_nil]
  unfold stepText? snapshotName
  rw [String.toList_ofList, htake]
  simp [paddedInt_ne_nil]

theorem paddedInt_of_snapshotName {step other : Int} (h : snapshotName step = snapshotName other) :
    paddedInt 5 step = paddedInt 5 other := List.append_cancel_right (String.ofList_injective h)

theorem snapshotName_injective {m n : Nat} (h : snapshotName m = snapshotName n) : m = n := by
  rw [← ofDigitChars_paddedInt m, paddedInt_of_snapshotName h, ofDigitChars_paddedInt]

theorem mem_paddedInt_cases {step : Int} {c : Char} (h : c ∈ paddedInt 5 step) :
    c = '-' ∨ c.isDigit = true := by
  unfold paddedInt at h
  rw [List.mem_append, List.mem_append, List.mem_replicate] at h
  rcases h with (h | ⟨-, rfl⟩) | h
  · split at h
    · exact .inl (List.mem_singleton.mp h)
    · cases h
  · exact .inr (by decide)
  · rw [Nat.toString_eq_repr, Nat.toList_repr] at h
    exact .inr (Nat.isDigit_of_mem_toDigits (by decide) (by decide) h)

theorem length_le_utf8ByteSize (text : List Char) :
    text.length ≤ (String.ofList text).utf8ByteSize := by
  induction text with
  | nil => exact Nat.zero_le _
  | cons c rest ih =>
    have hc := c.utf8Size_pos
    rw [String.ofList_cons, String.utf8ByteSize_append, String.utf8ByteSize_singleton]
    simp only [List.length_cons]
    omega

theorem stepOf_paddedInt {n : Nat} (h : (snapshotName n).utf8ByteSize ≤ longestName) :
    stepOf (String.ofList (paddedInt 5 n)) = .ok n := by
  have hbytes : (paddedInt 5 n ++ ".json".toList).length ≤ (snapshotName n).utf8ByteSize :=
    length_le_utf8ByteSize _
  have hlimit : (paddedInt 5 n).length ≤ digitLimit := by
    have hsmall : longestName ≤ digitLimit := by decide
    rw [List.length_append] at hbytes
    omega
  unfold stepOf
  rw [readInt_of_isDigit (fun c => isDigit_of_mem_paddedInt) (paddedInt_ne_nil n) hlimit,
    ofDigitChars_paddedInt]

def firstSteps (n : Nat) : List Int := (List.range n).map fun k => (k + 1 : Nat)

theorem firstSteps_succ (n : Nat) : firstSteps (n + 1) = firstSteps n ++ [((n + 1 : Nat) : Int)] := by
  simp [firstSteps, List.range_succ]

theorem pairwise_mergeSort_int (steps : List Int) : (steps.mergeSort (· ≤ ·)).Pairwise (· ≤ ·) := by
  have hpairwise := @List.pairwise_mergeSort Int (fun a b => decide (a ≤ b))
    (fun a b c hab hbc => by simp at *; omega) (fun a b => by simp; omega) steps
  simpa using hpairwise

theorem mergeSort_eq_of_perm {steps sorted : List Int} (h : steps.Perm sorted)
    (hsorted : sorted.Pairwise (· ≤ ·)) : steps.mergeSort (· ≤ ·) = sorted :=
  ((List.mergeSort_perm steps _).trans h).eq_of_pairwise (fun _ _ _ _ => Int.le_antisymm)
    (pairwise_mergeSort_int steps) hsorted

theorem mergeSort_congr {steps other : List Int} (h : steps.Perm other) :
    steps.mergeSort (· ≤ ·) = other.mergeSort (· ≤ ·) :=
  mergeSort_eq_of_perm (h.trans (List.mergeSort_perm other _).symm) (pairwise_mergeSort_int other)

theorem mergeSort_firstSteps {steps : List Int} {n : Nat} (h : steps.Perm (firstSteps n)) :
    steps.mergeSort (· ≤ ·) = firstSteps n := by
  refine mergeSort_eq_of_perm h ?_
  rw [firstSteps, List.pairwise_map]
  exact List.pairwise_lt_range.imp fun hlt => by omega

theorem mapM_eq_ok {α β ε : Type} {f : α → Except ε β} {g : α → β} {items : List α}
    (h : ∀ x ∈ items, f x = .ok (g x)) : items.mapM f = .ok (items.map g) := by
  induction items with
  | nil => rfl
  | cons x rest ih =>
    rw [List.mapM_cons, h x List.mem_cons_self, ih fun y hy => h y (List.mem_cons_of_mem _ hy)]
    rfl

theorem mapM_stepOf {names : List String} {steps : List Nat}
    (h : names.Perm (steps.map fun n : Nat => snapshotName n))
    (hshort : ∀ n ∈ steps, (snapshotName n).utf8ByteSize ≤ longestName) :
    ∃ numbers, (names.filterMap stepText?).mapM stepOf = .ok numbers ∧
      numbers.Perm (steps.map fun n : Nat => (n : Int)) := by
  have htexts : (names.filterMap stepText?).Perm
      (steps.map fun n : Nat => String.ofList (paddedInt 5 n)) := by
    have hperm := h.filterMap stepText?
    simpa only [List.filterMap_map, Function.comp_def, stepText?_snapshotName,
      List.filterMap_eq_map'] using hperm
  let value (text : String) : Int := Nat.ofDigitChars 10 text.toList 0
  have hvalue (k : Nat) : value (String.ofList (paddedInt 5 k)) = k := by
    simp only [value, String.toList_ofList, ofDigitChars_paddedInt]
  refine ⟨(names.filterMap stepText?).map value, mapM_eq_ok fun text htext => ?_, ?_⟩
  · obtain ⟨k, hk, rfl⟩ := List.mem_map.mp (htexts.mem_iff.mp htext)
    rw [stepOf_paddedInt (hshort k hk), hvalue]
  · have hmap := htexts.map value
    simpa only [List.map_map, Function.comp_def, hvalue] using hmap

end StepWorld
