import StepWorld.Proofs.Syntax.ExpressionGrammar

/-! Readers that succeed have converted every numeral that they took, so none of them is too long.
Whatever is taken, the long numerals of a list stay in front of the reader. -/

namespace StepWorld

variable {t : Token} {ts mid rest : List Token} {e left : Expr} {finish : Position} {p size : Nat}

def longNumerals (ts : List Token) : List Token :=
  ts.filter fun t => t.kind == .number && !isShortNumeral t.value

theorem longNumerals_eq_nil_iff : longNumerals ts = [] ↔ ShortNumerals ts := by
  simp [longNumerals, ShortNumerals]

theorem longNumerals_cons_of_kind (h : t.kind ≠ .number) :
    longNumerals (t :: ts) = longNumerals ts :=
  List.filter_cons_of_neg (by simp [h])

theorem longNumerals_cons_of_short (h : isShortNumeral t.value = true) :
    longNumerals (t :: ts) = longNumerals ts :=
  List.filter_cons_of_neg (by simp [h])

/-! ### Single tokens and numbers -/

theorem takeMark_longNumerals {c : Char} (h : taken (takeMark finish c ts) = some (t, rest)) :
    longNumerals rest = longNumerals ts := by
  obtain ⟨rfl, ht⟩ := taken_takeMark.mp h
  exact (longNumerals_cons_of_kind (by simp [kind_of_isMark ht])).symm

theorem takeName_longNumerals {expected : Expectation}
    (h : taken (takeName finish expected ts) = some (t, rest)) :
    longNumerals rest = longNumerals ts := by
  obtain ⟨rfl, ht⟩ := taken_takeName.mp h
  exact (longNumerals_cons_of_kind (by simp [ht])).symm

theorem floatAtFront_longNumerals {change : Number → Number} {x : Float}
    (h : floatAtFront change ts = some (x, rest)) : longNumerals rest = longNumerals ts := by
  obtain ⟨t, rfl, -, hshort, -⟩ := floatAtFront_eq_some_iff.mp h
  exact (longNumerals_cons_of_short hshort).symm

theorem takeFloat_longNumerals {x : Float} (h : taken (takeFloat finish ts) = some (x, rest)) :
    longNumerals rest = longNumerals ts := by
  rw [taken_takeFloat] at h
  cases ts with
  | nil => cases h
  | cons t ts =>
    dsimp only at h
    split at h
    · next hminus =>
      rw [longNumerals_cons_of_kind (by simp [kind_of_isOperator hminus])]
      exact floatAtFront_longNumerals h
    · exact floatAtFront_longNumerals h

theorem takeThreshold_longNumerals {clause : ProbabilityClause}
    (h : taken (takeThreshold finish e ts) = some (clause, rest)) :
    longNumerals rest = longNumerals ts := by
  cases ts with
  | nil =>
    cases h
    rfl
  | cons t ts =>
    rw [taken_takeThreshold_cons] at h
    split at h
    · next ht =>
      obtain ⟨⟨x, mid⟩, hx, h⟩ := Option.bind_eq_some_iff.mp h
      cases h
      have hkind : t.kind = .operator := by
        simp only [isThresholdOperator, Bool.and_eq_true, beq_iff_eq] at ht
        exact ht.1
      rw [longNumerals_cons_of_kind (by simp [hkind])]
      exact takeFloat_longNumerals hx
    · cases h
      rfl

/-! ### Expressions -/

def PassesBelow (finish : Position) (size : Nat) : Prop :=
  ∀ ts : List Token, ts.length < size → ∀ p e rest,
    taken (readExpr finish p ts) = some (e, rest) → longNumerals rest = longNumerals ts

theorem continueExpr_longNumerals (hb : PassesBelow finish size) (hlen : ts.length ≤ size)
    (h : taken (continueExpr finish p left ts) = some (e, rest)) :
    longNumerals rest = longNumerals ts := by
  induction hsize : ts.length using Nat.strongRecOn generalizing ts left with
  | ind k ih =>
    cases ts with
    | nil =>
      rw [taken_continueExpr_nil] at h
      cases h
      rfl
    | cons t ts =>
      rw [taken_continueExpr_cons] at h
      cases hq : t.rightPower? p with
      | none =>
        rw [hq] at h
        cases h
        rfl
      | some q =>
        rw [hq] at h
        obtain ⟨⟨right, mid⟩, hright, h⟩ := Option.bind_eq_some_iff.mp h
        obtain ⟨c, hjoins, -⟩ := rightPower?_eq_some_iff.mp hq
        have hmid := length_lt_of_taken hright
        simp only [List.length_cons] at hlen hsize
        rw [longNumerals_cons_of_kind (by simp [hjoins.1]), ← hb ts hlen _ _ _ hright]
        exact ih mid.length (by omega) (by omega) h rfl

theorem readArgs_longNumerals (hb : PassesBelow finish size) (hlen : ts.length < size)
    {first : Bool} {args : List Expr} (h : taken (readArgs finish first ts) = some (args, rest)) :
    longNumerals rest = longNumerals ts := by
  induction hsize : ts.length using Nat.strongRecOn generalizing ts first args with
  | ind k ih =>
    cases ts with
    | nil => simp at h
    | cons t ts =>
      rw [taken_readArgs_cons] at h
      split at h
      · next hclose =>
        cases h
        exact (longNumerals_cons_of_kind (by simp [kind_of_isMark hclose])).symm
      · obtain ⟨start, hstart, h⟩ := Option.bind_eq_some_iff.mp h
        obtain ⟨⟨arg, mid⟩, harg, h⟩ := Option.bind_eq_some_iff.mp h
        obtain ⟨⟨args', last⟩, hargs, h⟩ := Option.bind_eq_some_iff.mp h
        cases h
        have hbegin : longNumerals start = longNumerals (t :: ts) ∧
            start.length ≤ (t :: ts).length := by
          cases first with
          | true =>
            cases hstart
            exact ⟨rfl, Nat.le_refl _⟩
          | false =>
            obtain ⟨⟨comma, start'⟩, hcomma, rfl⟩ := Option.map_eq_some_iff.mp hstart
            exact ⟨takeMark_longNumerals hcomma, Nat.le_of_lt (length_lt_of_taken hcomma)⟩
        obtain ⟨hbegin, hle⟩ := hbegin
        have hmid := length_lt_of_taken harg
        rw [← hbegin, ← hb start (by omega) _ _ _ harg]
        exact ih mid.length (by omega) (by omega) hargs rfl

theorem readTemporal_longNumerals (hb : PassesBelow finish size) (hlen : ts.length ≤ size)
    {op : TemporalOp} {clause : TemporalClause}
    (h : taken (readTemporal finish op ts) = some (clause, rest)) :
    longNumerals rest = longNumerals ts := by
  rw [taken_readTemporal] at h
  obtain ⟨⟨opening, start⟩, hopen, h⟩ := Option.bind_eq_some_iff.mp h
  obtain ⟨⟨first, mid⟩, hfirst, h⟩ := Option.bind_eq_some_iff.mp h
  have hstart := length_lt_of_taken hopen
  have hmid := length_lt_of_taken hfirst
  rw [← takeMark_longNumerals hopen, ← hb start (by omega) _ _ _ hfirst]
  dsimp only at h
  split at h
  · obtain ⟨⟨comma, next⟩, hcomma, h⟩ := Option.bind_eq_some_iff.mp h
    obtain ⟨⟨second, behind⟩, hsecond, h⟩ := Option.bind_eq_some_iff.mp h
    obtain ⟨⟨closing, last⟩, hclose, h⟩ := Option.bind_eq_some_iff.mp h
    cases h
    have hnext := length_lt_of_taken hcomma
    rw [takeMark_longNumerals hclose, hb next (by omega) _ _ _ hsecond,
      takeMark_longNumerals hcomma]
  · obtain ⟨⟨closing, last⟩, hclose, h⟩ := Option.bind_eq_some_iff.mp h
    cases h
    exact takeMark_longNumerals hclose

theorem readProbability_longNumerals (hb : PassesBelow finish size) (hlen : ts.length ≤ size)
    {clause : ProbabilityClause} (h : taken (readProbability finish ts) = some (clause, rest)) :
    longNumerals rest = longNumerals ts := by
  rw [taken_readProbability] at h
  obtain ⟨⟨opening, start⟩, hopen, h⟩ := Option.bind_eq_some_iff.mp h
  obtain ⟨⟨event, mid⟩, hevent, h⟩ := Option.bind_eq_some_iff.mp h
  obtain ⟨⟨closing, next⟩, hclose, h⟩ := Option.bind_eq_some_iff.mp h
  have hstart := length_lt_of_taken hopen
  rw [takeThreshold_longNumerals h, takeMark_longNumerals hclose,
    hb start (by omega) _ _ _ hevent, takeMark_longNumerals hopen]

theorem readNamed_longNumerals (hb : PassesBelow finish size) (hlen : ts.length ≤ size)
    {name : String} (h : taken (readNamed finish name ts) = some (e, rest)) :
    longNumerals rest = longNumerals ts := by
  rw [taken_readNamed] at h
  split at h
  · cases h
    rfl
  split at h
  · obtain ⟨⟨clause, mid⟩, hclause, h⟩ := Option.bind_eq_some_iff.mp h
    cases h
    exact readTemporal_longNumerals hb hlen hclause
  split at h
  · obtain ⟨⟨clause, mid⟩, hclause, h⟩ := Option.bind_eq_some_iff.mp h
    cases h
    exact readProbability_longNumerals hb hlen hclause
  cases ts with
  | nil =>
    cases h
    rfl
  | cons t ts =>
    dsimp only at h
    split at h
    · next hdot =>
      obtain ⟨⟨member, mid⟩, hmember, h⟩ := Option.bind_eq_some_iff.mp h
      cases h
      rw [longNumerals_cons_of_kind (by simp [kind_of_isMark hdot])]
      exact takeName_longNumerals hmember
    · split at h
      · next hopen =>
        obtain ⟨⟨args, mid⟩, hargs, h⟩ := Option.bind_eq_some_iff.mp h
        cases h
        rw [longNumerals_cons_of_kind (by simp [kind_of_isMark hopen])]
        exact readArgs_longNumerals hb hlen hargs
      · cases h
        rfl

theorem readOperand_longNumerals (hb : PassesBelow finish size) (hlen : ts.length ≤ size)
    (h : taken (readOperand finish ts) = some (e, rest)) : longNumerals rest = longNumerals ts := by
  cases ts with
  | nil => simp at h
  | cons t ts =>
    simp only [List.length_cons] at hlen
    rw [taken_readOperand_cons] at h
    cases hk : t.kind with
    | number =>
      rw [hk] at h
      obtain ⟨number, hnumber, h⟩ := Option.map_eq_some_iff.mp h
      cases h
      have hshort := (numeralNumber_eq_ok_iff.mp (toOption_eq_some_iff.mp hnumber)).1
      exact (longNumerals_cons_of_short hshort).symm
    | operator =>
      rw [longNumerals_cons_of_kind (by simp [hk])]
      rw [hk] at h
      dsimp only at h
      split at h
      · obtain ⟨⟨operand, mid⟩, hoperand, h⟩ := Option.bind_eq_some_iff.mp h
        cases h
        exact hb ts (by omega) _ _ _ hoperand
      · cases h
    | string =>
      rw [longNumerals_cons_of_kind (by simp [hk])]
      rw [hk] at h
      cases h
      rfl
    | punctuation =>
      rw [longNumerals_cons_of_kind (by simp [hk])]
      rw [hk] at h
      dsimp only at h
      split at h
      · obtain ⟨⟨inner, mid⟩, hinner, h⟩ := Option.bind_eq_some_iff.mp h
        obtain ⟨⟨closing, last⟩, hclose, h⟩ := Option.bind_eq_some_iff.mp h
        cases h
        rw [takeMark_longNumerals hclose]
        exact hb ts (by omega) _ _ _ hinner
      · cases h
    | identifier =>
      rw [longNumerals_cons_of_kind (by simp [hk])]
      rw [hk] at h
      exact readNamed_longNumerals hb (by omega) h

theorem passesBelow (finish : Position) (size : Nat) : PassesBelow finish size := by
  induction size with
  | zero => exact fun ts hlen => absurd hlen (Nat.not_lt_zero _)
  | succ size ih =>
    intro ts hlen p e rest h
    rw [taken_readExpr] at h
    obtain ⟨⟨left, mid⟩, hleft, h⟩ := Option.bind_eq_some_iff.mp h
    have hmid := length_lt_of_taken hleft
    rw [← readOperand_longNumerals ih (by omega) hleft]
    exact continueExpr_longNumerals ih (by omega) h

/-- A token list is read as an expression only if all its numerals are short enough. -/
theorem shortNumerals_of_exprOfTokens (h : exprOfTokens ts = .ok e) : ShortNumerals ts :=
  longNumerals_eq_nil_iff.mp (passesBelow _ _ ts (Nat.lt_succ_self _) 0 e []
    (exprOfTokens_eq_ok_iff_taken.mp h)).symm

end StepWorld
