import StepWorld.Proofs.Syntax.Seam
import StepWorld.Proofs.Syntax.Taken

/-! Readers look at the tokens that they take and at the kind and the value of the first one that
they leave. They read the same further down in a source, and before more tokens. -/

namespace StepWorld

variable {n size p : Nat} {t : Token} {ts rest more : List Token} {e left : Expr} {c : Char}
  {finish finish' : Position}

def carried (n : Nat) (more ts : List Token) : List Token := ts.map (Token.down n) ++ more

@[simp] theorem carried_nil : carried n more [] = more := rfl

@[simp] theorem carried_cons :
    carried n more (t :: ts) = t.down n :: carried n more ts := rfl

def Sees (rest more : List Token) : Prop := rest = [] → more = []

theorem Sees.of_length (h : Sees rest more) (hle : rest.length ≤ ts.length) : Sees ts more := by
  rintro rfl
  exact h (List.length_eq_zero_iff.mp (Nat.le_zero.mp hle))

theorem Sees.of_taken {α : Type} {a : α} {result : Except SourceError (α × Rest ts)}
    (h : taken result = some (a, rest)) : Sees ts more := by
  rintro rfl
  exact absurd (length_lt_of_taken h) (Nat.not_lt_zero _)

@[simp] theorem Token.isMark_down : (t.down n).isMark c = t.isMark c := rfl

@[simp] theorem Token.isOperator_down {op : String} :
    (t.down n).isOperator op = t.isOperator op := rfl

@[simp] theorem Token.isWord_down {word : String} : (t.down n).isWord word = t.isWord word := rfl

@[simp] theorem isThresholdOperator_down :
    isThresholdOperator (t.down n) = isThresholdOperator t := rfl

theorem startsWithMark_carried (h : Sees ts more) :
    startsWithMark c (carried n more ts) = startsWithMark c ts := by
  cases ts with
  | nil => rw [carried_nil, h rfl]
  | cons t ts => rfl

theorem length_le_of_taken {α : Type} {a : α} {result : Except SourceError (α × Remainder ts)}
    (h : taken result = some (a, rest)) : rest.length ≤ ts.length :=
  (taken_eq_some_iff.mp h).choose

/-! ### Single tokens and numbers -/

theorem takeToken_carried {expected : Expectation} {test : Token → Bool}
    (htest : test (t.down n) = test t)
    (h : taken (takeToken finish expected test ts) = some (t, rest)) :
    taken (takeToken finish' expected test (carried n more ts)) =
      some (t.down n, carried n more rest) := by
  obtain ⟨rfl, ht⟩ := taken_takeToken.mp h
  exact taken_takeToken.mpr ⟨rfl, htest.trans ht⟩

theorem takeMark_carried (h : taken (takeMark finish c ts) = some (t, rest)) :
    taken (takeMark finish' c (carried n more ts)) = some (t.down n, carried n more rest) :=
  takeToken_carried rfl h

theorem takeName_carried {expected : Expectation}
    (h : taken (takeName finish expected ts) = some (t, rest)) :
    taken (takeName finish' expected (carried n more ts)) =
      some (t.down n, carried n more rest) :=
  takeToken_carried rfl h

theorem floatAtFront_carried {change : Number → Number} {x : Float}
    (h : floatAtFront change ts = some (x, rest)) :
    floatAtFront change (carried n more ts) = some (x, carried n more rest) := by
  cases ts with
  | nil => cases h
  | cons t ts =>
    simp only [floatAtFront] at h
    split at h
    · next hk =>
      simp only [Option.bind_eq_some_iff, Option.map_eq_some_iff, Prod.mk.injEq] at h
      obtain ⟨number, hn, y, hy, rfl, rfl⟩ := h
      simp [floatAtFront, hk, hn, hy]
    · cases h

theorem takeFloat_carried {x : Float} (h : taken (takeFloat finish ts) = some (x, rest)) :
    taken (takeFloat finish' (carried n more ts)) = some (x, carried n more rest) := by
  rw [taken_takeFloat] at h ⊢
  cases ts with
  | nil => cases h
  | cons t ts =>
    by_cases hminus : t.isOperator "-" = true
    · simp only [hminus, if_true] at h
      simp only [carried_cons, Token.isOperator_down, hminus, if_true]
      exact floatAtFront_carried h
    · simp only [hminus, Bool.false_eq_true, if_false] at h
      simp only [carried_cons, Token.isOperator_down, hminus, Bool.false_eq_true, if_false]
      rw [← carried_cons]
      exact floatAtFront_carried h

theorem takeThreshold_carried {clause : ProbabilityClause} (hs : Sees rest more)
    (h : taken (takeThreshold finish e ts) = some (clause, rest)) :
    taken (takeThreshold finish' e (carried n more ts)) = some (clause, carried n more rest) := by
  cases ts with
  | nil =>
    cases h
    rw [carried_nil, hs rfl]
    rfl
  | cons t ts =>
    rw [taken_takeThreshold_cons] at h
    rw [carried_cons, taken_takeThreshold_cons, isThresholdOperator_down]
    split at h
    · next ht =>
      obtain ⟨⟨x, mid⟩, hx, h⟩ := Option.bind_eq_some_iff.mp h
      cases h
      rw [if_pos ht, takeFloat_carried hx]
      rfl
    · next ht =>
      cases h
      rw [if_neg ht]
      rfl

/-! ### Expressions -/

def LocalBelow (n : Nat) (more : List Token) (finish finish' : Position) (size : Nat) : Prop :=
  ∀ ts : List Token, ts.length < size → ∀ p e rest, Sees rest more →
    taken (readExpr finish p ts) = some (e, rest) →
      taken (readExpr finish' p (carried n more ts)) = some (e, carried n more rest)

theorem continueExpr_carried (hb : LocalBelow n more finish finish' size) (hlen : ts.length ≤ size)
    (hs : Sees rest more) (h : taken (continueExpr finish p left ts) = some (e, rest)) :
    taken (continueExpr finish' p left (carried n more ts)) = some (e, carried n more rest) := by
  induction hsize : ts.length using Nat.strongRecOn generalizing ts left with
  | ind k ih =>
    cases ts with
    | nil =>
      rw [taken_continueExpr_nil] at h
      cases h
      rw [carried_nil, hs rfl, taken_continueExpr_nil]
    | cons t ts =>
      have hpower : (t.down n).rightPower? p = t.rightPower? p := rfl
      rw [taken_continueExpr_cons] at h
      rw [carried_cons, taken_continueExpr_cons, hpower]
      cases hq : t.rightPower? p with
      | none =>
        rw [hq] at h
        cases h
        rfl
      | some q =>
        rw [hq] at h
        obtain ⟨⟨right, mid⟩, hright, h⟩ := Option.bind_eq_some_iff.mp h
        have hmid := length_lt_of_taken hright
        simp only [List.length_cons] at hlen hsize
        have hread := hb ts hlen _ _ _ (hs.of_length (length_le_of_taken h)) hright
        have hnext := ih mid.length (by omega) (by omega) h rfl
        dsimp only
        rw [hread]
        exact hnext

theorem argumentStart_carried (n : Nat) (more : List Token) (finish' : Position) {first : Bool}
    {start : List Token}
    (h : (if first then some ts else (taken (takeMark finish ',' ts)).map (·.2)) = some start) :
    (if first then some (carried n more ts)
      else (taken (takeMark finish' ',' (carried n more ts))).map (·.2)) =
        some (carried n more start) ∧ start.length ≤ ts.length := by
  cases first with
  | true =>
    cases h
    exact ⟨rfl, Nat.le_refl _⟩
  | false =>
    obtain ⟨⟨comma, start'⟩, hcomma, rfl⟩ := Option.map_eq_some_iff.mp h
    refine ⟨?_, Nat.le_of_lt (length_lt_of_taken hcomma)⟩
    rw [if_neg Bool.false_ne_true, takeMark_carried hcomma]
    rfl

theorem readArgs_carried (hb : LocalBelow n more finish finish' size) (hlen : ts.length < size)
    {first : Bool} {args : List Expr}
    (h : taken (readArgs finish first ts) = some (args, rest)) :
    taken (readArgs finish' first (carried n more ts)) = some (args, carried n more rest) := by
  induction hsize : ts.length using Nat.strongRecOn generalizing ts first args with
  | ind k ih =>
    cases ts with
    | nil => simp at h
    | cons t ts =>
      rw [taken_readArgs_cons] at h
      rw [carried_cons, taken_readArgs_cons, Token.isMark_down]
      split at h
      · next hclose =>
        cases h
        rw [if_pos hclose]
      · next hclose =>
        obtain ⟨start, hstart, h⟩ := Option.bind_eq_some_iff.mp h
        obtain ⟨⟨arg, mid⟩, harg, h⟩ := Option.bind_eq_some_iff.mp h
        obtain ⟨⟨args', last⟩, hargs, h⟩ := Option.bind_eq_some_iff.mp h
        cases h
        obtain ⟨hstart', hle⟩ := argumentStart_carried n more finish' hstart
        have hmid := length_lt_of_taken harg
        have hread := hb start (by omega) _ _ _ (.of_taken hargs) harg
        have hnext := ih mid.length (by omega) (by omega) hargs rfl
        rw [if_neg hclose, ← carried_cons, hstart']
        simp only [Option.bind_some, hread, hnext]

theorem readTemporal_carried (hb : LocalBelow n more finish finish' size)
    (hlen : ts.length ≤ size) {op : TemporalOp} {clause : TemporalClause}
    (h : taken (readTemporal finish op ts) = some (clause, rest)) :
    taken (readTemporal finish' op (carried n more ts)) = some (clause, carried n more rest) := by
  rw [taken_readTemporal] at h ⊢
  obtain ⟨⟨opening, start⟩, hopen, h⟩ := Option.bind_eq_some_iff.mp h
  obtain ⟨⟨first, mid⟩, hfirst, h⟩ := Option.bind_eq_some_iff.mp h
  have hstart := length_lt_of_taken hopen
  have hmid := length_lt_of_taken hfirst
  rw [takeMark_carried hopen, Option.bind_some]
  dsimp only at h ⊢
  by_cases hop : op = .until
  · rw [if_pos hop] at h
    obtain ⟨⟨comma, next⟩, hcomma, h⟩ := Option.bind_eq_some_iff.mp h
    obtain ⟨⟨second, behind⟩, hsecond, h⟩ := Option.bind_eq_some_iff.mp h
    obtain ⟨⟨closing, last⟩, hclose, h⟩ := Option.bind_eq_some_iff.mp h
    cases h
    have hnext := length_lt_of_taken hcomma
    have hread := hb start (by omega) _ _ _ (.of_taken hcomma) hfirst
    have hread' := hb next (by omega) _ _ _ (.of_taken hclose) hsecond
    simp only [hread, hop, if_true, Option.bind_some, takeMark_carried hcomma, hread',
      takeMark_carried hclose]
  · rw [if_neg hop] at h
    obtain ⟨⟨closing, last⟩, hclose, h⟩ := Option.bind_eq_some_iff.mp h
    cases h
    have hread := hb start (by omega) _ _ _ (.of_taken hclose) hfirst
    simp only [hread, hop, if_false, Option.bind_some, takeMark_carried hclose]

theorem readProbability_carried (hb : LocalBelow n more finish finish' size)
    (hlen : ts.length ≤ size) (hs : Sees rest more) {clause : ProbabilityClause}
    (h : taken (readProbability finish ts) = some (clause, rest)) :
    taken (readProbability finish' (carried n more ts)) =
      some (clause, carried n more rest) := by
  rw [taken_readProbability] at h ⊢
  obtain ⟨⟨opening, start⟩, hopen, h⟩ := Option.bind_eq_some_iff.mp h
  obtain ⟨⟨event, mid⟩, hevent, h⟩ := Option.bind_eq_some_iff.mp h
  obtain ⟨⟨closing, next⟩, hclose, h⟩ := Option.bind_eq_some_iff.mp h
  have hstart := length_lt_of_taken hopen
  have hread := hb start (by omega) _ _ _ (.of_taken hclose) hevent
  simp only [takeMark_carried hopen, hread, takeMark_carried hclose, Option.bind_some]
  exact takeThreshold_carried hs h

theorem readNamed_carried (hb : LocalBelow n more finish finish' size) (hlen : ts.length ≤ size)
    (hs : Sees rest more) {name : String}
    (h : taken (readNamed finish name ts) = some (e, rest)) :
    taken (readNamed finish' name (carried n more ts)) = some (e, carried n more rest) := by
  have hsees : Sees ts more := hs.of_length (length_le_of_taken h)
  have htemporal : temporalStart? name (carried n more ts) = temporalStart? name ts := by
    rw [temporalStart?, temporalStart?, startsWithMark_carried hsees]
  have hprobability : opensProbability name (carried n more ts) = opensProbability name ts := by
    rw [opensProbability, opensProbability, startsWithMark_carried hsees]
  -- Which branch is taken depends on the mark in front, which is the same in both lists.
  rw [taken_readNamed] at h ⊢
  rw [htemporal, hprobability]
  by_cases htruth : (name == "true" || name == "false") = true
  · rw [if_pos htruth] at h ⊢
    cases h
    rfl
  · rw [if_neg htruth] at h ⊢
    cases hop : temporalStart? name ts with
    | some op =>
      rw [hop] at h
      obtain ⟨⟨clause, mid⟩, hclause, h⟩ := Option.bind_eq_some_iff.mp h
      cases h
      dsimp only
      rw [readTemporal_carried hb hlen hclause]
      rfl
    | none =>
      rw [hop] at h
      dsimp only at h ⊢
      by_cases hopens : opensProbability name ts = true
      · rw [if_pos hopens] at h ⊢
        obtain ⟨⟨clause, mid⟩, hclause, h⟩ := Option.bind_eq_some_iff.mp h
        cases h
        rw [readProbability_carried hb hlen hs hclause]
        rfl
      · rw [if_neg hopens] at h ⊢
        cases ts with
        | nil =>
          cases h
          rw [carried_nil, hs rfl]
        | cons t ts =>
          rw [carried_cons]
          dsimp only at h ⊢
          rw [Token.isMark_down, Token.isMark_down]
          by_cases hdot : t.isMark '.' = true
          · rw [if_pos hdot] at h ⊢
            obtain ⟨⟨member, mid⟩, hmember, h⟩ := Option.bind_eq_some_iff.mp h
            cases h
            rw [takeName_carried hmember]
            rfl
          · rw [if_neg hdot] at h ⊢
            by_cases hopen : t.isMark '(' = true
            · rw [if_pos hopen] at h ⊢
              obtain ⟨⟨args, mid⟩, hargs, h⟩ := Option.bind_eq_some_iff.mp h
              cases h
              rw [readArgs_carried hb hlen hargs]
              rfl
            · rw [if_neg hopen] at h ⊢
              cases h
              rfl

theorem readOperand_carried (hb : LocalBelow n more finish finish' size)
    (hlen : ts.length ≤ size) (hs : Sees rest more)
    (h : taken (readOperand finish ts) = some (e, rest)) :
    taken (readOperand finish' (carried n more ts)) = some (e, carried n more rest) := by
  cases ts with
  | nil => simp at h
  | cons t ts =>
    simp only [List.length_cons] at hlen
    rw [taken_readOperand_cons] at h
    rw [carried_cons, taken_readOperand_cons, Token.down_kind, Token.down_value, Token.isMark_down]
    cases hk : t.kind with
    | operator =>
      rw [hk] at h
      dsimp only at h ⊢
      split at h
      · next hlead =>
        obtain ⟨⟨operand, mid⟩, hoperand, h⟩ := Option.bind_eq_some_iff.mp h
        cases h
        rw [if_pos hlead, hb ts (by omega) _ _ _ hs hoperand]
        rfl
      · cases h
    | number =>
      rw [hk] at h
      obtain ⟨number, hnumber, h⟩ := Option.map_eq_some_iff.mp h
      cases h
      dsimp only
      rw [hnumber]
      rfl
    | string =>
      rw [hk] at h
      cases h
      rfl
    | punctuation =>
      rw [hk] at h
      dsimp only at h ⊢
      split at h
      · next hopen =>
        obtain ⟨⟨inner, mid⟩, hinner, h⟩ := Option.bind_eq_some_iff.mp h
        obtain ⟨⟨closing, last⟩, hclose, h⟩ := Option.bind_eq_some_iff.mp h
        cases h
        have hread := hb ts (by omega) _ _ _ (.of_taken hclose) hinner
        simp only [hopen, if_true, hread, takeMark_carried hclose, Option.bind_some]
      · cases h
    | identifier =>
      rw [hk] at h
      exact readNamed_carried hb (by omega) hs h

theorem localBelow (n : Nat) (more : List Token) (finish finish' : Position) (size : Nat) :
    LocalBelow n more finish finish' size := by
  -- Behind its first token an operand reads expressions from shorter lists only.
  induction size with
  | zero => exact fun ts hlen => absurd hlen (Nat.not_lt_zero _)
  | succ size ih =>
    intro ts hlen p e rest hs h
    rw [taken_readExpr] at h ⊢
    obtain ⟨⟨left, mid⟩, hleft, h⟩ := Option.bind_eq_some_iff.mp h
    have hmid := length_lt_of_taken hleft
    have hsees := hs.of_length (length_le_of_taken h)
    rw [readOperand_carried ih (by omega) hsees hleft]
    exact continueExpr_carried ih (by omega) hs h

/-- What is read of an expression depends on its tokens and on the one behind it alone. -/
theorem readExpr_carried (hs : Sees rest more) (h : taken (readExpr finish p ts) = some (e, rest)) :
    taken (readExpr finish' p (carried n more ts)) = some (e, carried n more rest) :=
  localBelow n more finish finish' _ ts (Nat.lt_succ_self _) p e rest hs h

end StepWorld
