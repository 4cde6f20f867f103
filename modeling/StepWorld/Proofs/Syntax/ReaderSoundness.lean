import StepWorld.Proofs.Outcomes
import StepWorld.Proofs.Syntax.Precedence

/-! What the readers take is derived by the grammar, in the category that the power of the
reading allows, and nothing that follows could have gone on with it. -/

namespace StepWorld

variable {t : Token} {c d : Category} {p q n : Nat} {start ts mid rest : List Token}
  {e left right : Expr} {finish : Position}

theorem Token.join_of_joins (h : t.joins c) (hc : c ≠ .assignment) :
    t.join left right = .binary (connectiveGlyph t.value) left right := by
  have ha : t.value ∉ assignmentOperators := fun ha =>
    hc ((mem_assignmentOperators_iff _ h.2).mp ha)
  simp [Token.join, ha]

/-- An operator that does not go on with its left operand at the operand's own power makes an
expression of its own category. -/
theorem Derives.join (hc : c.fits p) (ht : t.joins d)
    (hstop : t.rightPower? c.rightPower = none) (hl : Derives c start (t :: mid) left)
    (hr : Derives (.ofPower d.rightPower) mid rest right) :
    Derives d start rest (t.join left right) := by
  have hd : ¬d.fits c.rightPower := by
    intro hf
    rw [rightPower?_of_joins ht, if_pos hf] at hstop
    cases hstop
  have hchain (hrank : c.fits (d.rightPower - 1)) (hleft : d.operators = d.leftOperators)
      (hself : Category.ofPower (d.rightPower - 1) = d)
      (hnext : d.tighter? = some (.ofPower d.rightPower)) :
      Derives d start rest (.binary (connectiveGlyph t.value) left right) := by
    have hl' := hl.lift hrank
    rw [hself] at hl'
    exact .chain hl' ht.1 (hleft ▸ ht.2) hnext hr
  cases d with
  | assignment =>
    have hf : c.fits 19 := by cases c <;> simp_all [Category.fits, Category.rightPower]
    have ha : t.value ∈ assignmentOperators := ht.2
    have hj : t.join left right = .assignment t.value left right := by simp [Token.join, ha]
    rw [hj]
    exact .assign (hl.lift hf) ht.1 ha hr
  | implication =>
    have hf : c.fits 29 := by cases c <;> simp_all [Category.fits, Category.rightPower]
    have hv : t.value = "->" := by simpa [Category.operators] using ht.2
    have hop : t.isOperator "->" = true := by simp [Token.isOperator, ht.1, hv]
    rw [Token.join_of_joins ht (by decide), hv]
    exact .imply (hl.lift hf) hop hr
  | disjunction | conjunction | comparison | sum | product =>
    rw [Token.join_of_joins ht (by decide)]
    refine hchain ?_ rfl (by decide) (by decide)
    cases c <;> simp_all [Category.fits, Category.rightPower]
  | unary | operand | openCall => cases ht.2

def SoundBelow (n : Nat) : Prop :=
  ∀ ts : List Token, ts.length < n → ∀ finish p e rest,
    taken (readExpr finish p ts) = some (e, rest) →
      Derives (.ofPower p) ts rest e ∧ Stops p rest

theorem continueExpr_sound (hn : SoundBelow n) (hlen : ts.length ≤ n) (hc : c.fits p)
    (hl : Derives c start ts left) (hstop : Stops c.rightPower ts)
    (h : taken (continueExpr finish p left ts) = some (e, rest)) :
    Derives (.ofPower p) start rest e ∧ Stops p rest := by
  induction hsize : ts.length using Nat.strongRecOn generalizing c ts left with
  | ind size ih =>
    cases ts with
    | nil =>
      rw [taken_continueExpr_nil] at h
      cases h
      exact ⟨hl.lift hc, by simp [Stops]⟩
    | cons t mid =>
      rw [taken_continueExpr_cons] at h
      cases hq : t.rightPower? p with
      | none =>
        simp only [hq] at h
        cases h
        exact ⟨hl.lift hc, by simpa [Stops] using hq⟩
      | some q =>
        simp only [hq, Option.bind_eq_some_iff, Prod.exists] at h
        obtain ⟨right, more, hr, h⟩ := h
        obtain ⟨d, ht, hd, rfl⟩ := rightPower?_eq_some_iff.mp hq
        simp only [List.length_cons] at hlen hsize
        obtain ⟨hright, hnext⟩ := hn mid (by omega) _ _ _ _ hr
        have hmore : more.length < mid.length := length_lt_of_taken hr
        exact ih more.length (by omega) (by omega) hd (hl.join hc ht (hstop t rfl) hright) hnext h
          rfl

theorem floatAtFront_eq_some_iff {change : Number → Number} {x : Float} :
    floatAtFront change ts = some (x, rest) ↔
      ∃ t, ts = t :: rest ∧ t.kind = .number ∧ isShortNumeral t.value = true ∧
        (change (numeralValue t.value)).toFloat? = some x := by
  cases ts with
  | nil => simp [floatAtFront]
  | cons t tail =>
    by_cases hk : t.kind = .number
    · simp only [floatAtFront, hk, beq_self_eq_true, if_true, Option.bind_eq_some_iff,
        toOption_eq_some_iff, numeralNumber_eq_ok_iff, Option.map_eq_some_iff]
      grind
    · simp only [floatAtFront]
      grind

theorem takeFloat_sound {x : Float} (h : taken (takeFloat finish ts) = some (x, rest)) :
    DerivesThreshold ts rest x := by
  rw [taken_takeFloat] at h
  cases ts with
  | nil => cases h
  | cons t tail =>
    by_cases hminus : t.isOperator "-" = true
    · simp only [hminus, if_true] at h
      obtain ⟨u, rfl, hu, -, hx⟩ := floatAtFront_eq_some_iff.mp h
      exact .negated hminus hu hx
    · simp only [hminus, Bool.false_eq_true, if_false] at h
      obtain ⟨u, he, hu, -, hx⟩ := floatAtFront_eq_some_iff.mp h
      cases he
      exact .plain hu hx

theorem takeThreshold_sound {clause : ProbabilityClause} {name opening closing : Token}
    (hname : name.isWord "P") (hopen : opening.isMark '[')
    (hd : Derives .assignment ts (closing :: mid) e) (hclose : closing.isMark ']')
    (h : taken (takeThreshold finish e mid) = some (clause, rest)) :
    Derives .operand (name :: opening :: ts) rest clause.toExpr := by
  cases mid with
  | nil =>
    cases h
    exact .probability hname hopen hd hclose fun _ ht => by cases ht
  | cons t tail =>
    rw [taken_takeThreshold_cons] at h
    by_cases ht : isThresholdOperator t = true
    · simp only [ht, if_true, Option.bind_eq_some_iff, Prod.exists] at h
      obtain ⟨x, more, hx, h⟩ := h
      cases h
      exact .threshold hname hopen hd hclose ht (takeFloat_sound hx)
    · simp only [ht, Bool.false_eq_true, if_false] at h
      cases h
      exact .probability hname hopen hd hclose (by simpa using ht)

theorem readExpr_sound_of_below (hn : SoundBelow n) (hlen : ts.length < n)
    (h : taken (readExpr finish 0 ts) = some (e, rest)) : Derives .assignment ts rest e :=
  (hn ts hlen _ _ _ _ h).1

theorem readTemporal_sound {name : Token} {op : TemporalOp} {clause : TemporalClause}
    (hn : SoundBelow n) (hlen : ts.length ≤ n) (hname : name.kind = .identifier)
    (hop : TemporalOp.ofName? name.value = some op)
    (h : taken (readTemporal finish op ts) = some (clause, rest)) :
    Derives .operand (name :: ts) rest clause.toExpr := by
  simp only [taken_readTemporal, Option.bind_eq_some_iff, Prod.exists, taken_takeMark] at h
  obtain ⟨opening, start, ⟨rfl, hopen⟩, first, more, hfirst, h⟩ := h
  simp only [List.length_cons] at hlen
  have hmore := length_lt_of_taken hfirst
  have hd := readExpr_sound_of_below hn (by omega) hfirst
  by_cases hu : op = .until
  · simp only [hu, if_true, Option.bind_eq_some_iff, Prod.exists, taken_takeMark] at h
    obtain ⟨comma, next, ⟨rfl, hcomma⟩, second, after, hsecond, closing, final,
      ⟨rfl, hclose⟩, h⟩ := h
    cases h
    simp only [List.length_cons] at hmore
    have hword : name.isWord "U" = true := by
      unfold TemporalOp.ofName? at hop
      split at hop <;> simp_all [Token.isWord]
    exact .temporalPair hword hopen hd hcomma (readExpr_sound_of_below hn (by omega) hsecond) hclose
  · simp only [hu, if_false, Option.bind_eq_some_iff, Prod.exists, taken_takeMark] at h
    obtain ⟨closing, final, ⟨rfl, hclose⟩, h⟩ := h
    cases h
    exact .temporal hname hop hu hopen hd hclose

theorem readProbability_sound {name : Token} {clause : ProbabilityClause}
    (hn : SoundBelow n) (hlen : ts.length ≤ n) (hname : name.isWord "P")
    (h : taken (readProbability finish ts) = some (clause, rest)) :
    Derives .operand (name :: ts) rest clause.toExpr := by
  simp only [taken_readProbability, Option.bind_eq_some_iff, Prod.exists, taken_takeMark] at h
  obtain ⟨opening, start, ⟨rfl, hopen⟩, event, more, hevent, closing, next, ⟨rfl, hclose⟩, h⟩ := h
  simp only [List.length_cons] at hlen
  exact takeThreshold_sound hname hopen (readExpr_sound_of_below hn (by omega) hevent) hclose h

theorem readArgs_sound {name : String} {args more : List Expr} (hn : SoundBelow n)
    (hlen : ts.length ≤ n) (hd : Derives .openCall start ts (.call name args))
    (h : taken (readArgs finish false ts) = some (more, rest)) :
    Derives .operand start rest (.call name (args ++ more)) := by
  induction hsize : ts.length using Nat.strongRecOn generalizing ts args more with
  | ind size ih =>
    cases ts with
    | nil => simp at h
    | cons t tail =>
      rw [taken_readArgs_cons] at h
      by_cases hclose : t.isMark ')' = true
      · simp only [hclose, if_true] at h
        cases h
        simpa using Derives.call hd hclose
      · simp only [hclose, Bool.false_eq_true, if_false, Option.bind_eq_some_iff, Prod.exists,
          Option.map_eq_some_iff, taken_takeMark] at h
        obtain ⟨_, ⟨comma, next, ⟨he, hcomma⟩, rfl⟩, arg, after, harg, args', final, hargs, h⟩ := h
        cases he
        cases h
        simp only [List.length_cons] at hlen hsize
        have hafter := length_lt_of_taken harg
        have hopen := Derives.nextArgument hd hcomma
          (readExpr_sound_of_below hn (by omega) harg)
        simpa using ih after.length (by omega) (by omega) hopen hargs rfl

theorem readFirstArgs_sound {name opening : Token} {args : List Expr} (hn : SoundBelow n)
    (hlen : ts.length < n) (hname : name.isFunction) (hopen : opening.isMark '(')
    (h : taken (readArgs finish true ts) = some (args, rest)) :
    Derives .operand (name :: opening :: ts) rest (.call name.value args) := by
  cases ts with
  | nil => simp at h
  | cons t tail =>
    rw [taken_readArgs_cons] at h
    by_cases hclose : t.isMark ')' = true
    · simp only [hclose, if_true] at h
      cases h
      exact .emptyCall hname hopen hclose
    · simp only [hclose, Bool.false_eq_true, if_false, if_true, Option.bind_some,
        Option.bind_eq_some_iff, Prod.exists] at h
      obtain ⟨arg, after, harg, args', final, hargs, h⟩ := h
      cases h
      have hafter := length_lt_of_taken harg
      have hd := Derives.firstArgument hname hopen (readExpr_sound_of_below hn hlen harg)
      exact readArgs_sound hn (by omega) hd hargs

theorem isTruth_iff (hk : t.kind = .identifier) :
    t.isTruth = (t.value == "true" || t.value == "false") := by
  simp [Token.isTruth, Token.isWord, hk]

theorem temporalStart?_eq_some_iff {name : String} {op : TemporalOp} :
    temporalStart? name ts = some op ↔
      startsWithMark '(' ts = true ∧ TemporalOp.ofName? name = some op := by
  unfold temporalStart?
  split <;> simp [*]

theorem readNamed_sound (hn : SoundBelow n) (hlen : ts.length ≤ n) (hk : t.kind = .identifier)
    (h : taken (readNamed finish t.value ts) = some (e, rest)) :
    Derives .operand (t :: ts) rest e := by
  rw [taken_readNamed, ← isTruth_iff hk] at h
  by_cases htruth : t.isTruth = true
  · simp only [htruth, if_true] at h
    cases h
    exact .truth htruth
  · simp only [htruth, Bool.false_eq_true, if_false] at h
    rw [Bool.not_eq_true] at htruth
    cases htemporal : temporalStart? t.value ts with
    | some op =>
      simp only [htemporal, Option.bind_eq_some_iff, Prod.exists] at h
      obtain ⟨clause, final, hclause, h⟩ := h
      cases h
      exact readTemporal_sound hn hlen hk (temporalStart?_eq_some_iff.mp htemporal).2 hclause
    | none =>
      simp only [htemporal] at h
      by_cases hp : opensProbability t.value ts = true
      · simp only [hp, if_true, Option.bind_eq_some_iff, Prod.exists] at h
        obtain ⟨clause, final, hclause, h⟩ := h
        cases h
        have hword : t.isWord "P" = true := by
          simp only [opensProbability, Bool.and_eq_true] at hp
          simpa [Token.isWord, hk] using hp.1
        exact readProbability_sound hn hlen hword hclause
      · simp only [hp, Bool.false_eq_true, if_false] at h
        cases ts with
        | nil =>
          cases h
          exact .identifier hk htruth
        | cons u tail =>
          by_cases hdot : u.isMark '.' = true
          · simp only [hdot, if_true, Option.bind_eq_some_iff, Prod.exists, taken_takeName] at h
            obtain ⟨member, final, ⟨rfl, hm⟩, h⟩ := h
            cases h
            exact .property hk htruth hdot hm
          · by_cases hopen : u.isMark '(' = true
            · simp only [hdot, hopen, Bool.false_eq_true, if_false, if_true,
                Option.bind_eq_some_iff, Prod.exists] at h
              obtain ⟨args, final, hargs, h⟩ := h
              cases h
              have hfun : t.isFunction = true := by
                have hname : TemporalOp.ofName? t.value = none := by
                  simpa [temporalStart?, startsWithMark, hopen] using htemporal
                simp [Token.isFunction, hk, htruth, hname]
              exact readFirstArgs_sound hn (by simp only [List.length_cons] at hlen; omega) hfun hopen hargs
            · simp only [hdot, hopen, Bool.false_eq_true, if_false] at h
              cases h
              exact .identifier hk htruth

theorem Derives.applyLeading (hk : t.kind = .operator) (hv : t.value ∈ leadingOperators)
    (hd : Derives .unary ts rest e) :
    Derives .unary (t :: ts) rest (applyLeading (connectiveGlyph t.value) e) := by
  have hlead (he : t.value = "-" → e.isNumeral = false) := Derives.lead hk hv hd he
  by_cases hminus : t.value = "-"
  · have hop : t.isOperator "-" = true := by simp [Token.isOperator, hk, hminus]
    cases e with
    | literal value =>
      cases value with
      | int m => simpa [hminus, StepWorld.applyLeading, connectiveGlyph] using hd.negateInt hop
      | float x => simpa [hminus, StepWorld.applyLeading, connectiveGlyph] using hd.negateFloat hop
      | _ => simpa [hminus, StepWorld.applyLeading, connectiveGlyph] using hlead fun _ => rfl
    | _ => simpa [hminus, StepWorld.applyLeading, connectiveGlyph] using hlead fun _ => rfl
  · have hglyph : connectiveGlyph t.value ≠ "-" := by
      simp only [leadingOperators, List.mem_cons, List.not_mem_nil, or_false] at hv
      rcases hv with hv | hv | hv <;> simp_all [connectiveGlyph]
    have hunary : StepWorld.applyLeading (connectiveGlyph t.value) e =
        .unary (connectiveGlyph t.value) e := by
      unfold StepWorld.applyLeading
      split <;> first | contradiction | rfl
    rw [hunary]
    exact hlead fun h => absurd h hminus

theorem readOperand_sound (hn : SoundBelow n) (hlen : ts.length ≤ n)
    (h : taken (readOperand finish ts) = some (e, rest)) : Derives .unary ts rest e := by
  cases ts with
  | nil => simp at h
  | cons t tail =>
    simp only [List.length_cons] at hlen
    rw [taken_readOperand_cons] at h
    cases hk : t.kind with
    | operator =>
      simp only [hk] at h
      by_cases hl : leadingOperators.contains t.value = true
      · simp only [hl, if_true, Option.bind_eq_some_iff, Prod.exists] at h
        obtain ⟨operand, more, hoperand, h⟩ := h
        cases h
        exact .applyLeading hk (List.contains_iff_mem.mp hl) (hn tail (by omega) _ _ _ _ hoperand).1
      · simp only [hl, Bool.false_eq_true, if_false] at h
        cases h
    | number =>
      simp only [hk, Option.map_eq_some_iff, toOption_eq_some_iff, numeralNumber_eq_ok_iff] at h
      obtain ⟨m, ⟨-, rfl⟩, h⟩ := h
      cases h
      exact .descend rfl (.number hk)
    | string =>
      simp only [hk] at h
      cases h
      exact .descend rfl (.string hk)
    | punctuation =>
      simp only [hk] at h
      by_cases hopen : t.isMark '(' = true
      · simp only [hopen, if_true, Option.bind_eq_some_iff, Prod.exists, taken_takeMark] at h
        obtain ⟨inner, more, hinner, closing, final, ⟨rfl, hclose⟩, h⟩ := h
        cases h
        exact .descend rfl (.group hopen (readExpr_sound_of_below hn (by omega) hinner) hclose)
      · simp only [hopen, Bool.false_eq_true, if_false] at h
        cases h
    | identifier =>
      simp only [hk] at h
      exact .descend rfl (readNamed_sound hn (by omega) hk h)

theorem soundBelow (n : Nat) : SoundBelow n := by
  induction n with
  | zero => exact fun _ h => absurd h (Nat.not_lt_zero _)
  | succ n ih =>
    intro ts hlen finish p e rest h
    simp only [taken_readExpr, Option.bind_eq_some_iff, Prod.exists] at h
    obtain ⟨left, mid, hleft, h⟩ := h
    have hmid := length_lt_of_taken hleft
    have hd := readOperand_sound ih (by omega) hleft
    exact continueExpr_sound (c := .unary) ih (by omega) trivial hd stops_leadingPower h

/-- What is read is derived by the loosest category of the power. -/
theorem readExpr_sound (h : taken (readExpr finish p ts) = some (e, rest)) :
    Derives (.ofPower p) ts rest e ∧ Stops p rest :=
  soundBelow (ts.length + 1) ts (Nat.lt_succ_self _) _ _ _ _ h

end StepWorld
