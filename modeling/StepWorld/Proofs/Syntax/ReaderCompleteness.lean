import StepWorld.Proofs.Syntax.ReaderSoundness

/-! Whatever the grammar derives is read. A derivation is read in front of anything that neither
goes on with it nor makes its last name a part of something longer. -/

namespace StepWorld

variable {t u : Token} {c d : Category} {p q : Nat} {ts mid rest : List Token}
  {e left right : Expr} {finish : Position} {r : Expr × List Token}

def Ends (ts : List Token) : Prop :=
  ∀ t ∈ ts.head?, t.isMark '(' = false ∧ t.isMark '.' = false ∧ t.isMark '[' = false

def ShortNumerals (ts : List Token) : Prop :=
  ∀ t ∈ ts, t.kind = .number → isShortNumeral t.value = true

theorem eq_of_isMark {a b : Char} (ha : t.isMark a = true) (hb : t.isMark b = true) : a = b := by
  simp only [Token.isMark, Bool.and_eq_true, beq_iff_eq] at ha hb
  have h := ha.2.symm.trans hb.2
  simpa [String.singleton_inj] using h

theorem kind_of_isMark {a : Char} (h : t.isMark a = true) : t.kind = .punctuation := by
  simp only [Token.isMark, Bool.and_eq_true, beq_iff_eq] at h
  exact h.1

theorem mark_ne {a b : Char} (h : t.isMark a = true) (hab : a ≠ b) : t.isMark b = false := by
  rw [← Bool.not_eq_true]
  exact fun hm => hab (eq_of_isMark h hm)

theorem stops_of_isMark {a : Char} (h : t.isMark a = true) : Stops p (t :: rest) := by
  intro s hs
  cases hs
  simp [Token.rightPower?, kind_of_isMark h]

theorem ends_of_isMark {a : Char} (h : t.isMark a = true) (ha : a = ')' ∨ a = ',' ∨ a = ']') :
    Ends (t :: rest) := by
  intro s hs
  cases hs
  refine ⟨mark_ne h ?_, mark_ne h ?_, mark_ne h ?_⟩ <;> rcases ha with rfl | rfl | rfl <;> decide

theorem ends_of_operator (h : t.kind = .operator) : Ends (t :: rest) := by
  intro s hs
  cases hs
  simp [Token.isMark, h]

theorem kind_of_isOperator {op : String} (h : t.isOperator op = true) : t.kind = .operator := by
  simp only [Token.isOperator, Bool.and_eq_true, beq_iff_eq] at h
  exact h.1

theorem value_of_isOperator {op : String} (h : t.isOperator op = true) : t.value = op := by
  simp only [Token.isOperator, Bool.and_eq_true, beq_iff_eq] at h
  exact h.2

theorem DerivesThreshold.isSuffix {x : Float} (h : DerivesThreshold ts rest x) : rest <:+ ts := by
  cases h with
  | plain => exact List.suffix_cons _ _
  | negated => exact (List.suffix_cons _ _).trans (List.suffix_cons _ _)

theorem Derives.isSuffix (h : Derives c ts rest e) : rest <:+ ts := by
  have htail {t : Token} {ts rest : List Token} (h : t :: rest <:+ ts) : rest <:+ ts :=
    (List.suffix_cons t rest).trans h
  have hcons {t : Token} {ts rest : List Token} (h : rest <:+ ts) : rest <:+ t :: ts :=
    h.trans (List.suffix_cons t ts)
  induction h with
  | descend _ _ ih => exact ih
  | assign _ _ _ _ ihl ihr => exact ihr.trans (htail ihl)
  | imply _ _ _ ihl ihr => exact ihr.trans (htail ihl)
  | chain _ _ _ _ _ ihl ihr => exact ihr.trans (htail ihl)
  | negateInt _ _ ih | negateFloat _ _ ih | lead _ _ _ _ ih => exact hcons ih
  | number | string | truth | identifier => exact List.suffix_cons _ _
  | group _ _ _ ih => exact hcons (htail ih)
  | temporal _ _ _ _ _ _ ih => exact hcons (hcons (htail ih))
  | temporalPair _ _ _ _ _ _ ihf ihs => exact hcons (hcons ((htail ihs).trans (htail ihf)))
  | probability _ _ _ _ _ ih => exact hcons (hcons (htail ih))
  | threshold _ _ _ _ _ hx ih => exact hcons (hcons (hx.isSuffix.trans (htail (htail ih))))
  | property => exact hcons (hcons (List.suffix_cons _ _))
  | firstArgument _ _ _ ih => exact hcons (hcons ih)
  | nextArgument _ _ _ ihc ihe => exact ihe.trans (htail ihc)
  | call _ _ ih => exact htail ih
  | emptyCall => exact hcons (hcons (List.suffix_cons _ _))

theorem ShortNumerals.of_suffix (h : ShortNumerals ts) (hs : rest <:+ ts) : ShortNumerals rest :=
  fun t ht => h t (hs.subset ht)

def Completes (finish : Position) (c : Category) (ts rest : List Token) (e : Expr) : Prop :=
  ∀ p r, c.fits p → Stops c.rightPower rest → Ends rest →
    taken (continueExpr finish p e rest) = some r → taken (readExpr finish p ts) = some r

namespace Completes

theorem read (h : Completes finish c ts rest e) (hf : c.fits p) (hstop : Stops c.rightPower rest)
    (hends : Ends rest) (hp : Stops p rest) : taken (readExpr finish p ts) = some (e, rest) :=
  h p _ hf hstop hends (continueExpr_of_stops hp)

theorem read_mark {a : Char} (h : Completes finish .assignment ts (t :: rest) e)
    (ht : t.isMark a = true) (ha : a = ')' ∨ a = ',' ∨ a = ']') :
    taken (readExpr finish 0 ts) = some (e, t :: rest) :=
  h.read (Nat.zero_le _) (stops_of_isMark ht) (ends_of_isMark ht ha) (stops_of_isMark ht)

theorem of_readOperand (h : Ends rest → taken (readOperand finish ts) = some (e, rest)) :
    Completes finish c ts rest e := by
  intro p r _ _ hends hr
  rw [taken_readExpr, h hends]
  exact hr

theorem descend (hd : c.tighter? = some d) (h : Completes finish d ts rest e) :
    Completes finish c ts rest e := by
  intro p r hf hstop hends hr
  exact h p r (Category.fits_of_tighter hd hf)
    (hstop.mono (Category.rightPower_le_of_tighter hd)) hends hr

theorem join {k : Category} (ht : t.joins c) (hd : ∀ p, c.fits p → d.fits p)
    (hstopd : ¬c.fits d.rightPower) (hk : k.fits c.rightPower) (hck : c.rightPower ≤ k.rightPower)
    (hl : Completes finish d ts (t :: mid) left) (hr : Completes finish k mid rest right) :
    Completes finish c ts rest (t.join left right) := by
  intro p r hf hstop hends h
  have hright : taken (readExpr finish c.rightPower mid) = some (right, rest) :=
    hr.read hk (hstop.mono hck) hends hstop
  refine hl p r (hd p hf) ?_ (ends_of_operator ht.1) ?_
  · intro s hs
    cases hs
    rw [rightPower?_of_joins ht, if_neg hstopd]
  · rw [taken_continueExpr_cons, rightPower?_of_joins ht, if_pos hf]
    simp only [hright, Option.bind_some]
    exact h

theorem assign (hk : t.kind = .operator) (hv : t.value ∈ assignmentOperators)
    (hl : Completes finish .implication ts (t :: mid) left)
    (hr : Completes finish .assignment mid rest right) :
    Completes finish .assignment ts rest (.assignment t.value left right) := by
  have ht : t.joins .assignment := ⟨hk, hv⟩
  have hjoin : t.join left right = .assignment t.value left right := by simp [Token.join, hv]
  rw [← hjoin]
  exact join ht (fun _ => Category.fits_of_tighter rfl) (by decide) (by decide) (by decide) hl hr

theorem imply (hop : t.isOperator "->" = true)
    (hl : Completes finish .disjunction ts (t :: mid) left)
    (hr : Completes finish .implication mid rest right) :
    Completes finish .implication ts rest (.binary "->" left right) := by
  have hv : t.value = "->" := value_of_isOperator hop
  have ht : t.joins .implication := ⟨kind_of_isOperator hop, by simp [hv, Category.operators]⟩
  have hjoin : t.join left right = .binary "->" left right := by
    rw [Token.join_of_joins ht (by decide), hv]
    rfl
  rw [← hjoin]
  exact join ht (fun _ => Category.fits_of_tighter rfl) (by decide) (by decide) (by decide) hl hr

theorem chain (hk : t.kind = .operator) (hv : t.value ∈ c.leftOperators)
    (hd : c.tighter? = some d) (hl : Completes finish c ts (t :: mid) left)
    (hr : Completes finish d mid rest right) :
    Completes finish c ts rest (.binary (connectiveGlyph t.value) left right) := by
  have hc : c ≠ .assignment ∧ t.joins c ∧ ¬c.fits c.rightPower ∧ d.fits c.rightPower := by
    cases c with
    | disjunction | conjunction | comparison | sum | product =>
      cases hd
      exact ⟨by decide, ⟨hk, hv⟩, by decide, by decide⟩
    | _ => cases hv
  obtain ⟨hne, ht, hself, hright⟩ := hc
  rw [← Token.join_of_joins ht hne]
  exact join ht (fun _ => id) hself hright (Category.rightPower_le_of_tighter hd) hl hr

end Completes

def CompletesCall (finish : Position) (ts rest : List Token) (e : Expr) : Prop :=
  ∃ name opening start args, ts = name :: opening :: start ∧ name.isFunction = true ∧
    opening.isMark '(' = true ∧ e = .call name.value args ∧
    ∀ more final, taken (readArgs finish false rest) = some (more, final) →
      taken (readArgs finish true start) = some (args ++ more, final)

theorem kind_of_isWord {word : String} (h : t.isWord word = true) : t.kind = .identifier := by
  simp only [Token.isWord, Bool.and_eq_true, beq_iff_eq] at h
  exact h.1

theorem value_of_isWord {word : String} (h : t.isWord word = true) : t.value = word := by
  simp only [Token.isWord, Bool.and_eq_true, beq_iff_eq] at h
  exact h.2

theorem readOperand_identifier (hk : t.kind = .identifier) :
    taken (readOperand finish (t :: rest)) = taken (readNamed finish t.value rest) := by
  rw [taken_readOperand_cons, hk]

theorem readOperand_truth (h : t.isTruth = true) :
    taken (readOperand finish (t :: rest)) =
      some (.literal (.bool (t.value == "true")), rest) := by
  have hk : t.kind = .identifier := by
    simp only [Token.isTruth, Bool.or_eq_true] at h
    exact h.elim kind_of_isWord kind_of_isWord
  rw [readOperand_identifier hk, taken_readNamed, ← isTruth_iff hk, if_pos h]

theorem readOperand_temporal {op : TemporalOp} (hk : t.kind = .identifier)
    (hop : TemporalOp.ofName? t.value = some op) (hopen : u.isMark '(' = true) :
    taken (readOperand finish (t :: u :: ts)) =
      (taken (readTemporal finish op (u :: ts))).bind fun (clause, final) =>
        some (clause.toExpr, final) := by
  have htruth : (t.value == "true" || t.value == "false") = false := by
    unfold TemporalOp.ofName? at hop
    split at hop <;> simp_all
  have hstart : temporalStart? t.value (u :: ts) = some op :=
    temporalStart?_eq_some_iff.mpr ⟨by simpa only [startsWithMark] using hopen, hop⟩
  rw [readOperand_identifier hk, taken_readNamed, htruth, hstart]
  rfl

theorem readOperand_probability (hname : t.isWord "P" = true) (hopen : u.isMark '[' = true) :
    taken (readOperand finish (t :: u :: ts)) =
      (taken (readProbability finish (u :: ts))).bind fun (clause, final) =>
        some (clause.toExpr, final) := by
  have hopens : opensProbability "P" (u :: ts) = true := by
    simp [opensProbability, startsWithMark, hopen]
  have htemporal : temporalStart? "P" (u :: ts) = none := by
    simp [temporalStart?, TemporalOp.ofName?]
  rw [readOperand_identifier (kind_of_isWord hname), taken_readNamed, value_of_isWord hname,
    htemporal, hopens]
  rfl

theorem readOperand_name (hk : t.kind = .identifier) (ht : t.isTruth = false)
    (hparen : u.isMark '(' = true → TemporalOp.ofName? t.value = none)
    (hbracket : u.isMark '[' = false) :
    taken (readOperand finish (t :: u :: ts)) =
      if u.isMark '.' then
        (taken (takeName finish (.name "property name") ts)).bind fun (member, more) =>
          some (.property t.value member.value, more)
      else if u.isMark '(' then
        (taken (readArgs finish true ts)).bind fun (args, more) =>
          some (.call t.value args, more)
      else some (.identifier t.value, u :: ts) := by
  have htemporal : temporalStart? t.value (u :: ts) = none := by
    by_cases hopen : u.isMark '(' = true
    · simp [temporalStart?, startsWithMark, hopen, hparen hopen]
    · simp [temporalStart?, startsWithMark, hopen]
  have hopens : opensProbability t.value (u :: ts) = false := by
    simp [opensProbability, startsWithMark, hbracket]
  rw [readOperand_identifier hk, taken_readNamed, ← isTruth_iff hk, ht, htemporal, hopens]
  rfl

theorem readOperand_property (hk : t.kind = .identifier) (ht : t.isTruth = false)
    (hdot : u.isMark '.' = true) {member : Token} (hm : member.kind = .identifier) :
    taken (readOperand finish (t :: u :: member :: rest)) =
      some (.property t.value member.value, rest) := by
  have hparen : u.isMark '(' = false := mark_ne hdot (by decide)
  rw [readOperand_name hk ht (by simp [hparen]) (mark_ne hdot (by decide)), if_pos hdot,
    taken_takeName.mpr ⟨rfl, hm⟩]
  rfl

theorem readOperand_call {args : List Expr} (hname : t.isFunction = true)
    (hopen : u.isMark '(' = true) (h : taken (readArgs finish true ts) = some (args, rest)) :
    taken (readOperand finish (t :: u :: ts)) = some (.call t.value args, rest) := by
  simp only [Token.isFunction, Bool.and_eq_true, beq_iff_eq, Bool.not_eq_true',
    Option.isNone_iff_eq_none] at hname
  obtain ⟨⟨hk, ht⟩, hop⟩ := hname
  have hdot : u.isMark '.' = false := mark_ne hopen (by decide)
  rw [readOperand_name hk ht (fun _ => hop) (mark_ne hopen (by decide)), hdot, hopen, h]
  rfl

theorem readOperand_bare (hk : t.kind = .identifier) (ht : t.isTruth = false)
    (hends : Ends rest) :
    taken (readOperand finish (t :: rest)) = some (.identifier t.value, rest) := by
  cases rest with
  | nil =>
    have htemporal : temporalStart? t.value [] = none := rfl
    have hopens : opensProbability t.value [] = false := by
      simp [opensProbability, startsWithMark]
    rw [readOperand_identifier hk, taken_readNamed, ← isTruth_iff hk, ht, htemporal, hopens]
    rfl
  | cons u tail =>
    obtain ⟨hparen, hdot, hbracket⟩ := hends u rfl
    rw [readOperand_name hk ht (by simp [hparen]) hbracket, hdot, hparen]
    rfl

theorem takeFloat_complete {x : Float} (h : DerivesThreshold ts rest x)
    (hs : ShortNumerals ts) : taken (takeFloat finish ts) = some (x, rest) := by
  cases h with
  | @plain t _ _ hk hx =>
    have hminus : t.isOperator "-" = false := by simp [Token.isOperator, hk]
    rw [taken_takeFloat]
    simp only [hminus, Bool.false_eq_true, if_false]
    exact floatAtFront_eq_some_iff.mpr ⟨t, rfl, hk, hs t (by simp) hk, hx⟩
  | @negated minus t _ _ hminus hk hx =>
    rw [taken_takeFloat]
    simp only [hminus, if_true]
    exact floatAtFront_eq_some_iff.mpr ⟨t, rfl, hk, hs t (by simp) hk, hx⟩

theorem readOperand_leading (hk : t.kind = .operator) (hv : t.value ∈ leadingOperators)
    (h : Completes finish .unary ts rest e) (hends : Ends rest) :
    taken (readOperand finish (t :: ts)) =
      some (applyLeading (connectiveGlyph t.value) e, rest) := by
  have hread : taken (readExpr finish leadingPower ts) = some (e, rest) :=
    h.read trivial stops_leadingPower hends stops_leadingPower
  rw [taken_readOperand_cons, hk]
  simp only [List.contains_iff_mem.mpr hv, if_true, hread, Option.bind_some]

theorem applyLeading_of_not_isNumeral {op : String}
    (h : op = "-" → e.isNumeral = false) : applyLeading op e = .unary op e := by
  unfold applyLeading
  split
  · exact absurd (h rfl) (by simp [Expr.isNumeral])
  · exact absurd (h rfl) (by simp [Expr.isNumeral])
  · rfl

theorem value_of_connectiveGlyph_minus (hv : t.value ∈ leadingOperators)
    (h : connectiveGlyph t.value = "-") : t.value = "-" := by
  simp only [leadingOperators, List.mem_cons, List.not_mem_nil, or_false] at hv
  rcases hv with hv | hv | hv <;> simp_all [connectiveGlyph]

theorem readOperand_group {opening closing : Token} (hopen : opening.isMark '(' = true)
    (hclose : closing.isMark ')' = true)
    (h : Completes finish .assignment ts (closing :: rest) e) :
    taken (readOperand finish (opening :: ts)) = some (e, rest) := by
  rw [taken_readOperand_cons, kind_of_isMark hopen]
  simp only [hopen, if_true, h.read_mark hclose (.inl rfl), Option.bind_some,
    taken_takeMark.mpr ⟨rfl, hclose⟩]

theorem readTemporal_complete {opening closing : Token} {op : TemporalOp} (hu : op ≠ .until)
    (hopen : opening.isMark '(' = true) (hclose : closing.isMark ')' = true)
    (h : Completes finish .assignment ts (closing :: rest) e) :
    taken (readTemporal finish op (opening :: ts)) = some (⟨op, [e]⟩, rest) := by
  rw [taken_readTemporal, taken_takeMark.mpr ⟨rfl, hopen⟩]
  simp only [Option.bind_some, h.read_mark hclose (.inl rfl), hu, if_false,
    taken_takeMark.mpr ⟨rfl, hclose⟩]

theorem readTemporal_pair_complete {opening comma closing : Token}
    (hopen : opening.isMark '(' = true) (hcomma : comma.isMark ',' = true)
    (hclose : closing.isMark ')' = true)
    (hl : Completes finish .assignment ts (comma :: mid) left)
    (hr : Completes finish .assignment mid (closing :: rest) right) :
    taken (readTemporal finish .until (opening :: ts)) = some (⟨.until, [left, right]⟩, rest) := by
  rw [taken_readTemporal, taken_takeMark.mpr ⟨rfl, hopen⟩]
  simp only [Option.bind_some, hl.read_mark hcomma (.inr (.inl rfl)), if_true,
    taken_takeMark.mpr ⟨rfl, hcomma⟩, hr.read_mark hclose (.inl rfl),
    taken_takeMark.mpr ⟨rfl, hclose⟩]

theorem readProbability_complete {opening closing : Token} (hopen : opening.isMark '[' = true)
    (hclose : closing.isMark ']' = true)
    (h : Completes finish .assignment ts (closing :: rest) e) :
    taken (readProbability finish (opening :: ts)) = taken (takeThreshold finish e rest) := by
  rw [taken_readProbability, taken_takeMark.mpr ⟨rfl, hopen⟩]
  simp only [Option.bind_some, h.read_mark hclose (.inr (.inr rfl)),
    taken_takeMark.mpr ⟨rfl, hclose⟩]

theorem takeThreshold_none (h : ∀ t ∈ rest.head?, isThresholdOperator t = false) :
    taken (takeThreshold finish e rest) = some (⟨e, "=", 0⟩, rest) := by
  cases rest with
  | nil => rfl
  | cons t tail =>
    rw [taken_takeThreshold_cons, h t rfl]
    rfl

theorem takeThreshold_complete {x : Float} (ht : isThresholdOperator t = true)
    (hx : DerivesThreshold mid rest x) (hs : ShortNumerals mid) :
    taken (takeThreshold finish e (t :: mid)) = some (⟨e, t.value, x⟩, rest) := by
  rw [taken_takeThreshold_cons, if_pos ht, takeFloat_complete hx hs]
  rfl

theorem readFirstArgs_complete {args : List Expr} {final : List Token} 
    (h : taken (readExpr finish 0 ts) = some (e, rest))
    (hargs : taken (readArgs finish false rest) = some (args, final)) :
    taken (readArgs finish true ts) = some (e :: args, final) := by
  cases ts with
  | nil => simp [taken_readExpr] at h
  | cons t tail =>
    have hclose : t.isMark ')' = false := by
      rw [← Bool.not_eq_true]
      intro hm
      have hopen : t.isMark '(' = false := mark_ne hm (by decide)
      rw [taken_readExpr, taken_readOperand_cons, kind_of_isMark hm] at h
      simp [hopen] at h
    rw [taken_readArgs_cons, hclose]
    simp only [Bool.false_eq_true, if_false, if_true, Option.bind_some, h, hargs]

theorem readNextArgs_complete {args : List Expr} {comma : Token} {final : List Token}
    (hcomma : comma.isMark ',' = true) (h : taken (readExpr finish 0 ts) = some (e, rest))
    (hargs : taken (readArgs finish false rest) = some (args, final)) :
    taken (readArgs finish false (comma :: ts)) = some (e :: args, final) := by
  have hclose : comma.isMark ')' = false := mark_ne hcomma (by decide)
  rw [taken_readArgs_cons, hclose]
  simp only [Bool.false_eq_true, if_false, taken_takeMark.mpr ⟨rfl, hcomma⟩, Option.map_some,
    Option.bind_some, h, hargs]

theorem exists_mark_of_readArgs {args : List Expr} {final : List Token}
    (h : taken (readArgs finish false ts) = some (args, final)) :
    ∃ t rest a, ts = t :: rest ∧ t.isMark a = true ∧ (a = ')' ∨ a = ',' ∨ a = ']') := by
  cases ts with
  | nil => simp at h
  | cons t rest =>
    by_cases hclose : t.isMark ')' = true
    · exact ⟨t, rest, _, rfl, hclose, .inl rfl⟩
    · rw [taken_readArgs_cons] at h
      simp only [hclose, Bool.false_eq_true, if_false, Option.bind_eq_some_iff,
        Option.map_eq_some_iff, Prod.exists, taken_takeMark] at h
      obtain ⟨_, ⟨comma, next, ⟨he, hcomma⟩, -⟩, -⟩ := h
      cases he
      exact ⟨t, rest, _, rfl, hcomma, .inr (.inl rfl)⟩

theorem Completes.read_argument {args : List Expr} {final : List Token}
    (h : Completes finish .assignment ts rest e)
    (hargs : taken (readArgs finish false rest) = some (args, final)) :
    taken (readExpr finish 0 ts) = some (e, rest) := by
  obtain ⟨t, tail, a, rfl, ht, ha⟩ := exists_mark_of_readArgs hargs
  exact h.read_mark ht ha

/-- Every derivation is read, and every call that is still open has its arguments read. -/
theorem Derives.completes (h : Derives c ts rest e) (hs : ShortNumerals ts) :
    Completes finish c ts rest e ∧ (c = .openCall → CompletesCall finish ts rest e) := by
  have htail {t : Token} {ts : List Token} (hs : ShortNumerals (t :: ts)) : ShortNumerals ts :=
    hs.of_suffix (List.suffix_cons t ts)
  have hoperand {ts rest : List Token} {c : Category} {e : Expr} (hc : c ≠ .openCall)
      (h : Ends rest → taken (readOperand finish ts) = some (e, rest)) :
      Completes finish c ts rest e ∧ (c = .openCall → CompletesCall finish ts rest e) :=
    ⟨.of_readOperand h, fun he => absurd he hc⟩
  -- A call that is still open is no operand yet; of it only its arguments are told.
  induction h with
  | @descend c d ts rest e hd h ih =>
    refine ⟨(ih hs).1.descend hd, ?_⟩
    rintro rfl
    cases hd
  | @assign ts mid rest t target value hl hk hv hr ihl ihr =>
    exact ⟨.assign hk hv (ihl hs).1 (ihr (htail (hs.of_suffix hl.isSuffix))).1, nofun⟩
  | @imply ts mid rest t left right hl hop hr ihl ihr =>
    exact ⟨.imply hop (ihl hs).1 (ihr (htail (hs.of_suffix hl.isSuffix))).1, nofun⟩
  | @chain c d ts mid rest t left right hl hk hv hd hr ihl ihr =>
    refine ⟨.chain hk hv hd (ihl hs).1 (ihr (htail (hs.of_suffix hl.isSuffix))).1, ?_⟩
    rintro rfl
    cases hd
  | @negateInt t ts rest n hop h ih =>
    have hv : t.value = "-" := value_of_isOperator hop
    refine hoperand (by decide) fun hends => ?_
    rw [readOperand_leading (kind_of_isOperator hop) (by simp [hv, leadingOperators])
      (ih (htail hs)).1 hends, hv]
    rfl
  | @negateFloat t ts rest x hop h ih =>
    have hv : t.value = "-" := value_of_isOperator hop
    refine hoperand (by decide) fun hends => ?_
    rw [readOperand_leading (kind_of_isOperator hop) (by simp [hv, leadingOperators])
      (ih (htail hs)).1 hends, hv]
    rfl
  | @lead t ts rest e hk hv h he ih =>
    refine hoperand (by decide) fun hends => ?_
    rw [readOperand_leading hk hv (ih (htail hs)).1 hends,
      applyLeading_of_not_isNumeral fun hg => he (value_of_connectiveGlyph_minus hv hg)]
  | @number t rest hk =>
    have hn : numeralNumber t.value = .ok (numeralValue t.value) :=
      numeralNumber_eq_ok_iff.mpr ⟨hs t (by simp) hk, rfl⟩
    refine hoperand (by decide) fun _ => ?_
    rw [taken_readOperand_cons, hk]
    simp only [hn, Except.toOption, Option.map_some]
  | @string t rest hk =>
    refine hoperand (by decide) fun _ => ?_
    rw [taken_readOperand_cons, hk]
  | @truth t rest ht => exact hoperand (by decide) fun _ => readOperand_truth ht
  | @group opening closing ts rest e hopen h hclose ih =>
    exact hoperand (by decide) fun _ => readOperand_group hopen hclose (ih (htail hs)).1
  | @temporal name opening closing ts rest op e hk hop hu hopen h hclose ih =>
    refine hoperand (by decide) fun _ => ?_
    rw [readOperand_temporal hk hop hopen,
      readTemporal_complete hu hopen hclose (ih (htail (htail hs))).1]
    rfl
  | @temporalPair name opening comma closing ts mid rest first second hw hopen hf hcomma hsec
      hclose ihf ihs =>
    have hop : TemporalOp.ofName? name.value = some .until := by rw [value_of_isWord hw]; rfl
    have hs' := htail (htail hs)
    refine hoperand (by decide) fun _ => ?_
    rw [readOperand_temporal (kind_of_isWord hw) hop hopen,
      readTemporal_pair_complete hopen hcomma hclose (ihf hs').1
        (ihs (htail (hs'.of_suffix hf.isSuffix))).1]
    rfl
  | @probability name opening closing ts rest e hw hopen h hclose hnot ih =>
    refine hoperand (by decide) fun _ => ?_
    rw [readOperand_probability hw hopen,
      readProbability_complete hopen hclose (ih (htail (htail hs))).1, takeThreshold_none hnot]
    rfl
  | @threshold name opening closing t ts mid rest e x hw hopen h hclose ht hx ih =>
    have hs' := htail (htail hs)
    refine hoperand (by decide) fun _ => ?_
    rw [readOperand_probability hw hopen, readProbability_complete hopen hclose (ih hs').1,
      takeThreshold_complete ht hx (htail (htail (hs'.of_suffix h.isSuffix)))]
    rfl
  | @property owner dot member rest hk ht hdot hm =>
    exact hoperand (by decide) fun _ => readOperand_property hk ht hdot hm
  | @firstArgument name opening ts rest e hname hopen h ih =>
    refine ⟨fun _ _ hf => hf.elim, fun _ => ⟨name, opening, ts, [e], rfl, hname, hopen, rfl, ?_⟩⟩
    intro more final hmore
    exact readFirstArgs_complete ((ih (htail (htail hs))).1.read_argument hmore) hmore
  | @nextArgument comma ts mid rest name args e hcall hcomma h ihc ihe =>
    refine ⟨fun _ _ hf => hf.elim, fun _ => ?_⟩
    obtain ⟨name', opening, start, args', rfl, hname, hopen, he, hargs⟩ := (ihc hs).2 rfl
    cases he
    refine ⟨name', opening, start, _, rfl, hname, hopen, rfl, ?_⟩
    intro more final hmore
    have hread := (ihe (htail (hs.of_suffix hcall.isSuffix))).1.read_argument hmore
    simpa using hargs _ _ (readNextArgs_complete hcomma hread hmore)
  | @call closing ts rest e hcall hclose ih =>
    obtain ⟨name, opening, start, args, rfl, hname, hopen, rfl, hargs⟩ := (ih hs).2 rfl
    have hend : taken (readArgs finish false (closing :: rest)) = some ([], rest) := by
      rw [taken_readArgs_cons, if_pos hclose]
    refine hoperand (by decide) fun _ => readOperand_call hname hopen ?_
    simpa using hargs _ _ hend
  | @emptyCall name opening closing rest hname hopen hclose =>
    refine hoperand (by decide) fun _ => readOperand_call hname hopen ?_
    rw [taken_readArgs_cons, if_pos hclose]
  | @identifier t rest hk ht => exact hoperand (by decide) fun hends => readOperand_bare hk ht hends

end StepWorld
