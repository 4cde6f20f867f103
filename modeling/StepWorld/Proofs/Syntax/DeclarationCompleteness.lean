import StepWorld.Proofs.Syntax.DeclarationSoundness
import StepWorld.Proofs.Syntax.ReaderCompleteness

/-! Whatever the strict grammar of declarations derives is read, and nothing is passed over. What
stands behind a clause never goes on with its expression, so every reader stops where the
derivation does. -/

namespace StepWorld

variable {α : Type} {t closing : Token} {ts mid rest : List Token} {finish : Position}
  {place : Surroundings} {skipping : Bool}

theorem ShortNumerals.tail (h : ShortNumerals (t :: ts)) : ShortNumerals ts :=
  h.of_suffix (List.suffix_cons t ts)

theorem isSuffix_cons (h : rest <:+ ts) : rest <:+ t :: ts := h.trans (List.suffix_cons t ts)

theorem isSuffix_of_cons (h : t :: rest <:+ ts) : rest <:+ ts := (List.suffix_cons t rest).trans h

theorem isMark_of_kind {a : Char} (hk : t.kind = .identifier) : t.isMark a = false := by
  simp [Token.isMark, hk]

theorem isOperator_of_kind {op : String} (hk : t.kind ≠ .operator) : t.isOperator op = false := by
  simp [Token.isOperator, hk]

/-! ### Types and properties -/

theorem DerivesInteger.isSuffix {n : Int} (h : DerivesInteger ts rest n) : rest <:+ ts := by
  cases h with
  | plain => exact List.suffix_cons _ _
  | negated => exact isSuffix_cons (List.suffix_cons _ _)

theorem takeInteger_complete (finish : Position) {n : Int} (h : DerivesInteger ts rest n)
    (hs : ShortNumerals ts) : taken (takeInteger finish ts) = some (n, rest) := by
  rw [taken_takeInteger]
  cases h with
  | @plain t _ _ hk hn =>
    have hminus : t.isOperator "-" = false := isOperator_of_kind (by simp [hk])
    simp only [hminus, Bool.false_eq_true, if_false]
    exact integerAtFront_eq_some_iff.mpr ⟨t, n, rfl, hk, hs t (by simp) hk, hn, rfl⟩
  | @negated minus t _ m hminus hk hn =>
    simp only [hminus, if_true]
    exact integerAtFront_eq_some_iff.mpr ⟨t, m, rfl, hk, hs t (by simp) hk, hn, rfl⟩

theorem DerivesMembers.isSuffix {members : List String} (h : DerivesMembers ts rest members) :
    rest <:+ ts := by
  induction h with
  | last => exact isSuffix_cons (List.suffix_cons _ _)
  | more _ _ _ ih => exact isSuffix_cons (isSuffix_cons ih)

theorem isMark_of_member {a : Char} (h : t.kind = .string ∨ t.kind = .identifier) :
    t.isMark a = false := by
  rcases h with h | h <;> simp [Token.isMark, h]

theorem readNextMembers_complete {members : List String} (h : DerivesMembers ts rest members) :
    ∃ member more others, ts = member :: more ∧
      (member.kind = .string ∨ member.kind = .identifier) ∧ members = member.value :: others ∧
      taken (readMembers finish false more) = some (others, rest) := by
  induction h with
  | @last member closing rest hm hclose =>
    refine ⟨member, _, [], rfl, hm, rfl, ?_⟩
    rw [taken_readMembers_cons, if_pos hclose]
  | @more member comma ts rest members hm hcomma _ ih =>
    obtain ⟨next, more, others, rfl, hnext, rfl, hread⟩ := ih
    refine ⟨member, _, _, rfl, hm, rfl, ?_⟩
    have hclose : comma.isMark ')' = false := mark_ne hcomma (by decide)
    rw [taken_readMembers_cons, hclose]
    simp only [Bool.false_eq_true, if_false, taken_takeMark.mpr ⟨rfl, hcomma⟩, Option.map_some,
      Option.bind_some, taken_takeMember.mpr ⟨rfl, hnext⟩, hread]

theorem readMembers_complete {members : List String} (h : DerivesMembers ts rest members) :
    taken (readMembers finish true ts) = some (members, rest) := by
  obtain ⟨member, more, others, rfl, hm, rfl, hread⟩ := @readNextMembers_complete ts rest finish _ h
  rw [taken_readMembers_cons, isMark_of_member hm]
  simp only [Bool.false_eq_true, if_false, if_true, Option.bind_some,
    taken_takeMember.mpr ⟨rfl, hm⟩, hread]

theorem DerivesType.isSuffix {type : PropertyType} (h : DerivesType ts rest type) :
    rest <:+ ts := by
  cases h with
  | emptyEnum => exact isSuffix_cons (isSuffix_cons (List.suffix_cons _ _))
  | enum _ _ h => exact isSuffix_cons (isSuffix_cons h.isSuffix)
  | intRange _ _ hmin _ hmax =>
    exact isSuffix_cons (isSuffix_cons ((isSuffix_of_cons hmax.isSuffix).trans
      (isSuffix_of_cons hmin.isSuffix)))
  | list => exact isSuffix_cons (isSuffix_cons (isSuffix_cons (List.suffix_cons _ _)))
  | scalar => exact List.suffix_cons _ _

/-- A bracket behind the type would make a range of it. -/
theorem readType_complete {type : PropertyType} (h : DerivesType ts rest type)
    (hs : ShortNumerals ts) (hrest : startsWithMark '[' rest = false) :
    taken (readType finish ts) = some (type, rest) := by
  rw [taken_readType]
  cases h with
  | @emptyEnum name opening closing _ hname hopen hclose =>
    have hv : (name.value == "Enum") = true := by simp [value_of_isWord hname]
    have hread : taken (readMembers finish true (closing :: rest)) = some ([], rest) := by
      rw [taken_readMembers_cons, if_pos hclose]
    simp only [taken_takeName.mpr ⟨rfl, kind_of_isWord hname⟩, Option.bind_some, hv, if_true,
      taken_takeMark.mpr ⟨rfl, hopen⟩, hread]
  | @enum name opening _ _ members hname hopen hmembers =>
    have hv : (name.value == "Enum") = true := by simp [value_of_isWord hname]
    simp only [taken_takeName.mpr ⟨rfl, kind_of_isWord hname⟩, Option.bind_some, hv, if_true,
      taken_takeMark.mpr ⟨rfl, hopen⟩, readMembers_complete hmembers]
  | @intRange name opening comma closing ts mid _ min max hname hopen hmin hcomma hmax hclose hle =>
    have hv : (name.value == "Enum") = false := by simp [value_of_isWord hname]
    have hint : (name.value == "Int" && startsWithMark '[' (opening :: ts)) = true := by
      simp [value_of_isWord hname, startsWithMark, hopen]
    have hs' : ShortNumerals ts := hs.tail.tail
    have hmax' := takeInteger_complete finish hmax
      (hs'.of_suffix hmin.isSuffix).tail
    simp only [taken_takeName.mpr ⟨rfl, kind_of_isWord hname⟩, Option.bind_some, hv,
      Bool.false_eq_true, if_false, hint, if_true, taken_takeMark.mpr ⟨rfl, hopen⟩,
      takeInteger_complete finish hmin hs', taken_takeMark.mpr ⟨rfl, hcomma⟩, hmax',
      Int.not_lt.mpr hle, taken_takeMark.mpr ⟨rfl, hclose⟩]
  | @list name opening element closing _ hname hopen hk hclose =>
    have hv : name.value = "List" := value_of_isWord hname
    simp [taken_takeName.mpr ⟨rfl, kind_of_isWord hname⟩, hv,
      taken_takeOperator.mpr ⟨rfl, hopen⟩, taken_takeName.mpr ⟨rfl, hk⟩,
      taken_takeOperator.mpr ⟨rfl, hclose⟩]
  | @scalar name _ type hk htype =>
    have henum : (name.value == "Enum") = false := by
      rw [← Bool.not_eq_true, beq_iff_eq]
      intro hv
      have hnone : scalarType? "Enum" = none := by decide +kernel
      rw [hv, hnone] at htype
      cases htype
    have hlist : (name.value == "List") = false := by
      rw [← Bool.not_eq_true, beq_iff_eq]
      intro hv
      have hnone : scalarType? "List" = none := by decide +kernel
      rw [hv, hnone] at htype
      cases htype
    simp only [taken_takeName.mpr ⟨rfl, hk⟩, Option.bind_some, henum, hrest, hlist,
      Bool.and_false, Bool.false_eq_true, if_false, htype, Option.map_some]

theorem DerivesProperties.exists_head {properties : List PropertyDecl}
    (h : DerivesProperties ts rest properties) :
    ∃ t tail, ts = t :: tail ∧ (t.kind = .identifier ∨ t.isMark '}' = true) := by
  cases h with
  | close hclose => exact ⟨_, _, rfl, .inr hclose⟩
  | property hk => exact ⟨_, _, rfl, .inl hk⟩
  | separated hk => exact ⟨_, _, rfl, .inl hk⟩

theorem readProperties_complete {properties : List PropertyDecl}
    (h : DerivesProperties ts rest properties) (hs : ShortNumerals ts) :
    taken (readProperties finish ts) = some (properties, rest) := by
  induction h with
  | close hclose => rw [taken_readProperties_cons, if_pos hclose]
  | @property name colon ts mid rest type properties hk hcolon htype hproperties ih =>
    have hs' : ShortNumerals ts := hs.tail.tail
    obtain ⟨t, tail, rfl, ht⟩ := hproperties.exists_head
    have hbracket : startsWithMark '[' (t :: tail) = false := by
      rcases ht with ht | ht
      · exact isMark_of_kind ht
      · exact mark_ne ht (by decide)
    have hdrop : (dropSeparator [';', ','] (t :: tail)).1 = t :: tail := by
      rw [dropSeparator_cons, if_neg]
      rcases ht with ht | ht
      · simp [isMark_of_kind ht]
      · simp [mark_ne ht (b := ';') (by decide), mark_ne ht (b := ',') (by decide)]
    rw [taken_readProperties_cons, isMark_of_kind hk]
    simp only [Bool.false_eq_true, if_false, taken_takeName.mpr ⟨rfl, hk⟩, Option.bind_some,
      taken_takeMark.mpr ⟨rfl, hcolon⟩, readType_complete htype hs' hbracket]
    rw [hdrop, ih (hs'.of_suffix htype.isSuffix)]
    rfl
  | @separated name colon separator ts mid rest type properties hk hcolon htype hsep _ ih =>
    have hs' : ShortNumerals ts := hs.tail.tail
    have hbracket : startsWithMark '[' (separator :: mid) = false := by
      rcases hsep with hsep | hsep
      · exact mark_ne hsep (by decide)
      · exact mark_ne hsep (by decide)
    have hdrop : (dropSeparator [';', ','] (separator :: mid)).1 = mid := by
      rw [dropSeparator_cons, if_pos (by simpa using hsep)]
    rw [taken_readProperties_cons, isMark_of_kind hk]
    simp only [Bool.false_eq_true, if_false, taken_takeName.mpr ⟨rfl, hk⟩, Option.bind_some,
      taken_takeMark.mpr ⟨rfl, hcolon⟩, readType_complete htype hs' hbracket]
    rw [hdrop, ih (hs'.of_suffix htype.isSuffix).tail]
    rfl

theorem DerivesProperties.isSuffix {properties : List PropertyDecl}
    (h : DerivesProperties ts rest properties) : rest <:+ ts := by
  induction h with
  | close => exact List.suffix_cons _ _
  | property _ _ htype _ ih => exact isSuffix_cons (isSuffix_cons (ih.trans htype.isSuffix))
  | separated _ _ htype _ _ ih =>
    exact isSuffix_cons (isSuffix_cons (ih.trans (isSuffix_of_cons htype.isSuffix)))

/-! ### Clauses -/

def Bounds (ts : List Token) : Prop :=
  ∃ t rest, ts = t :: rest ∧ (t.kind = .identifier ∨ t.isMark ';' = true ∨ t.isMark '}' = true)

theorem Bounds.stops {p : Nat} (h : Bounds ts) : Stops p ts := by
  obtain ⟨t, rest, rfl, hk | hm | hm⟩ := h
  · intro s hs
    cases hs
    simp [Token.rightPower?, hk]
  · exact stops_of_isMark hm
  · exact stops_of_isMark hm

theorem Bounds.ends (h : Bounds ts) : Ends ts := by
  obtain ⟨t, rest, rfl, ht⟩ := h
  intro s hs
  cases hs
  rcases ht with hk | hm | hm
  · exact ⟨isMark_of_kind hk, isMark_of_kind hk, isMark_of_kind hk⟩
  · exact ⟨mark_ne hm (by decide), mark_ne hm (by decide), mark_ne hm (by decide)⟩
  · exact ⟨mark_ne hm (by decide), mark_ne hm (by decide), mark_ne hm (by decide)⟩

theorem Bounds.read {e : Expr} (hb : Bounds rest) (h : Derives .assignment ts rest e)
    (hs : ShortNumerals ts) : taken (readExpr finish 0 ts) = some (e, rest) :=
  (h.completes hs).1.read (Nat.zero_le _) hb.stops hb.ends hb.stops

theorem opensClause_eq_false {word other : String} (h : t.isWord word = true)
    (hne : word ≠ other) : t.opensClause other ts = false := by
  simp [Token.opensClause, Token.isWord, value_of_isWord h, hne]

theorem exprClause_complete (finish : Position) {word : String} {e : Expr}
    (h : DerivesExprClause false word ts rest e) (hs : ShortNumerals ts) (hb : Bounds rest) :
    ∃ t tail, ts = t :: tail ∧ t.isWord word = true ∧ t.opensClause word tail = true ∧
      taken (readExpr finish 0 tail.tail) = some (e, rest) := by
  obtain ⟨hword, hcolon, hd, -⟩ := h
  exact ⟨_, _, rfl, hword, opensClause_iff.mpr ⟨hword, _, _, rfl, hcolon⟩,
    hb.read hd hs.tail.tail⟩

/-- A reader takes the clauses of a kind, and nothing in front of a mark. -/
structure ReadsClauses (finish : Position)
    (read : Token → (rest : List Token) → Except SourceError (Option (α × Remainder rest)))
    (Clause : List Token → List Token → α → Prop) : Prop where
  complete : ∀ {ts rest clause}, Clause ts rest clause → ShortNumerals ts → Bounds rest →
    ∃ t tail, ts = t :: tail ∧ takenIfAny (read t tail) = some (some (clause, rest))
  head : ∀ {ts rest clause}, Clause ts rest clause →
    ∃ t tail, ts = t :: tail ∧ t.kind = .identifier
  isSuffix : ∀ {ts rest clause}, Clause ts rest clause → rest <:+ ts
  mark : ∀ {t a ts}, t.isMark a = true → takenIfAny (read t ts) = some none

theorem DerivesExprClause.isSuffix {word : String} {e : Expr} {lax : Bool}
    (h : DerivesExprClause lax word ts rest e) : rest <:+ ts := by
  obtain ⟨-, -, hd, -⟩ := h
  exact isSuffix_cons (isSuffix_cons hd.isSuffix)

theorem DerivesExprClause.exists_head {word : String} {e : Expr} {lax : Bool}
    (h : DerivesExprClause lax word ts rest e) :
    ∃ t tail, ts = t :: tail ∧ t.kind = .identifier := by
  obtain ⟨hword, -, -, -⟩ := h
  exact ⟨_, _, rfl, kind_of_isWord hword⟩

theorem readEventClause_complete {clause : EventClause}
    (h : DerivesEventClause false ts rest clause) (hs : ShortNumerals ts) (hb : Bounds rest) :
    ∃ t tail, ts = t :: tail ∧
      takenIfAny (readEventClause finish t tail) = some (some (clause, rest)) := by
  cases h with
  | condition h =>
    obtain ⟨t, tail, rfl, -, hopens, hread⟩ := exprClause_complete finish h hs hb
    refine ⟨t, tail, rfl, ?_⟩
    rw [takenIfAny_readEventClause, if_pos hopens, hread]
    rfl
  | @target keyword colon name _ hword hcolon hk =>
    have hopens := opensClause_iff.mpr ⟨hword, colon, name :: rest, rfl, hcolon⟩
    refine ⟨keyword, _, rfl, ?_⟩
    rw [takenIfAny_readEventClause, opensClause_eq_false hword (by decide), if_pos hopens,
      List.tail_cons, taken_takeName.mpr ⟨rfl, hk⟩]
    rfl
  | effect h =>
    obtain ⟨t, tail, rfl, hword, hopens, hread⟩ := exprClause_complete finish h hs hb
    refine ⟨t, tail, rfl, ?_⟩
    rw [takenIfAny_readEventClause, opensClause_eq_false hword (by decide),
      opensClause_eq_false hword (by decide), if_pos hopens, hread]
    rfl
  | @weighted name opening closing equals ts mid _ e x hname hopen hd hclose hequals hx =>
    have hs' : ShortNumerals ts := hs.tail.tail
    have hprobability : (name.isWord "P" && startsWithMark '[' (opening :: ts)) = true := by
      simp [hname, startsWithMark, hopen]
    have hread : taken (readExpr finish 0 ts) = some (e, closing :: equals :: mid) :=
      (hd.completes hs').1.read_mark hclose (.inr (.inr rfl))
    have hweight : taken (readWeighted finish (opening :: ts)) = some (⟨e, x⟩, rest) := by
      rw [taken_readWeighted]
      simp only [taken_takeMark.mpr ⟨rfl, hopen⟩, Option.bind_some, hread,
        taken_takeMark.mpr ⟨rfl, hclose⟩, taken_takeOperator.mpr ⟨rfl, hequals⟩,
        takeFloat_complete hx (hs'.of_suffix hd.isSuffix).tail.tail]
    refine ⟨name, _, rfl, ?_⟩
    rw [takenIfAny_readEventClause, ← isWord_and_startsWithMark,
      opensClause_eq_false hname (by decide), opensClause_eq_false hname (by decide),
      opensClause_eq_false hname (by decide), hprobability, hweight]
    rfl

theorem readsEventClauses (finish : Position) :
    ReadsClauses finish (readEventClause finish) (DerivesEventClause false) where
  complete := readEventClause_complete
  head h := by
    cases h with
    | condition h | effect h => exact h.exists_head
    | target hword | weighted hword => exact ⟨_, _, rfl, kind_of_isWord hword⟩
  isSuffix h := by
    cases h with
    | condition h | effect h => exact h.isSuffix
    | target => exact isSuffix_cons (isSuffix_cons (List.suffix_cons _ _))
    | weighted _ _ hd _ _ hx =>
      exact isSuffix_cons (isSuffix_cons (hx.isSuffix.trans
        (isSuffix_of_cons (isSuffix_of_cons hd.isSuffix))))
  mark h := by
    simp [takenIfAny_readEventClause, Token.opensClause, Token.isWord, kind_of_isMark h]

theorem readTemporal_of_derives (finish : Position) {name : Token} {clause : TemporalClause}
    (hk : name.kind = .identifier) (h : Derives .operand (name :: ts) rest clause.toExpr)
    (hs : ShortNumerals (name :: ts)) :
    startsWithMark '(' ts = true ∧ temporalStart? name.value ts = some clause.op ∧
      taken (readTemporal finish clause.op ts) = some (clause, rest) := by
  obtain ⟨op, operands⟩ := clause
  dsimp only [TemporalClause.toExpr] at h
  cases h with
  | descend hd => cases hd
  | group hopen => exact absurd (kind_of_isMark hopen) (by simp [hk])
  | call hcall =>
    cases hcall with
    | descend hd => cases hd
  | temporal _ hop hu hopen hd hclose =>
    exact ⟨hopen, temporalStart?_eq_some_iff.mpr ⟨hopen, hop⟩,
      readTemporal_complete hu hopen hclose (hd.completes hs.tail.tail).1⟩
  | temporalPair hword hopen hf hcomma hsec hclose =>
    have hop : TemporalOp.ofName? name.value = some .until := by rw [value_of_isWord hword]; rfl
    have hs' := hs.tail.tail
    exact ⟨hopen, temporalStart?_eq_some_iff.mpr ⟨hopen, hop⟩,
      readTemporal_pair_complete hopen hcomma hclose (hf.completes hs').1
        (hsec.completes (hs'.of_suffix hf.isSuffix).tail).1⟩

theorem readProbability_of_derives (finish : Position) {name : Token} {clause : ProbabilityClause}
    (hk : name.kind = .identifier) (h : Derives .operand (name :: ts) rest clause.toExpr)
    (hs : ShortNumerals (name :: ts)) :
    name.isWord "P" = true ∧ startsWithMark '[' ts = true ∧
      taken (readProbability finish ts) = some (clause, rest) := by
  obtain ⟨event, comparison, x⟩ := clause
  dsimp only [ProbabilityClause.toExpr] at h
  cases h with
  | descend hd => cases hd
  | group hopen => exact absurd (kind_of_isMark hopen) (by simp [hk])
  | call hcall =>
    cases hcall with
    | descend hd => cases hd
  | probability hword hopen hd hclose hnot =>
    refine ⟨hword, hopen, ?_⟩
    rw [readProbability_complete hopen hclose (hd.completes hs.tail.tail).1,
      takeThreshold_none hnot]
  | threshold hword hopen hd hclose ht hx =>
    have hs' := hs.tail.tail
    refine ⟨hword, hopen, ?_⟩
    rw [readProbability_complete hopen hclose (hd.completes hs').1,
      takeThreshold_complete ht hx (hs'.of_suffix hd.isSuffix).tail.tail]

theorem opensClause_of_startsWithMark {a : Char} {word : String}
    (h : startsWithMark a ts = true) (ha : a ≠ ':') : t.opensClause word ts = false := by
  cases ts with
  | nil => cases h
  | cons u tail => simp [Token.opensClause, startsWithMark, mark_ne h ha]

theorem readRuleClause_complete {clause : RuleClause}
    (h : DerivesRuleClause false ts rest clause) (hs : ShortNumerals ts) (hb : Bounds rest) :
    ∃ t tail, ts = t :: tail ∧
      takenIfAny (readRuleClause finish t tail) = some (some (clause, rest)) := by
  cases h with
  | condition h =>
    obtain ⟨t, tail, rfl, -, hopens, hread⟩ := exprClause_complete finish h hs hb
    refine ⟨t, tail, rfl, ?_⟩
    rw [takenIfAny_readRuleClause, if_pos hopens, hread]
    rfl
  | effect h =>
    obtain ⟨t, tail, rfl, hword, hopens, hread⟩ := exprClause_complete finish h hs hb
    refine ⟨t, tail, rfl, ?_⟩
    rw [takenIfAny_readRuleClause, opensClause_eq_false hword (by decide), if_pos hopens, hread]
    rfl
  | @temporal name ts _ clause hk hd =>
    obtain ⟨hopen, hstart, hread⟩ := readTemporal_of_derives finish hk hd hs
    refine ⟨name, ts, rfl, ?_⟩
    rw [takenIfAny_readRuleClause, opensClause_of_startsWithMark hopen (by decide),
      opensClause_of_startsWithMark hopen (by decide), hk, hstart]
    simp [hread]
  | @probability name ts _ clause hk hd =>
    obtain ⟨hword, hopen, hread⟩ := readProbability_of_derives finish hk hd hs
    have hopens : opensProbability name.value ts = true := by
      simp [opensProbability, value_of_isWord hword, hopen]
    have hstart : temporalStart? name.value ts = none := by
      simp [temporalStart?, value_of_isWord hword, TemporalOp.ofName?]
    refine ⟨name, ts, rfl, ?_⟩
    rw [takenIfAny_readRuleClause, opensClause_of_startsWithMark hopen (by decide),
      opensClause_of_startsWithMark hopen (by decide), hk, hstart]
    simp [hopens, hread]

theorem readsRuleClauses (finish : Position) :
    ReadsClauses finish (readRuleClause finish) (DerivesRuleClause false) where
  complete := readRuleClause_complete
  head h := by
    cases h with
    | condition h | effect h => exact h.exists_head
    | temporal hk | probability hk => exact ⟨_, _, rfl, hk⟩
  isSuffix h := by
    cases h with
    | condition h | effect h => exact h.isSuffix
    | temporal _ hd | probability _ hd => exact hd.isSuffix
  mark h := by
    simp [takenIfAny_readRuleClause, Token.opensClause, Token.isWord, kind_of_isMark h]

/-! ### Rows -/

section

variable {fits : List Token → Bool} {Part : List Token → List Token → Body α → Prop}
  {part body : Body α}

theorem DerivesRow.isSuffix
    (hpart : ∀ {ts rest part}, Part ts rest part → rest <:+ ts)
    (h : DerivesRow false place fits Part ts rest body) : rest <:+ ts := by
  induction h with
  | nil => exact List.suffix_rfl
  | part hp _ ih => exact ih.trans (hpart hp)
  | run hlax => cases hlax

theorem DerivesBlock.isSuffix {word : String} {around : String → Surroundings}
    {begins : Token → List Token → Bool} {keyword : Token} {name : String}
    (hpart : ∀ {ts rest part}, Part ts rest part → rest <:+ ts)
    (h : DerivesBlock false word around begins Part ts rest keyword name body) : rest <:+ ts := by
  obtain ⟨-, -, -, hrow, -⟩ := h
  exact isSuffix_cons (isSuffix_cons (isSuffix_cons (isSuffix_of_cons (hrow.isSuffix hpart))))

theorem DerivesRow.bounds {Clause : List Token → List Token → α → Prop}
    (hhead : ∀ {ts rest clause}, Clause ts rest clause →
      ∃ t tail, ts = t :: tail ∧ t.kind = .identifier)
    (hclose : closing.isMark '}' = true)
    (h : DerivesRow false place fits (DerivesPart Clause) ts (closing :: rest) body) :
    Bounds ts := by
  cases h with
  | nil => exact ⟨closing, rest, rfl, .inr (.inr hclose)⟩
  | part hp =>
    cases hp with
    | semicolon ht => exact ⟨_, _, rfl, .inr (.inl ht)⟩
    | clause hc =>
      obtain ⟨t, tail, rfl, hk⟩ := hhead hc
      exact ⟨t, tail, rfl, .inl hk⟩
  | run hlax => cases hlax

end

theorem ReadsClauses.part_isSuffix {Clause : List Token → List Token → α → Prop}
    {read : Token → (rest : List Token) → Except SourceError (Option (α × Remainder rest))}
    {part : Body α} (hread : ReadsClauses finish read Clause)
    (h : DerivesPart Clause ts rest part) : rest <:+ ts := by
  cases h with
  | semicolon => exact List.suffix_cons _ _
  | clause hc => exact hread.isSuffix hc

theorem readClauses_complete {Clause : List Token → List Token → α → Prop}
    {fits : List Token → Bool} {body : Body α}
    {read : Token → (rest : List Token) → Except SourceError (Option (α × Remainder rest))}
    (hread : ReadsClauses finish read Clause) (hclose : closing.isMark '}' = true)
    (hs : ShortNumerals ts)
    (h : DerivesRow false place fits (DerivesPart Clause) ts (closing :: rest) body) :
    taken (readClauses finish place read skipping ts) = some (body, rest) := by
  have hsemicolon {t : Token} {ts : List Token} {skipping : Bool} (ht : t.isMark ';' = true) :
      taken (readClauses finish place read skipping (t :: ts)) =
        taken (readClauses finish place read false ts) := by
    rw [taken_readClauses_cons, mark_ne ht (by decide), hread.mark ht]
    simp [ht]
  generalize hend : closing :: rest = final at h
  induction h generalizing skipping with
  | nil =>
    subst hend
    rw [taken_readClauses_cons, if_pos hclose]
  | @part ts mid final part body hp hrow ih =>
    subst hend
    have ih' {skipping : Bool} : taken (readClauses finish place read skipping mid) =
        some (body, rest) := ih (hs.of_suffix (hread.part_isSuffix hp)) rfl
    cases hp with
    | semicolon ht =>
      rw [hsemicolon ht]
      exact ih'
    | @clause _ _ clause hc =>
      obtain ⟨t, tail, rfl, hfound⟩ := hread.complete hc hs (hrow.bounds hread.head hclose)
      have hk : t.kind = .identifier := by
        obtain ⟨u, tail', he, hk⟩ := hread.head hc
        cases he
        exact hk
      have hdrop : taken (readClauses finish place read false (dropSeparator [';'] mid).1) =
          some (body, rest) := by
        cases mid with
        | nil => exact ih'
        | cons s more =>
          rw [dropSeparator_cons]
          by_cases hs : [';'].any s.isMark = true
          · rw [if_pos hs, ← @hsemicolon s more false (by simpa using hs)]
            exact ih'
          · rw [if_neg hs]
            exact ih'
      rw [taken_readClauses_cons, isMark_of_kind hk]
      simp only [Bool.false_eq_true, if_false, hfound, Option.bind_some, hdrop]
      rfl
  | run hlax => cases hlax

/-! ### Definitions -/

theorem readEvent_complete (finish : Position) {keyword : Token} {name : String}
    {body : Body EventClause}
    (h : DerivesBlock false "Event" .event beginsEventClause
      (DerivesPart (DerivesEventClause false)) ts rest keyword name body)
    (hs : ShortNumerals ts) :
    ∃ tail, ts = keyword :: tail ∧ keyword.isWord "Event" = true ∧
      takenWithRuns (readEvent finish tail) =
        some (.ofClauses name body.items, body.skipped, rest) := by
  obtain ⟨hword, hk, hopen, hrow, hclose⟩ := h
  refine ⟨_, rfl, hword, ?_⟩
  rw [takenWithRuns_readEvent]
  simp only [taken_takeName.mpr ⟨rfl, hk⟩, Option.bind_some, taken_takeMark.mpr ⟨rfl, hopen⟩,
    readClauses_complete (readsEventClauses finish) hclose hs.tail.tail.tail hrow]

theorem readRule_complete (finish : Position) {keyword : Token} {name : String}
    {body : Body RuleClause}
    (h : DerivesBlock false "Rule" .rule beginsRuleClause
      (DerivesPart (DerivesRuleClause false)) ts rest keyword name body)
    (hs : ShortNumerals ts) :
    ∃ tail, ts = keyword :: tail ∧ keyword.isWord "Rule" = true ∧
      takenWithRuns (readRule finish tail) =
        some (.ofClauses name body.items, body.skipped, rest) := by
  obtain ⟨hword, hk, hopen, hrow, hclose⟩ := h
  refine ⟨_, rfl, hword, ?_⟩
  rw [takenWithRuns_readRule]
  simp only [taken_takeName.mpr ⟨rfl, hk⟩, Option.bind_some, taken_takeMark.mpr ⟨rfl, hopen⟩,
    readClauses_complete (readsRuleClauses finish) hclose hs.tail.tail.tail hrow]

theorem isWord_eq_false {word other : String} (h : t.isWord word = true) (hne : word ≠ other) :
    t.isWord other = false := by
  simp [Token.isWord, value_of_isWord h, hne]

theorem DerivesEntityPart.isSuffix {part : Body EntityClause}
    (h : DerivesEntityPart false ts rest part) : rest <:+ ts := by
  cases h with
  | semicolon => exact List.suffix_cons _ _
  | state _ _ hproperties => exact isSuffix_cons (isSuffix_cons hproperties.isSuffix)
  | event h => exact h.isSuffix (readsEventClauses .start).part_isSuffix

theorem readEntityBody_complete {name : String} {fits : List Token → Bool}
    {body : Body EntityClause} (hclose : closing.isMark '}' = true) (hs : ShortNumerals ts)
    (h : DerivesRow false place fits (DerivesEntityPart false) ts (closing :: rest) body) :
    taken (readEntityBody finish name skipping ts) = some (body, rest) := by
  generalize hend : closing :: rest = final at h
  induction h generalizing skipping with
  | nil =>
    subst hend
    rw [taken_readEntityBody_cons, if_pos hclose]
  | @part ts mid final part body hp hrow ih =>
    subst hend
    have ih' : taken (readEntityBody finish name false mid) = some (body, rest) :=
      ih (hs.of_suffix hp.isSuffix) rfl
    cases hp with
    | @semicolon t _ ht =>
      have hnot (word : String) : t.isWord word = false := by
        simp [Token.isWord, kind_of_isMark ht]
      rw [taken_readEntityBody_cons, mark_ne ht (by decide), hnot, hnot, ht]
      exact ih'
    | @state keyword opening ts _ properties hword hopen hproperties =>
      rw [taken_readEntityBody_cons, isMark_of_kind (kind_of_isWord hword), hword]
      simp only [Bool.false_eq_true, if_false, if_true, taken_takeMark.mpr ⟨rfl, hopen⟩,
        Option.bind_some, readProperties_complete hproperties hs.tail.tail, ih']
      rfl
    | @event keyword _ _ event events h =>
      obtain ⟨tail, rfl, hword, hread⟩ := readEvent_complete finish h hs
      rw [taken_readEntityBody_cons, isMark_of_kind (kind_of_isWord hword),
        isWord_eq_false hword (by decide), hword]
      simp only [Bool.false_eq_true, if_false, if_true, hread, Option.bind_some, ih']
      rfl
  | run hlax => cases hlax

theorem readEntity_complete (finish : Position) {keyword : Token} {name : String}
    {body : Body EntityClause}
    (h : DerivesBlock false "Entity" .entity beginsEntityPart (DerivesEntityPart false) ts rest
      keyword name body) (hs : ShortNumerals ts) :
    ∃ tail, ts = keyword :: tail ∧ keyword.isWord "Entity" = true ∧
      takenWithRuns (readEntity finish ts) =
        some (.ofClauses name keyword.position.line body.items, body.skipped, rest) := by
  obtain @⟨_, name, opening, _, ts, _, _, hword, hk, hopen, hrow, hclose⟩ := h
  have hkeyword : taken (takeToken finish (.keyword "Entity") (·.isWord "Entity")
      (keyword :: name :: opening :: ts)) = some (keyword, name :: opening :: ts) :=
    taken_takeToken.mpr ⟨rfl, hword⟩
  refine ⟨_, rfl, hword, ?_⟩
  rw [takenWithRuns_readEntity, hkeyword]
  simp only [Option.bind_some, taken_takeName.mpr ⟨rfl, hk⟩, taken_takeMark.mpr ⟨rfl, hopen⟩,
    readEntityBody_complete hclose hs.tail.tail.tail hrow]

theorem DerivesDeclaration.isSuffix {part : Body Declaration}
    (h : DerivesDeclaration false ts rest part) : rest <:+ ts := by
  cases h with
  | entity h => exact h.isSuffix DerivesEntityPart.isSuffix
  | rule h => exact h.isSuffix (readsRuleClauses .start).part_isSuffix

theorem declarations?_complete {fits : List Token → Bool} {body : Body Declaration}
    (hs : ShortNumerals ts)
    (h : DerivesRow false place fits (DerivesDeclaration false) ts [] body) :
    declarations? finish skipping ts = some body := by
  generalize hend : [] = final at h
  induction h generalizing skipping with
  | nil =>
    subst hend
    exact declarations?_nil finish skipping
  | @part ts mid final part body hp hrow ih =>
    have ih' : declarations? finish false mid = some body :=
      ih (hs.of_suffix hp.isSuffix) hend
    cases hp with
    | entity h =>
      obtain ⟨tail, rfl, hword, hread⟩ := readEntity_complete finish h hs
      rw [declarations?_cons, if_pos hword, hread]
      simp only [Option.bind_some, ih', Option.map_some]
      rfl
    | rule h =>
      obtain ⟨tail, rfl, hword, hread⟩ := readRule_complete finish h hs
      rw [declarations?_cons, isWord_eq_false hword (by decide), hword, hread]
      simp only [Bool.false_eq_true, if_false, if_true, Option.bind_some, ih', Option.map_some]
      rfl
  | run hlax => cases hlax

/-! ### Nothing is passed over -/

theorem DerivesRow.skipped_eq_nil {fits : List Token → Bool} {body : Body α}
    {Part : List Token → List Token → Body α → Prop}
    (hpart : ∀ {ts rest part}, Part ts rest part → part.skipped = [])
    (h : DerivesRow false place fits Part ts rest body) : body.skipped = [] := by
  induction h with
  | nil => rfl
  | part hp _ ih => exact List.append_eq_nil_iff.mpr ⟨hpart hp, ih⟩
  | run hlax => cases hlax

theorem DerivesBlock.skipped_eq_nil {word : String} {around : String → Surroundings}
    {begins : Token → List Token → Bool} {keyword : Token} {name : String} {body : Body α}
    {Part : List Token → List Token → Body α → Prop}
    (hpart : ∀ {ts rest part}, Part ts rest part → part.skipped = [])
    (h : DerivesBlock false word around begins Part ts rest keyword name body) :
    body.skipped = [] := by
  obtain ⟨-, -, -, hrow, -⟩ := h
  exact hrow.skipped_eq_nil hpart

theorem DerivesPart.skipped_eq_nil {Clause : List Token → List Token → α → Prop} {part : Body α}
    (h : DerivesPart Clause ts rest part) : part.skipped = [] := by
  cases h <;> rfl

theorem DerivesEntityPart.skipped_eq_nil {part : Body EntityClause}
    (h : DerivesEntityPart false ts rest part) : part.skipped = [] := by
  cases h with
  | semicolon | state => rfl
  | event h =>
    have hbody := h.skipped_eq_nil DerivesPart.skipped_eq_nil
    exact hbody

theorem DerivesDeclaration.skipped_eq_nil {part : Body Declaration}
    (h : DerivesDeclaration false ts rest part) : part.skipped = [] := by
  cases h with
  | entity h =>
    have hbody := h.skipped_eq_nil DerivesEntityPart.skipped_eq_nil
    exact hbody
  | rule h =>
    have hbody := h.skipped_eq_nil DerivesPart.skipped_eq_nil
    exact hbody

/-- Every program that the strict grammar derives is read without a warning. -/
theorem programOfTokens_of_derivesProgram {program : Program} (hs : ShortNumerals ts)
    (h : DerivesProgram false ts program) :
    programOfTokens ts = .ok program ∧ program.warnings = [] := by
  obtain ⟨hrow⟩ := h
  exact ⟨programOfTokens_eq_ok_iff_declarations?.mpr ⟨_, declarations?_complete hs hrow, rfl⟩,
    hrow.skipped_eq_nil DerivesDeclaration.skipped_eq_nil⟩

end StepWorld
