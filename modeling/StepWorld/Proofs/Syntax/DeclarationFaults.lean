import StepWorld.Proofs.Syntax.Faults
import StepWorld.Syntax.Declaration

/-! Declarations convert no number on their own: whatever stops the reading of a program either is a
fault of syntax that points into the tokens or has its cause in them. -/

namespace StepWorld

variable {α : Type} {t : Token} {all ts : List Token} {finish : Position}

theorem isSuffix_dropSeparator (separators : List Char) (ts : List Token) :
    (dropSeparator separators ts).1 <:+ ts := by
  cases ts with
  | nil => exact List.suffix_rfl
  | cons t ts =>
    unfold dropSeparator
    dsimp only
    split
    · exact List.suffix_cons t ts
    · exact List.suffix_rfl

theorem Rest.isSuffix_dropSeparator (part : Rest ts) (hs : part.1 <:+ all)
    (separators : List Char) : (part.dropSeparator separators).1 <:+ all := by
  obtain ⟨part, hpart⟩ := part
  exact (StepWorld.isSuffix_dropSeparator separators part).trans hs

/-! ### Types and properties -/

theorem answers_takeInteger (hs : ts <:+ all) :
    Answers finish all (Leaves all) (takeInteger finish ts) := by
  refine .bind (answers_takeNumber hs) ?_
  rintro ⟨n, t, rest⟩ ⟨hrest, ⟨ht, hkind⟩, _⟩
  cases n with
  | whole => exact hrest
  | real => exact ⟨t, ht, hkind, rfl⟩

theorem answers_readMembers (finish : Position) (first : Bool) (ts : List Token) (hs : ts <:+ all) :
    Answers finish all (Leaves all) (readMembers finish first ts) := by
  rw [readMembers.eq_def]
  cases ts with
  | nil => exact answers_refuse hs
  | cons t ts =>
    dsimp only
    split
    · exact isSuffix_of_cons hs
    split
    · refine .bind (leaves_takeToken hs) ?_
      rintro ⟨member, more, h⟩ hmore
      exact .bind (answers_readMembers finish false more hmore) fun _ hfinal => hfinal
    · refine .bind (leaves_takeToken hs) ?_
      rintro ⟨_, next⟩ hnext
      refine .bind (.andThen (leaves_takeToken hnext)) ?_
      rintro ⟨member, more, h⟩ hmore
      exact .bind (answers_readMembers finish false more hmore) fun _ hfinal => hfinal
termination_by ts.length
decreasing_by all_goals subst_vars; omega

theorem answers_readType (hs : ts <:+ all) : Answers finish all (Leaves all) (readType finish ts) := by
  unfold readType
  refine .bind (answers_takeToken hs) ?_
  rintro ⟨name, rest⟩ ⟨hts, -⟩
  have hname : name ∈ all := hs.subset (hts ▸ List.mem_cons_self)
  have hrest : rest.1 <:+ all := isSuffix_of_cons (hts ▸ hs)
  dsimp only
  split
  · refine .bind (.andThen (leaves_takeToken hrest)) ?_
    rintro ⟨_, rest⟩ hrest
    exact .bind (.andThen (answers_readMembers finish true _ hrest)) fun _ hfinal => hfinal
  split
  · refine .bind (.andThen (leaves_takeToken hrest)) ?_
    rintro ⟨_, rest⟩ hrest
    refine .bind (.andThen (answers_takeInteger hrest)) ?_
    rintro ⟨minimum, rest⟩ hrest
    refine .bind (.andThen (leaves_takeToken hrest)) ?_
    rintro ⟨_, rest⟩ hrest
    refine .bind (.andThen (answers_takeInteger hrest)) ?_
    rintro ⟨maximum, rest⟩ hrest
    dsimp only
    split
    · exact answers_refuse hrest
    · exact .bind (.andThen (leaves_takeToken hrest)) fun _ hfinal => hfinal
  split
  · refine .bind (.andThen (leaves_takeToken hrest)) ?_
    rintro ⟨_, rest⟩ hrest
    refine .bind (.andThen (leaves_takeToken hrest)) ?_
    rintro ⟨element, rest⟩ hrest
    exact .bind (.andThen (leaves_takeToken hrest)) fun _ hfinal => hfinal
  · split
    · exact hrest
    · exact (⟨hname, rfl⟩ : name ∈ all ∧ name.position = name.position)

theorem answers_readProperties (finish : Position) (ts : List Token) (hs : ts <:+ all) :
    Answers finish all (Leaves all) (readProperties finish ts) := by
  rw [readProperties.eq_def]
  cases ts with
  | nil => exact answers_refuse hs
  | cons t ts =>
    dsimp only
    split
    · exact isSuffix_of_cons hs
    refine .bind (leaves_takeToken hs) ?_
    rintro ⟨name, more⟩ hmore
    refine .bind (.andThen (leaves_takeToken hmore)) ?_
    rintro ⟨_, more⟩ hmore
    refine .bind (.andThen (answers_readType hmore)) ?_
    rintro ⟨type, more⟩ hmore
    have hnext := Rest.isSuffix_dropSeparator _ hmore [';', ',']
    dsimp only at hnext ⊢
    generalize more.dropSeparator [';', ','] = next at hnext
    obtain ⟨next, h⟩ := next
    exact .bind (answers_readProperties finish next hnext) fun _ hfinal => hfinal
termination_by ts.length
decreasing_by all_goals subst_vars; omega

/-! ### Clauses -/

theorem answers_equals {items : List Token} {bracket : Token} {part : Rest items}
    (hs : bracket :: part.1 <:+ all) :
    Answers finish all (fun (op, rest) => bracket :: op :: rest.1 <:+ all ∧ isThresholdOperator op)
      (part.andThen (takeOperator finish "=")) := by
  refine Admits.andThen_same
    (P := fun op rest => bracket :: op :: rest <:+ all ∧ isThresholdOperator op) ?_
  refine (answers_takeToken (isSuffix_of_cons hs)).mono fun _ h => ⟨h.1 ▸ hs, ?_⟩
  obtain ⟨-, hop⟩ := h
  simp [isThresholdOperator, kind_of_isOperator hop, value_of_isOperator hop]

theorem answers_readWeighted (hs : ts <:+ all) :
    Answers finish all (Leaves all) (readWeighted finish ts) := by
  refine .bind (leaves_takeToken hs) ?_
  rintro ⟨_, rest⟩ hrest
  refine .bind (.andThen (answers_readExpr finish 0 _ hrest)) ?_
  rintro ⟨effect, rest⟩ hrest
  refine .bind (answers_closingBracket hrest) ?_
  rintro ⟨bracket, rest⟩ ⟨hrest, hbracket⟩
  refine .bind (answers_equals hrest) ?_
  rintro ⟨op, rest⟩ ⟨hrest, hop⟩
  exact .bind (.andThen (answers_takeFloat hrest hbracket hop)) fun _ hfinal => hfinal

def LeavesBehind (all : List Token) : Option (α × Remainder ts) → Prop
  | some clause => Leaves all clause
  | none => True

def ReadsClause (finish : Position) (all : List Token)
    (readClause : Token → (rest : List Token) → Except SourceError (Option (α × Remainder rest))) :
    Prop :=
  ∀ t ts, ts <:+ all → Answers finish all (LeavesBehind all) (readClause t ts)

theorem readsClause_readEventClause (finish : Position) (all : List Token) :
    ReadsClause finish all (readEventClause finish) := by
  intro t ts hs
  have htail : ts.tail <:+ all := (List.tail_suffix ts).trans hs
  unfold readEventClause
  split
  · exact .bind (answers_readExpr finish 0 _ htail) fun _ hmore => hmore
  split
  · exact .bind (leaves_takeToken htail) fun _ hmore => hmore
  split
  · exact .bind (answers_readExpr finish 0 _ htail) fun _ hmore => hmore
  split
  · exact .bind (answers_readWeighted hs) fun _ hmore => hmore
  · trivial

theorem readsClause_readRuleClause (finish : Position) (all : List Token) :
    ReadsClause finish all (readRuleClause finish) := by
  intro t ts hs
  have htail : ts.tail <:+ all := (List.tail_suffix ts).trans hs
  unfold readRuleClause
  split
  · exact .bind (answers_readExpr finish 0 _ htail) fun _ hmore => hmore
  split
  · exact .bind (answers_readExpr finish 0 _ htail) fun _ hmore => hmore
  split
  · split
    · exact .bind (answers_readTemporal finish _ ts hs) fun _ hmore => hmore
    split
    · exact .bind (answers_readProbability finish ts hs) fun _ hmore => hmore
    · trivial
  · trivial

theorem answers_readClauses {place : Surroundings}
    {readClause : Token → (rest : List Token) → Except SourceError (Option (α × Remainder rest))}
    (hclause : ReadsClause finish all readClause) (skipping : Bool) (ts : List Token) (hs : ts <:+ all) :
    Answers finish all (Leaves all) (readClauses finish place readClause skipping ts) := by
  rw [readClauses.eq_def]
  cases ts with
  | nil => exact answers_refuse hs
  | cons t ts =>
    have htail : ts <:+ all := isSuffix_of_cons hs
    dsimp only
    split
    · exact htail
    refine .bind (hclause t ts htail) fun found hfound => ?_
    cases found with
    | some clause =>
      obtain ⟨clause, more⟩ := clause
      dsimp only
      have hnext := Rest.isSuffix_dropSeparator (more.under t) hfound [';']
      generalize (more.under t).dropSeparator [';'] = next at hnext
      obtain ⟨next, h⟩ := next
      exact .bind (answers_readClauses hclause false next hnext) fun _ hfinal => hfinal
    | none =>
      dsimp only
      split
      · exact .bind (answers_readClauses hclause false ts htail) fun _ hfinal => hfinal
      · exact .bind (answers_readClauses hclause true ts htail) fun _ hfinal => hfinal
termination_by ts.length
decreasing_by all_goals subst_vars; first | omega | exact Nat.lt_succ_self _

/-! ### Declarations -/

theorem answers_readEvent (hs : ts <:+ all) :
    Answers finish all (fun (_, _, rest) => rest.1 <:+ all) (readEvent finish ts) := by
  refine .bind (leaves_takeToken hs) ?_
  rintro ⟨name, rest⟩ hrest
  refine .bind (.andThen (leaves_takeToken hrest)) ?_
  rintro ⟨_, rest⟩ hrest
  exact .bind
    (.andThen (answers_readClauses (readsClause_readEventClause finish all) false _ hrest))
    fun _ hfinal => hfinal

theorem answers_readRule (hs : ts <:+ all) :
    Answers finish all (fun (_, _, rest) => rest.1 <:+ all) (readRule finish ts) := by
  refine .bind (leaves_takeToken hs) ?_
  rintro ⟨name, rest⟩ hrest
  refine .bind (.andThen (leaves_takeToken hrest)) ?_
  rintro ⟨_, rest⟩ hrest
  exact .bind (.andThen (answers_readClauses (readsClause_readRuleClause finish all) false _ hrest))
    fun _ hfinal => hfinal

theorem answers_readEntityBody (finish : Position) (name : String) (skipping : Bool)
    (ts : List Token) (hs : ts <:+ all) :
    Answers finish all (Leaves all) (readEntityBody finish name skipping ts) := by
  rw [readEntityBody.eq_def]
  cases ts with
  | nil => exact answers_refuse hs
  | cons t ts =>
    have htail : ts <:+ all := isSuffix_of_cons hs
    dsimp only
    split
    · exact htail
    split
    · refine .bind (leaves_takeToken htail) ?_
      rintro ⟨_, more⟩ hmore
      refine .bind (.andThen (answers_readProperties finish _ hmore)) ?_
      rintro ⟨_, more, h⟩ hmore
      exact .bind (answers_readEntityBody finish name false more hmore) fun _ hfinal => hfinal
    split
    · refine .bind (answers_readEvent htail) ?_
      rintro ⟨event, skipped, more, h⟩ hmore
      exact .bind (answers_readEntityBody finish name false more hmore) fun _ hfinal => hfinal
    split
    · exact .bind (answers_readEntityBody finish name false ts htail) fun _ hfinal => hfinal
    · exact .bind (answers_readEntityBody finish name true ts htail) fun _ hfinal => hfinal
termination_by ts.length
decreasing_by all_goals subst_vars; simp only [List.length_cons]; omega

theorem answers_readEntity (hs : ts <:+ all) :
    Answers finish all (fun (_, _, rest) => rest.1 <:+ all) (readEntity finish ts) := by
  refine .bind (leaves_takeToken hs) ?_
  rintro ⟨keyword, rest⟩ hrest
  refine .bind (.andThen (leaves_takeToken hrest)) ?_
  rintro ⟨name, rest⟩ hrest
  refine .bind (.andThen (leaves_takeToken hrest)) ?_
  rintro ⟨_, rest⟩ hrest
  exact .bind (.andThen (answers_readEntityBody finish name.value false _ hrest))
    fun _ hfinal => hfinal

theorem answers_readDeclarations (finish : Position) (skipping : Bool) (ts : List Token)
    (hs : ts <:+ all) : Answers finish all (fun _ => True) (readDeclarations finish skipping ts) := by
  rw [readDeclarations.eq_def]
  cases ts with
  | nil => trivial
  | cons t ts =>
    have htail : ts <:+ all := isSuffix_of_cons hs
    dsimp only
    split
    · refine .bind (answers_readEntity hs) ?_
      rintro ⟨entity, skipped, more, h⟩ hmore
      exact .bind (answers_readDeclarations finish false more hmore) fun _ _ => trivial
    split
    · refine .bind (answers_readRule htail) ?_
      rintro ⟨rule, skipped, more, h⟩ hmore
      exact .bind (answers_readDeclarations finish false more hmore) fun _ _ => trivial
    · exact .bind (answers_readDeclarations finish true ts htail) fun _ _ => trivial
termination_by ts.length
decreasing_by all_goals subst_vars; simp only [List.length_cons]; omega

theorem answers_programOfTokens (ts : List Token) :
    Answers (endPosition ts) ts (fun _ => True) (programOfTokens ts) :=
  .bind (answers_readDeclarations _ false ts List.suffix_rfl) fun _ _ => trivial

end StepWorld
