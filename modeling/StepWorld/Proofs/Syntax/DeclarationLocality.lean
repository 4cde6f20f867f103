import StepWorld.Proofs.Syntax.DeclarationSoundness
import StepWorld.Proofs.Syntax.Locality

/-! Definitions read further down in a source, and before more tokens: only the lines change. So
the definitions of two sources, one below the other, are those of both. -/

namespace StepWorld

variable {α : Type} {n : Nat} {t : Token} {ts rest more : List Token} {finish finish' : Position}

theorem tail_carried (hs : Sees ts more) :
    (carried n more ts).tail = carried n more ts.tail := by
  cases ts with
  | nil => rw [carried_nil, hs rfl]; rfl
  | cons t ts => rfl

/-! ### Types and properties -/

theorem integerAtFront_carried {change : Int → Int} {k : Int}
    (h : integerAtFront change ts = some (k, rest)) :
    integerAtFront change (carried n more ts) = some (k, carried n more rest) := by
  cases ts with
  | nil => cases h
  | cons t ts =>
    simp only [integerAtFront] at h
    split at h
    · next hk =>
      split at h
      · next hn =>
        cases h
        simp [integerAtFront, hk, hn]
      · cases h
    · cases h

theorem takeInteger_carried {k : Int} (h : taken (takeInteger finish ts) = some (k, rest)) :
    taken (takeInteger finish' (carried n more ts)) = some (k, carried n more rest) := by
  rw [taken_takeInteger] at h ⊢
  cases ts with
  | nil => cases h
  | cons t ts =>
    by_cases hminus : t.isOperator "-" = true
    · simp only [hminus, if_true] at h
      simp only [carried_cons, Token.isOperator_down, hminus, if_true]
      exact integerAtFront_carried h
    · simp only [hminus, Bool.false_eq_true, if_false] at h
      simp only [carried_cons, Token.isOperator_down, hminus, Bool.false_eq_true, if_false]
      rw [← carried_cons]
      exact integerAtFront_carried h

theorem takeMember_carried (h : taken (takeMember finish ts) = some (t, rest)) :
    taken (takeMember finish' (carried n more ts)) = some (t.down n, carried n more rest) :=
  takeToken_carried rfl h

theorem takeOperator_carried {op : String}
    (h : taken (takeOperator finish op ts) = some (t, rest)) :
    taken (takeOperator finish' op (carried n more ts)) = some (t.down n, carried n more rest) :=
  takeToken_carried rfl h

theorem readMembers_carried {first : Bool} {members : List String}
    (h : taken (readMembers finish first ts) = some (members, rest)) :
    taken (readMembers finish' first (carried n more ts)) =
      some (members, carried n more rest) := by
  induction hsize : ts.length using Nat.strongRecOn generalizing ts first members with
  | ind size ih =>
    cases ts with
    | nil => simp at h
    | cons t ts =>
      rw [taken_readMembers_cons] at h
      rw [carried_cons, taken_readMembers_cons, Token.isMark_down]
      split at h
      · next hclose =>
        cases h
        rw [if_pos hclose]
      · next hclose =>
        obtain ⟨start, hstart, h⟩ := Option.bind_eq_some_iff.mp h
        obtain ⟨⟨member, mid⟩, hmember, h⟩ := Option.bind_eq_some_iff.mp h
        obtain ⟨⟨members', last⟩, hmembers, h⟩ := Option.bind_eq_some_iff.mp h
        cases h
        obtain ⟨hstart', hle⟩ := argumentStart_carried n more finish' hstart
        have hmid := length_lt_of_taken hmember
        have hnext := ih mid.length (by omega) hmembers rfl
        rw [if_neg hclose, ← carried_cons, hstart']
        simp only [Option.bind_some, takeMember_carried hmember, hnext, Token.down_value]

theorem readType_carried (hs : Sees rest more) {type : PropertyType}
    (h : taken (readType finish ts) = some (type, rest)) :
    taken (readType finish' (carried n more ts)) = some (type, carried n more rest) := by
  have hlength := length_lt_of_taken h
  rw [taken_readType] at h ⊢
  obtain ⟨⟨name, start⟩, hname, h⟩ := Option.bind_eq_some_iff.mp h
  have hsees : Sees start more := by
    obtain ⟨rfl, -⟩ := taken_takeName.mp hname
    exact hs.of_length (Nat.le_of_lt_succ hlength)
  rw [takeName_carried hname, Option.bind_some]
  simp only [Token.down_value, startsWithMark_carried hsees]
  by_cases henum : (name.value == "Enum") = true
  · simp only [henum, if_true] at h ⊢
    obtain ⟨⟨opening, mid⟩, hopen, h⟩ := Option.bind_eq_some_iff.mp h
    obtain ⟨⟨members, last⟩, hmembers, h⟩ := Option.bind_eq_some_iff.mp h
    cases h
    simp only [takeMark_carried hopen, readMembers_carried hmembers, Option.bind_some]
  · by_cases hint : (name.value == "Int" && startsWithMark '[' start) = true
    · simp only [henum, hint, Bool.false_eq_true, if_false, if_true] at h ⊢
      obtain ⟨⟨opening, mid⟩, hopen, h⟩ := Option.bind_eq_some_iff.mp h
      obtain ⟨⟨min, next⟩, hmin, h⟩ := Option.bind_eq_some_iff.mp h
      obtain ⟨⟨comma, behind⟩, hcomma, h⟩ := Option.bind_eq_some_iff.mp h
      obtain ⟨⟨max, last⟩, hmax, h⟩ := Option.bind_eq_some_iff.mp h
      by_cases hle : max < min
      · simp [hle] at h
      · simp only [hle, if_false] at h
        obtain ⟨⟨closing, final⟩, hclose, h⟩ := Option.bind_eq_some_iff.mp h
        cases h
        simp only [takeMark_carried hopen, takeInteger_carried hmin, takeMark_carried hcomma,
          takeInteger_carried hmax, hle, takeMark_carried hclose, Option.bind_some, if_false]
    · by_cases hlist : (name.value == "List") = true
      · simp only [henum, hint, hlist, Bool.false_eq_true, if_false, if_true] at h ⊢
        obtain ⟨⟨opening, mid⟩, hopen, h⟩ := Option.bind_eq_some_iff.mp h
        obtain ⟨⟨element, next⟩, helement, h⟩ := Option.bind_eq_some_iff.mp h
        obtain ⟨⟨closing, last⟩, hclose, h⟩ := Option.bind_eq_some_iff.mp h
        cases h
        simp only [takeOperator_carried hopen, takeName_carried helement,
          takeOperator_carried hclose, Option.bind_some, Token.down_value]
      · simp only [henum, hint, hlist, Bool.false_eq_true, if_false] at h ⊢
        obtain ⟨scalar, hscalar, h⟩ := Option.map_eq_some_iff.mp h
        cases h
        rw [hscalar]
        rfl

theorem dropSeparator_carried (hs : Sees ts more) (separators : List Char) :
    (dropSeparator separators (carried n more ts)).1 =
      carried n more (dropSeparator separators ts).1 := by
  cases ts with
  | nil => rw [carried_nil, hs rfl]; rfl
  | cons t ts =>
    have hmark : (t.down n).isMark = t.isMark := rfl
    rw [carried_cons, dropSeparator_cons, dropSeparator_cons, hmark]
    split <;> rfl

theorem readProperties_carried {properties : List PropertyDecl}
    (h : taken (readProperties finish ts) = some (properties, rest)) :
    taken (readProperties finish' (carried n more ts)) =
      some (properties, carried n more rest) := by
  induction hsize : ts.length using Nat.strongRecOn generalizing ts properties with
  | ind size ih =>
    cases ts with
    | nil => simp at h
    | cons t ts =>
      rw [taken_readProperties_cons] at h
      rw [carried_cons, taken_readProperties_cons, Token.isMark_down]
      by_cases hclose : t.isMark '}' = true
      · rw [if_pos hclose] at h ⊢
        cases h
        rfl
      · rw [if_neg hclose] at h ⊢
        obtain ⟨⟨name, start⟩, hname, h⟩ := Option.bind_eq_some_iff.mp h
        obtain ⟨⟨colon, mid⟩, hcolon, h⟩ := Option.bind_eq_some_iff.mp h
        obtain ⟨⟨type, next⟩, htype, h⟩ := Option.bind_eq_some_iff.mp h
        obtain ⟨⟨properties', last⟩, hproperties, h⟩ := Option.bind_eq_some_iff.mp h
        cases h
        have hstart := length_lt_of_taken hname
        have hmid := length_lt_of_taken hcolon
        have hnext := length_lt_of_taken htype
        have hdrop := dropSeparator_length_le [';', ','] next
        have hsees : Sees next more := (Sees.of_taken hproperties).of_length hdrop
        have hrest := ih _ (by omega) hproperties rfl
        simp only [← carried_cons, takeName_carried hname, takeMark_carried hcolon,
          readType_carried hsees htype, Option.bind_some]
        rw [dropSeparator_carried hsees, hrest]
        rfl

/-! ### Clauses -/

theorem readWeighted_carried {effect : WeightedEffect}
    (h : taken (readWeighted finish ts) = some (effect, rest)) :
    taken (readWeighted finish' (carried n more ts)) = some (effect, carried n more rest) := by
  rw [taken_readWeighted] at h ⊢
  obtain ⟨⟨opening, start⟩, hopen, h⟩ := Option.bind_eq_some_iff.mp h
  obtain ⟨⟨e, mid⟩, he, h⟩ := Option.bind_eq_some_iff.mp h
  obtain ⟨⟨closing, next⟩, hclose, h⟩ := Option.bind_eq_some_iff.mp h
  obtain ⟨⟨equals, behind⟩, hequals, h⟩ := Option.bind_eq_some_iff.mp h
  obtain ⟨⟨weight, last⟩, hweight, h⟩ := Option.bind_eq_some_iff.mp h
  cases h
  simp only [takeMark_carried hopen, readExpr_carried (.of_taken hclose) he,
    takeMark_carried hclose, takeOperator_carried hequals, takeFloat_carried hweight,
    Option.bind_some]

theorem opensClause_carried (hs : Sees ts more) (word : String) :
    (t.down n).opensClause word (carried n more ts) = t.opensClause word ts := by
  rw [Token.opensClause, Token.opensClause, startsWithMark_carried hs, Token.isWord_down]

def ReadsLocally (n : Nat) (more : List Token)
    (read read' : Token → (rest : List Token) →
      Except SourceError (Option (α × Remainder rest))) : Prop :=
  ∀ t ts found, Sees ts more → (∀ a rest, found = some (a, rest) → Sees rest more) →
    takenIfAny (read t ts) = some found →
      takenIfAny (read' (t.down n) (carried n more ts)) =
        some (found.map fun a => (a.1, carried n more a.2))

theorem readEventClause_carried (n : Nat) (more : List Token) (finish finish' : Position) :
    ReadsLocally n more (readEventClause finish) (readEventClause finish') := by
  intro t ts found hs hfound h
  rw [takenIfAny_readEventClause] at h ⊢
  rw [tail_carried hs]
  simp only [opensClause_carried hs, Token.down_kind, Token.down_value, opensProbability,
    startsWithMark_carried hs] at h ⊢
  by_cases hcondition : t.opensClause "requires" ts = true
  · simp only [hcondition, if_true] at h ⊢
    obtain ⟨⟨e, rest⟩, he, rfl⟩ := Option.map_eq_some_iff.mp h
    rw [readExpr_carried (hfound _ _ rfl) he]
    rfl
  · by_cases htarget : t.opensClause "target" ts = true
    · simp only [hcondition, htarget, Bool.false_eq_true, if_false, if_true] at h ⊢
      obtain ⟨⟨name, rest⟩, hname, rfl⟩ := Option.map_eq_some_iff.mp h
      rw [takeName_carried hname]
      rfl
    · by_cases heffect : t.opensClause "effect" ts = true
      · simp only [hcondition, htarget, heffect, Bool.false_eq_true, if_false, if_true] at h ⊢
        obtain ⟨⟨e, rest⟩, he, rfl⟩ := Option.map_eq_some_iff.mp h
        rw [readExpr_carried (hfound _ _ rfl) he]
        rfl
      · by_cases hweighted :
            (t.kind == .identifier && (t.value == "P" && startsWithMark '[' ts)) = true
        · simp only [hcondition, htarget, heffect, hweighted, Bool.false_eq_true, if_false,
            if_true] at h ⊢
          obtain ⟨⟨w, rest⟩, hw, rfl⟩ := Option.map_eq_some_iff.mp h
          rw [readWeighted_carried hw]
          rfl
        · simp only [hcondition, htarget, heffect, hweighted, Bool.false_eq_true, if_false] at h ⊢
          cases h
          rfl

theorem readTemporalClause_carried {op : TemporalOp} {clause : TemporalClause}
    (h : taken (readTemporal finish op ts) = some (clause, rest)) :
    taken (readTemporal finish' op (carried n more ts)) = some (clause, carried n more rest) :=
  readTemporal_carried (localBelow n more finish finish' _) (Nat.le_refl _) h

theorem readRuleClause_carried (n : Nat) (more : List Token) (finish finish' : Position) :
    ReadsLocally n more (readRuleClause finish) (readRuleClause finish') := by
  intro t ts found hs hfound h
  rw [takenIfAny_readRuleClause] at h ⊢
  rw [tail_carried hs]
  simp only [opensClause_carried hs, Token.down_kind, Token.down_value, opensProbability,
    temporalStart?, startsWithMark_carried hs] at h ⊢
  by_cases hcondition : t.opensClause "when" ts = true
  · simp only [hcondition, if_true] at h ⊢
    obtain ⟨⟨e, rest⟩, he, rfl⟩ := Option.map_eq_some_iff.mp h
    rw [readExpr_carried (hfound _ _ rfl) he]
    rfl
  · by_cases heffect : t.opensClause "effect" ts = true
    · simp only [hcondition, heffect, Bool.false_eq_true, if_false, if_true] at h ⊢
      obtain ⟨⟨e, rest⟩, he, rfl⟩ := Option.map_eq_some_iff.mp h
      rw [readExpr_carried (hfound _ _ rfl) he]
      rfl
    · simp only [hcondition, heffect, Bool.false_eq_true, if_false] at h ⊢
      by_cases hk : (t.kind == .identifier) = true
      · simp only [hk, if_true] at h ⊢
        cases hop : (if startsWithMark '(' ts = true then TemporalOp.ofName? t.value else none) with
        | some op =>
          simp only [hop] at h ⊢
          obtain ⟨⟨c, rest⟩, hc, rfl⟩ := Option.map_eq_some_iff.mp h
          rw [readTemporalClause_carried hc]
          rfl
        | none =>
          simp only [hop] at h ⊢
          by_cases hopens : (t.value == "P" && startsWithMark '[' ts) = true
          · simp only [hopens, if_true] at h ⊢
            obtain ⟨⟨c, rest⟩, hc, rfl⟩ := Option.map_eq_some_iff.mp h
            rw [readProbability_carried (localBelow n more finish finish' _) (Nat.le_refl _)
              (hfound _ _ rfl) hc]
            rfl
          · simp only [hopens] at h ⊢
            cases h
            rfl
      · simp only [hk] at h ⊢
        cases h
        rfl

/-! ### Definitions -/

def SkippedRun.down (n : Nat) (run : SkippedRun) : SkippedRun :=
  { run with token := run.token.down n }

def Body.down (n : Nat) (body : Body α) : Body α :=
  ⟨body.items, body.skipped.map (SkippedRun.down n)⟩

theorem Body.down_after (n : Nat) (runs : List SkippedRun) (body : Body α) :
    (body.after runs).down n = (body.down n).after (runs.map (SkippedRun.down n)) :=
  congrArg (Body.mk body.items) List.map_append

theorem Body.down_skip (n : Nat) (skipping : Bool) (t : Token) (place : Surroundings)
    (body : Body α) :
    (body.skip skipping t place).down n = (body.down n).skip skipping (t.down n) place := by
  cases skipping <;> rfl

theorem readClauses_carried (finish' : Position) {place : Surroundings} {skipping : Bool}
    {body : Body α}
    {read read' : Token → (rest : List Token) →
      Except SourceError (Option (α × Remainder rest))}
    (hread : ReadsLocally n more read read')
    (h : taken (readClauses finish place read skipping ts) = some (body, rest)) :
    taken (readClauses finish' place read' skipping (carried n more ts)) =
      some (body.down n, carried n more rest) := by
  induction hsize : ts.length using Nat.strongRecOn generalizing ts skipping body with
  | ind size ih =>
    cases ts with
    | nil => simp at h
    | cons t ts =>
      simp only [List.length_cons] at hsize
      rw [taken_readClauses_cons] at h
      rw [carried_cons, taken_readClauses_cons]
      by_cases hclose : t.isMark '}' = true
      · simp only [Token.isMark_down, hclose, if_true] at h ⊢
        cases h
        rfl
      · simp only [Token.isMark_down, hclose, Bool.false_eq_true, if_false] at h ⊢
        obtain ⟨found, hfound, h⟩ := Option.bind_eq_some_iff.mp h
        cases found with
        | some found =>
          obtain ⟨clause, mid⟩ := found
          obtain ⟨⟨body', last⟩, hbody, h⟩ := Option.bind_eq_some_iff.mp h
          cases h
          have hmid := length_le_of_takenIfAny hfound
          have hdrop := dropSeparator_length_le [';'] mid
          have hsees : Sees mid more := (Sees.of_taken hbody).of_length hdrop
          have hclause := hread t ts _ (hsees.of_length hmid)
            (fun _ _ heq => by cases heq; exact hsees) hfound
          have hrest := ih _ (by omega) hbody rfl
          rw [hclause]
          simp only [Option.map_some, Option.bind_some]
          rw [dropSeparator_carried hsees, hrest]
          rfl
        | none =>
          dsimp only at h
          by_cases hs : t.isMark ';' = true
          · simp only [hs, if_true] at h
            have hclause := hread t ts none (.of_taken h) nofun hfound
            rw [hclause]
            simp only [Option.map_none, Option.bind_some, hs, if_true]
            exact ih _ (by omega) h rfl
          · simp only [hs, Bool.false_eq_true, if_false] at h
            obtain ⟨⟨body', last⟩, hbody, h⟩ := Option.bind_eq_some_iff.mp h
            cases h
            have hclause := hread t ts none (.of_taken hbody) nofun hfound
            rw [hclause]
            simp only [Option.map_none, Option.bind_some, hs, Bool.false_eq_true, if_false,
              ih _ (by omega) hbody rfl, Body.down_skip]

theorem readEvent_carried {event : EventDecl} {runs : List SkippedRun}
    (h : takenWithRuns (readEvent finish ts) = some (event, runs, rest)) :
    takenWithRuns (readEvent finish' (carried n more ts)) =
      some (event, runs.map (SkippedRun.down n), carried n more rest) := by
  rw [takenWithRuns_readEvent] at h ⊢
  obtain ⟨⟨name, start⟩, hname, h⟩ := Option.bind_eq_some_iff.mp h
  obtain ⟨⟨opening, mid⟩, hopen, h⟩ := Option.bind_eq_some_iff.mp h
  obtain ⟨⟨body, last⟩, hbody, h⟩ := Option.bind_eq_some_iff.mp h
  cases h
  have hclauses :=
    readClauses_carried finish' (readEventClause_carried n more finish finish') hbody
  simp only [takeName_carried hname, takeMark_carried hopen, Option.bind_some, Token.down_value,
    hclauses]
  rfl

theorem readRule_carried {rule : RuleDecl} {runs : List SkippedRun}
    (h : takenWithRuns (readRule finish ts) = some (rule, runs, rest)) :
    takenWithRuns (readRule finish' (carried n more ts)) =
      some (rule, runs.map (SkippedRun.down n), carried n more rest) := by
  rw [takenWithRuns_readRule] at h ⊢
  obtain ⟨⟨name, start⟩, hname, h⟩ := Option.bind_eq_some_iff.mp h
  obtain ⟨⟨opening, mid⟩, hopen, h⟩ := Option.bind_eq_some_iff.mp h
  obtain ⟨⟨body, last⟩, hbody, h⟩ := Option.bind_eq_some_iff.mp h
  cases h
  have hclauses :=
    readClauses_carried finish' (readRuleClause_carried n more finish finish') hbody
  simp only [takeName_carried hname, takeMark_carried hopen, Option.bind_some, Token.down_value,
    hclauses]
  rfl

theorem readEntityBody_carried {name : String} {skipping : Bool} {body : Body EntityClause}
    (h : taken (readEntityBody finish name skipping ts) = some (body, rest)) :
    taken (readEntityBody finish' name skipping (carried n more ts)) =
      some (body.down n, carried n more rest) := by
  induction hsize : ts.length using Nat.strongRecOn generalizing ts skipping body with
  | ind size ih =>
    cases ts with
    | nil => simp at h
    | cons t ts =>
      simp only [List.length_cons] at hsize
      rw [taken_readEntityBody_cons] at h
      rw [carried_cons, taken_readEntityBody_cons]
      by_cases hclose : t.isMark '}' = true
      · simp only [Token.isMark_down, hclose, if_true] at h ⊢
        cases h
        rfl
      · simp only [Token.isMark_down, Token.isWord_down, hclose, Bool.false_eq_true,
          if_false] at h ⊢
        by_cases hstate : t.isWord "State" = true
        · simp only [hstate, if_true] at h ⊢
          obtain ⟨⟨opening, start⟩, hopen, h⟩ := Option.bind_eq_some_iff.mp h
          obtain ⟨⟨properties, mid⟩, hproperties, h⟩ := Option.bind_eq_some_iff.mp h
          obtain ⟨⟨body', last⟩, hbody, h⟩ := Option.bind_eq_some_iff.mp h
          cases h
          have hstart := length_lt_of_taken hopen
          have hmid : mid.length < start.length := length_lt_of_taken hproperties
          have hrest := ih mid.length (by omega) hbody rfl
          simp only [takeMark_carried hopen, readProperties_carried hproperties, hrest,
            Option.bind_some]
          rfl
        · simp only [hstate, Bool.false_eq_true, if_false] at h ⊢
          by_cases hevent : t.isWord "Event" = true
          · simp only [hevent, if_true] at h ⊢
            obtain ⟨⟨event, runs, mid⟩, hread, h⟩ := Option.bind_eq_some_iff.mp h
            obtain ⟨⟨body', last⟩, hbody, h⟩ := Option.bind_eq_some_iff.mp h
            cases h
            have hmid := length_lt_of_takenWithRuns hread
            have hrest := ih mid.length (by omega) hbody rfl
            simp only [readEvent_carried hread, hrest, Option.bind_some, Body.down_after]
            rfl
          · simp only [hevent, Bool.false_eq_true, if_false] at h ⊢
            by_cases hs : t.isMark ';' = true
            · simp only [hs, if_true] at h ⊢
              exact ih _ (by omega) h rfl
            · simp only [hs, Bool.false_eq_true, if_false] at h ⊢
              obtain ⟨⟨body', last⟩, hbody, h⟩ := Option.bind_eq_some_iff.mp h
              cases h
              simp only [ih _ (by omega) hbody rfl, Option.bind_some, Body.down_skip]

def EntityDecl.down (n : Nat) (entity : EntityDecl) : EntityDecl :=
  { entity with line := entity.line + n }

theorem readEntity_carried {entity : EntityDecl} {runs : List SkippedRun}
    (h : takenWithRuns (readEntity finish ts) = some (entity, runs, rest)) :
    takenWithRuns (readEntity finish' (carried n more ts)) =
      some (entity.down n, runs.map (SkippedRun.down n), carried n more rest) := by
  rw [takenWithRuns_readEntity] at h ⊢
  obtain ⟨⟨keyword, first⟩, hkeyword, h⟩ := Option.bind_eq_some_iff.mp h
  obtain ⟨⟨name, start⟩, hname, h⟩ := Option.bind_eq_some_iff.mp h
  obtain ⟨⟨opening, mid⟩, hopen, h⟩ := Option.bind_eq_some_iff.mp h
  obtain ⟨⟨body, last⟩, hbody, h⟩ := Option.bind_eq_some_iff.mp h
  cases h
  have hkeyword' : taken (takeToken finish' (.keyword "Entity") (·.isWord "Entity")
      (carried n more ts)) = some (keyword.down n, carried n more first) :=
    takeToken_carried rfl hkeyword
  simp only [hkeyword', takeName_carried hname, takeMark_carried hopen, Option.bind_some,
    Token.down_value, readEntityBody_carried hbody]
  rfl

def Declaration.down (n : Nat) : Declaration → Declaration
  | .entity e => .entity (e.down n)
  | .rule r => .rule r

def Body.declarationsDown (n : Nat) (body : Body Declaration) : Body Declaration :=
  ⟨body.items.map (Declaration.down n), body.skipped.map (SkippedRun.down n)⟩

theorem Body.append_definition_down (n : Nat) (item : Declaration) (runs : List SkippedRun)
    (body behind : Body Declaration) :
    (((body.cons item).after runs).declarationsDown n).append behind =
      (((body.declarationsDown n).append behind).cons (item.down n)).after
        (runs.map (SkippedRun.down n)) := by
  simp only [append, after, cons, declarationsDown, List.map_append, List.append_assoc,
    List.cons_append, List.map_cons]

/-- What is behind the definitions of a list is read on its own; only whether a run is passed over
there already depends on them. -/
theorem declarations?_carried {skipping : Bool} {body : Body Declaration} (n : Nat)
    (h : declarations? finish skipping ts = some body) :
    ∃ skipping' : Bool, ∀ finish' more, declarations? finish' skipping (carried n more ts) =
      (declarations? finish' skipping' more).map (body.declarationsDown n).append := by
  induction hsize : ts.length using Nat.strongRecOn generalizing ts skipping body with
  | ind size ih =>
    cases ts with
    | nil =>
      rw [declarations?_nil] at h
      cases h
      refine ⟨skipping, fun finish' more => ?_⟩
      change _ = (declarations? finish' skipping more).map fun body => body
      rw [carried_nil, Option.map_id']
    | cons t ts =>
      rw [declarations?_cons] at h
      by_cases hentity : t.isWord "Entity" = true
      · simp only [hentity, if_true] at h
        obtain ⟨⟨entity, runs, mid⟩, hread, h⟩ := Option.bind_eq_some_iff.mp h
        obtain ⟨body', hbody, rfl⟩ := Option.map_eq_some_iff.mp h
        have hmid := length_lt_of_takenWithRuns hread
        obtain ⟨skipping', hrest⟩ := ih mid.length (hsize ▸ hmid) hbody rfl
        refine ⟨skipping', fun finish' more => ?_⟩
        rw [carried_cons, declarations?_cons]
        simp only [Token.isWord_down, hentity, if_true]
        rw [← carried_cons, readEntity_carried hread]
        simp only [Option.bind_some, hrest, Option.map_map]
        exact congrArg (Option.map · _) (funext fun behind =>
          (body'.append_definition_down n (.entity entity) runs behind).symm)
      · simp only [hentity, Bool.false_eq_true, if_false] at h
        by_cases hrule : t.isWord "Rule" = true
        · simp only [hrule, if_true] at h
          obtain ⟨⟨rule, runs, mid⟩, hread, h⟩ := Option.bind_eq_some_iff.mp h
          obtain ⟨body', hbody, rfl⟩ := Option.map_eq_some_iff.mp h
          have hmid := length_lt_of_takenWithRuns hread
          obtain ⟨skipping', hrest⟩ :=
            ih mid.length (hsize ▸ Nat.lt_succ_of_lt hmid) hbody rfl
          refine ⟨skipping', fun finish' more => ?_⟩
          rw [carried_cons, declarations?_cons]
          simp only [Token.isWord_down, hentity, hrule, Bool.false_eq_true, if_false, if_true,
            readRule_carried hread, Option.bind_some, hrest, Option.map_map]
          exact congrArg (Option.map · _) (funext fun behind =>
            (body'.append_definition_down n (.rule rule) runs behind).symm)
        · simp only [hrule, Bool.false_eq_true, if_false] at h
          obtain ⟨body', hbody, rfl⟩ := Option.map_eq_some_iff.mp h
          obtain ⟨skipping', hrest⟩ := ih ts.length (hsize ▸ Nat.lt_succ_self _) hbody rfl
          refine ⟨skipping', fun finish' more => ?_⟩
          rw [carried_cons, declarations?_cons]
          simp only [Token.isWord_down, hentity, hrule, Bool.false_eq_true, if_false, hrest,
            Option.map_map]
          cases skipping <;> rfl

end StepWorld
