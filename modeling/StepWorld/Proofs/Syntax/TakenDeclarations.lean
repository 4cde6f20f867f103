import StepWorld.Proofs.Syntax.Taken
import StepWorld.Syntax.Declaration

/-! What the readers of declarations take and leave, one equation on plain lists for each. -/

namespace StepWorld

variable {α β : Type} {tokens : List Token}

theorem taken_andThen_bind {γ : Type} {fits : List Token → Prop} {rest : Rest tokens}
    {read : (part : List Token) → Except SourceError (α × Rest part)}
    {next : α × Rest tokens → Except SourceError (γ × { rest : List Token // fits rest })}
    {view : α × List Token → Option (γ × List Token)}
    (h : ∀ a rest hr, taken (next (a, ⟨rest, hr⟩)) = view (a, rest)) :
    taken (rest.andThen read >>= next) = (taken (read rest.1)).bind view :=
  (taken_bind h).trans (by rw [taken_andThen])

theorem taken_takeOperator {finish : Position} {op : String} {t : Token} {rest : List Token} :
    taken (takeOperator finish op tokens) = some (t, rest) ↔
      tokens = t :: rest ∧ t.isOperator op = true :=
  taken_takeToken

/-! ### Types and properties -/

def integerAtFront (change : Int → Int) : List Token → Option (Int × List Token)
  | [] => none
  | t :: rest =>
    if t.kind == .number then
      match numeralNumber t.value with
      | .ok (.whole n) => some (change n, rest)
      | _ => none
    else none

theorem taken_takeInteger (finish : Position) :
    taken (takeInteger finish tokens) =
      match tokens with
      | [] => none
      | t :: rest =>
        if t.isOperator "-" then integerAtFront (- ·) rest else integerAtFront id (t :: rest) := by
  cases tokens with
  | nil => rfl
  | cons t rest =>
    by_cases hminus : t.isOperator "-" = true
    · simp only [takeInteger, takeNumber, hminus, if_true]
      cases rest with
      | nil => rfl
      | cons u more =>
        by_cases hu : (u.kind == .number) = true
        · simp only [takeToken, integerAtFront, hu, if_true, bind, Except.bind]
          rcases numeralNumber u.value with _ | (n | x) <;> rfl
        · simp only [takeToken, integerAtFront, hu]
          rfl
    · simp only [takeInteger, takeNumber, hminus, Bool.false_eq_true, if_false]
      by_cases ht : (t.kind == .number) = true
      · simp only [takeToken, integerAtFront, ht, if_true, bind, Except.bind]
        rcases numeralNumber t.value with _ | (n | x) <;> rfl
      · simp only [takeToken, integerAtFront, ht]
        rfl

@[simp] theorem taken_readMembers_nil (finish : Position) (first : Bool) :
    taken (readMembers finish first []) = none := by
  rw [readMembers]
  rfl

theorem taken_readMembers_cons (finish : Position) (first : Bool) (t : Token)
    (rest : List Token) :
    taken (readMembers finish first (t :: rest)) =
      if t.isMark ')' then some ([], rest)
      else
        (if first then some (t :: rest)
          else (taken (takeMark finish ',' (t :: rest))).map (·.2)).bind fun start =>
        (taken (takeMember finish start)).bind fun (member, more) =>
        (taken (readMembers finish false more)).bind fun (members, final) =>
          some (member.value :: members, final) := by
  rw [readMembers]
  by_cases hc : t.isMark ')' = true
  · simp only [hc, if_true]
    rfl
  · simp only [hc, Bool.false_eq_true, if_false]
    cases first with
    | true =>
      simp only [if_true, Option.bind_some]
      refine taken_bind fun _ _ _ => ?_
      exact taken_bind fun _ _ _ => rfl
    | false =>
      simp only [Bool.false_eq_true, if_false, Option.bind_map]
      refine taken_bind fun _ _ _ => ?_
      refine taken_andThen_bind fun _ _ _ => ?_
      exact taken_bind fun _ _ _ => rfl

theorem taken_readType (finish : Position) :
    taken (readType finish tokens) =
      (taken (takeName finish .typeName tokens)).bind fun (name, rest) =>
        if name.value == "Enum" then
          (taken (takeMark finish '(' rest)).bind fun (_, rest) =>
          (taken (readMembers finish true rest)).bind fun (members, rest) =>
            some (.enum members, rest)
        else if name.value == "Int" && startsWithMark '[' rest then
          (taken (takeMark finish '[' rest)).bind fun (_, rest) =>
          (taken (takeInteger finish rest)).bind fun (minimum, rest) =>
          (taken (takeMark finish ',' rest)).bind fun (_, rest) =>
          (taken (takeInteger finish rest)).bind fun (maximum, rest) =>
            if maximum < minimum then none
            else
              (taken (takeMark finish ']' rest)).bind fun (_, rest) =>
                some (.intRange minimum maximum, rest)
        else if name.value == "List" then
          (taken (takeOperator finish "<" rest)).bind fun (_, rest) =>
          (taken (takeName finish (.name "list element type") rest)).bind fun (element, rest) =>
          (taken (takeOperator finish ">" rest)).bind fun (_, rest) =>
            some (.list element.value, rest)
        else (scalarType? name.value).map fun type => (.scalar type, rest) := by
  unfold readType
  refine taken_bind fun name rest _ => ?_
  by_cases he : (name.value == "Enum") = true
  · simp only [he, if_true]
    refine taken_andThen_bind fun _ _ _ => ?_
    exact taken_andThen_bind fun _ _ _ => rfl
  · by_cases hi : (name.value == "Int" && startsWithMark '[' rest) = true
    · simp only [he, hi, Bool.false_eq_true, if_false, if_true]
      refine taken_andThen_bind fun _ _ _ => ?_
      refine taken_andThen_bind fun minimum _ _ => ?_
      refine taken_andThen_bind fun _ _ _ => ?_
      refine taken_andThen_bind fun maximum _ _ => ?_
      by_cases hm : maximum < minimum
      · simp only [hm, if_true]
        rfl
      · simp only [hm, if_false]
        exact taken_andThen_bind fun _ _ _ => rfl
    · by_cases hl : (name.value == "List") = true
      · simp only [he, hi, hl, Bool.false_eq_true, if_false, if_true]
        refine taken_andThen_bind fun _ _ _ => ?_
        refine taken_andThen_bind fun _ _ _ => ?_
        exact taken_andThen_bind fun _ _ _ => rfl
      · simp only [he, hi, hl, Bool.false_eq_true, if_false]
        cases scalarType? name.value <;> rfl

@[simp] theorem taken_readProperties_nil (finish : Position) :
    taken (readProperties finish []) = none := by
  rw [readProperties]
  rfl

theorem taken_readProperties_cons (finish : Position) (t : Token) (rest : List Token) :
    taken (readProperties finish (t :: rest)) =
      if t.isMark '}' then some ([], rest)
      else
        (taken (takeName finish (.name "property name") (t :: rest))).bind fun (name, more) =>
        (taken (takeMark finish ':' more)).bind fun (_, more) =>
        (taken (readType finish more)).bind fun (type, more) =>
        (taken (readProperties finish (dropSeparator [';', ','] more).1)).bind
          fun (properties, final) => some (⟨name.value, type⟩ :: properties, final) := by
  rw [readProperties]
  by_cases hc : t.isMark '}' = true
  · simp only [hc, if_true]
    rfl
  · simp only [hc, Bool.false_eq_true, if_false]
    refine taken_bind fun _ _ _ => ?_
    refine taken_andThen_bind fun _ _ _ => ?_
    refine taken_andThen_bind fun _ _ _ => ?_
    exact taken_bind fun _ _ _ => rfl

/-! ### Clauses -/

theorem taken_readWeighted (finish : Position) :
    taken (readWeighted finish tokens) =
      (taken (takeMark finish '[' tokens)).bind fun (_, rest) =>
      (taken (readExpr finish 0 rest)).bind fun (effect, rest) =>
      (taken (takeMark finish ']' rest)).bind fun (_, rest) =>
      (taken (takeOperator finish "=" rest)).bind fun (_, rest) =>
      (taken (takeFloat finish rest)).bind fun (weight, rest) =>
        some (⟨effect, weight⟩, rest) := by
  unfold readWeighted
  refine taken_bind fun _ _ _ => ?_
  refine taken_andThen_bind fun _ _ _ => ?_
  refine taken_andThen_bind fun _ _ _ => ?_
  refine taken_andThen_bind fun _ _ _ => ?_
  exact taken_andThen_bind fun _ _ _ => rfl

def takenIfAny {fits : List Token → Prop}
    (result : Except SourceError (Option (α × { rest : List Token // fits rest }))) :
    Option (Option (α × List Token)) :=
  match result with
  | .ok found => some (found.map fun a => (a.1, a.2.1))
  | .error _ => none

theorem length_le_of_takenIfAny {a : α} {rest : List Token}
    {result : Except SourceError (Option (α × Remainder tokens))}
    (h : takenIfAny result = some (some (a, rest))) : rest.length ≤ tokens.length := by
  unfold takenIfAny at h
  split at h
  · next found =>
    cases found with
    | none => cases h
    | some found =>
      cases h
      exact found.2.2
  · cases h

theorem takenIfAny_bind {fits fits' : List Token → Prop}
    {first : Except SourceError (α × { rest : List Token // fits rest })}
    {next : α × { rest : List Token // fits rest } →
      Except SourceError (Option (β × { rest : List Token // fits' rest }))}
    (make : α → β)
    (h : ∀ a rest hr, takenIfAny (next (a, ⟨rest, hr⟩)) = some (some (make a, rest))) :
    takenIfAny (first >>= next) = (taken first).map fun a => some (make a.1, a.2) :=
  (view_bind (fun _ => rfl) h).trans Option.map_eq_bind.symm

theorem takenIfAny_readEventClause (finish : Position) (t : Token) (rest : List Token) :
    takenIfAny (readEventClause finish t rest) =
      if t.opensClause "requires" rest then
        (taken (readExpr finish 0 rest.tail)).map fun e => some (.condition e.1, e.2)
      else if t.opensClause "target" rest then
        (taken (takeName finish (.name "target entity name") rest.tail)).map fun name =>
          some (.target name.1.value, name.2)
      else if t.opensClause "effect" rest then
        (taken (readExpr finish 0 rest.tail)).map fun e => some (.effect e.1, e.2)
      else if t.kind == .identifier && opensProbability t.value rest then
        (taken (readWeighted finish rest)).map fun w => some (.weighted w.1, w.2)
      else some none := by
  unfold readEventClause
  by_cases hc : t.opensClause "requires" rest = true
  · simp only [hc, if_true]
    exact takenIfAny_bind EventClause.condition fun _ _ _ => rfl
  · by_cases ht : t.opensClause "target" rest = true
    · simp only [hc, ht, Bool.false_eq_true, if_false, if_true]
      exact takenIfAny_bind (fun name : Token => EventClause.target name.value) fun _ _ _ => rfl
    · by_cases he : t.opensClause "effect" rest = true
      · simp only [hc, ht, he, Bool.false_eq_true, if_false, if_true]
        exact takenIfAny_bind EventClause.effect fun _ _ _ => rfl
      · by_cases hp : (t.kind == .identifier && opensProbability t.value rest) = true
        · simp only [hc, ht, he, hp, Bool.false_eq_true, if_false, if_true]
          exact takenIfAny_bind EventClause.weighted fun _ _ _ => rfl
        · simp only [hc, ht, he, hp]
          rfl

theorem takenIfAny_readRuleClause (finish : Position) (t : Token) (rest : List Token) :
    takenIfAny (readRuleClause finish t rest) =
      if t.opensClause "when" rest then
        (taken (readExpr finish 0 rest.tail)).map fun e => some (.condition e.1, e.2)
      else if t.opensClause "effect" rest then
        (taken (readExpr finish 0 rest.tail)).map fun e => some (.effect e.1, e.2)
      else if t.kind == .identifier then
        match temporalStart? t.value rest with
        | some op => (taken (readTemporal finish op rest)).map fun c => some (.temporal c.1, c.2)
        | none =>
          if opensProbability t.value rest then
            (taken (readProbability finish rest)).map fun c => some (.probability c.1, c.2)
          else some none
      else some none := by
  unfold readRuleClause
  by_cases hc : t.opensClause "when" rest = true
  · simp only [hc, if_true]
    exact takenIfAny_bind RuleClause.condition fun _ _ _ => rfl
  · by_cases he : t.opensClause "effect" rest = true
    · simp only [hc, he, Bool.false_eq_true, if_false, if_true]
      exact takenIfAny_bind RuleClause.effect fun _ _ _ => rfl
    · by_cases hk : (t.kind == .identifier) = true
      · simp only [hc, he, hk, Bool.false_eq_true, if_false, if_true]
        cases temporalStart? t.value rest with
        | some op => exact takenIfAny_bind RuleClause.temporal fun _ _ _ => rfl
        | none =>
          by_cases hp : opensProbability t.value rest = true
          · simp only [hp, if_true]
            exact takenIfAny_bind RuleClause.probability fun _ _ _ => rfl
          · simp only [hp]
            rfl
      · simp only [hc, he, hk]
        rfl

@[simp] theorem taken_readClauses_nil {finish : Position} {place : Surroundings}
    {read : Token → (rest : List Token) → Except SourceError (Option (α × Remainder rest))}
    {skipping : Bool} : taken (readClauses finish place read skipping []) = none := by
  rw [readClauses]
  rfl

theorem taken_readClauses_cons {finish : Position} {place : Surroundings}
    {read : Token → (rest : List Token) → Except SourceError (Option (α × Remainder rest))}
    {skipping : Bool} (t : Token) (rest : List Token) :
    taken (readClauses finish place read skipping (t :: rest)) =
      if t.isMark '}' then some (.empty, rest)
      else
        (takenIfAny (read t rest)).bind fun
          | some (clause, more) =>
            (taken (readClauses finish place read false (dropSeparator [';'] more).1)).bind
              fun (body, final) => some (body.cons clause, final)
          | none =>
            if t.isMark ';' then taken (readClauses finish place read false rest)
            else
              (taken (readClauses finish place read true rest)).bind fun (body, final) =>
                some (body.skip skipping t place, final) := by
  rw [readClauses]
  by_cases hc : t.isMark '}' = true
  · simp only [hc, if_true]
    rfl
  · simp only [hc, Bool.false_eq_true, if_false]
    rcases read t rest with _ | (_ | ⟨clause, more⟩)
    · rfl
    · by_cases hs : t.isMark ';' = true
      · simp only [bind, Except.bind, takenIfAny, Option.map_none, Option.bind_some, hs, if_true]
        cases readClauses finish place read false rest <;> rfl
      · simp only [bind, Except.bind, takenIfAny, Option.map_none, Option.bind_some, hs,
          Bool.false_eq_true, if_false]
        cases readClauses finish place read true rest <;> rfl
    · simp only [takenIfAny, Option.map_some, Option.bind_some]
      exact taken_bind fun _ _ _ => rfl

/-! ### Definitions -/

def takenWithRuns {fits : List Token → Prop}
    (result : Except SourceError (α × List SkippedRun × { rest : List Token // fits rest })) :
    Option (α × List SkippedRun × List Token) :=
  match result with
  | .ok (a, runs, rest) => some (a, runs, rest.1)
  | .error _ => none

theorem takenWithRuns_bind {fits fits' : List Token → Prop}
    {first : Except SourceError (α × { rest : List Token // fits rest })}
    {next : α × { rest : List Token // fits rest } →
      Except SourceError (β × List SkippedRun × { rest : List Token // fits' rest })}
    {view : α × List Token → Option (β × List SkippedRun × List Token)}
    (h : ∀ a rest hr, takenWithRuns (next (a, ⟨rest, hr⟩)) = view (a, rest)) :
    takenWithRuns (first >>= next) = (taken first).bind view :=
  view_bind (fun _ => rfl) h

theorem takenWithRuns_andThen_bind {fits : List Token → Prop} {rest : Rest tokens}
    {read : (part : List Token) → Except SourceError (α × Rest part)}
    {next : α × Rest tokens →
      Except SourceError (β × List SkippedRun × { rest : List Token // fits rest })}
    {view : α × List Token → Option (β × List SkippedRun × List Token)}
    (h : ∀ a rest hr, takenWithRuns (next (a, ⟨rest, hr⟩)) = view (a, rest)) :
    takenWithRuns (rest.andThen read >>= next) = (taken (read rest.1)).bind view :=
  (takenWithRuns_bind h).trans (by rw [taken_andThen])

theorem takenWithRuns_readEvent (finish : Position) :
    takenWithRuns (readEvent finish tokens) =
      (taken (takeName finish (.name "event name") tokens)).bind fun (name, rest) =>
      (taken (takeMark finish '{' rest)).bind fun (_, rest) =>
      (taken (readClauses finish (.event name.value) (readEventClause finish) false rest)).bind
        fun (body, rest) => some (.ofClauses name.value body.items, body.skipped, rest) := by
  unfold readEvent
  refine takenWithRuns_bind fun _ _ _ => ?_
  refine takenWithRuns_andThen_bind fun _ _ _ => ?_
  exact takenWithRuns_andThen_bind fun _ _ _ => rfl

theorem takenWithRuns_readRule (finish : Position) :
    takenWithRuns (readRule finish tokens) =
      (taken (takeName finish (.name "rule name") tokens)).bind fun (name, rest) =>
      (taken (takeMark finish '{' rest)).bind fun (_, rest) =>
      (taken (readClauses finish (.rule name.value) (readRuleClause finish) false rest)).bind
        fun (body, rest) => some (.ofClauses name.value body.items, body.skipped, rest) := by
  unfold readRule
  refine takenWithRuns_bind fun _ _ _ => ?_
  refine takenWithRuns_andThen_bind fun _ _ _ => ?_
  exact takenWithRuns_andThen_bind fun _ _ _ => rfl

@[simp] theorem taken_readEntityBody_nil {finish : Position} {name : String} {skipping : Bool} :
    taken (readEntityBody finish name skipping []) = none := by
  rw [readEntityBody]
  rfl

theorem taken_readEntityBody_cons {finish : Position} {name : String} {skipping : Bool}
    (t : Token) (rest : List Token) :
    taken (readEntityBody finish name skipping (t :: rest)) =
      if t.isMark '}' then some (.empty, rest)
      else if t.isWord "State" then
        (taken (takeMark finish '{' rest)).bind fun (_, more) =>
        (taken (readProperties finish more)).bind fun (properties, more) =>
        (taken (readEntityBody finish name false more)).bind fun (body, final) =>
          some (body.cons (.state properties), final)
      else if t.isWord "Event" then
        (takenWithRuns (readEvent finish rest)).bind fun (event, skipped, more) =>
        (taken (readEntityBody finish name false more)).bind fun (body, final) =>
          some ((body.cons (.event event)).after skipped, final)
      else if t.isMark ';' then taken (readEntityBody finish name false rest)
      else
        (taken (readEntityBody finish name true rest)).bind fun (body, final) =>
          some (body.skip skipping t (.entity name), final) := by
  rw [readEntityBody]
  by_cases hc : t.isMark '}' = true
  · simp only [hc, if_true]
    rfl
  · by_cases hstate : t.isWord "State" = true
    · simp only [hc, hstate, Bool.false_eq_true, if_false, if_true]
      refine taken_bind fun _ _ _ => ?_
      refine taken_andThen_bind fun _ _ _ => ?_
      exact taken_bind fun _ _ _ => rfl
    · by_cases hevent : t.isWord "Event" = true
      · simp only [hc, hstate, hevent, Bool.false_eq_true, if_false, if_true]
        rcases readEvent finish rest with _ | ⟨event, skipped, more⟩
        · rfl
        · exact taken_bind fun _ _ _ => rfl
      · by_cases hs : t.isMark ';' = true
        · simp only [hc, hstate, hevent, hs, Bool.false_eq_true, if_false, if_true]
          exact taken_bind_same fun _ _ _ => rfl
        · simp only [hc, hstate, hevent, hs, Bool.false_eq_true, if_false]
          exact taken_bind fun _ _ _ => rfl

theorem takenWithRuns_readEntity (finish : Position) :
    takenWithRuns (readEntity finish tokens) =
      (taken (takeToken finish (.keyword "Entity") (·.isWord "Entity") tokens)).bind
        fun (keyword, rest) =>
      (taken (takeName finish (.name "entity name") rest)).bind fun (name, rest) =>
      (taken (takeMark finish '{' rest)).bind fun (_, rest) =>
      (taken (readEntityBody finish name.value false rest)).bind fun (body, rest) =>
        some (.ofClauses name.value keyword.position.line body.items, body.skipped, rest) := by
  unfold readEntity
  refine takenWithRuns_bind fun _ _ _ => ?_
  refine takenWithRuns_andThen_bind fun _ _ _ => ?_
  refine takenWithRuns_andThen_bind fun _ _ _ => ?_
  exact takenWithRuns_andThen_bind fun _ _ _ => rfl

def declarations? (finish : Position) (skipping : Bool) (tokens : List Token) :
    Option (Body Declaration) :=
  (readDeclarations finish skipping tokens).toOption

@[simp] theorem declarations?_nil (finish : Position) (skipping : Bool) :
    declarations? finish skipping [] = some .empty := by
  rw [declarations?, readDeclarations]
  rfl

theorem declarations?_cons (finish : Position) (skipping : Bool) (t : Token)
    (rest : List Token) :
    declarations? finish skipping (t :: rest) =
      if t.isWord "Entity" then
        (takenWithRuns (readEntity finish (t :: rest))).bind fun (entity, skipped, more) =>
        (declarations? finish false more).map fun body =>
          (body.cons (.entity entity)).after skipped
      else if t.isWord "Rule" then
        (takenWithRuns (readRule finish rest)).bind fun (rule, skipped, more) =>
        (declarations? finish false more).map fun body => (body.cons (.rule rule)).after skipped
      else
        (declarations? finish true rest).map (·.skip skipping t .specification) := by
  unfold declarations?
  rw [readDeclarations]
  by_cases hentity : t.isWord "Entity" = true
  · simp only [hentity, if_true]
    rcases readEntity finish (t :: rest) with _ | ⟨entity, skipped, more⟩
    · rfl
    · dsimp only [takenWithRuns, Option.bind_some, bind, Except.bind]
      cases readDeclarations finish false more.1 <;> rfl
  · by_cases hrule : t.isWord "Rule" = true
    · simp only [hentity, hrule, Bool.false_eq_true, if_false, if_true]
      rcases readRule finish rest with _ | ⟨rule, skipped, more⟩
      · rfl
      · dsimp only [takenWithRuns, Option.bind_some, bind, Except.bind]
        cases readDeclarations finish false more.1 <;> rfl
    · simp only [hentity, hrule, Bool.false_eq_true, if_false]
      cases readDeclarations finish true rest <;> rfl

end StepWorld
