import StepWorld.Syntax.Expression

/-! Reading declarations. A body is a row of clauses up to its closing brace. A token that
fits nowhere in a body is passed over; the first of each run of them is reported. -/

namespace StepWorld

/-- What a body holds, in order, and the runs passed over in it. -/
structure Body (α : Type) where
  items : List α
  skipped : List SkippedRun

namespace Body

variable {α : Type}

def empty : Body α := ⟨[], []⟩

def cons (item : α) (body : Body α) : Body α := ⟨item :: body.items, body.skipped⟩

def after (skipped : List SkippedRun) (body : Body α) : Body α :=
  ⟨body.items, skipped ++ body.skipped⟩

/-- Passes over a token. Within a run only the first token is reported. -/
def skip (skipping : Bool) (token : Token) (surroundings : Surroundings) (body : Body α) :
    Body α :=
  if skipping then body else body.after [⟨token, surroundings⟩]

end Body

def dropSeparator (separators : List Char) (tokens : List Token) : Remainder tokens :=
  match tokens with
  | t :: rest =>
    if separators.any t.isMark then (Rest.tail t rest).weaken else .all (t :: rest)
  | [] => .all []

def Rest.dropSeparator {tokens : List Token} (rest : Rest tokens) (separators : List Char) :
    Rest tokens :=
  match rest with
  | ⟨part, h⟩ => (StepWorld.dropSeparator separators part).within h

def takeInteger (finish : Position) (tokens : List Token) :
    Except SourceError (Int × Rest tokens) := do
  let (n, token, rest) ← takeNumber finish tokens
  match n with
  | .whole n => return (n, rest)
  | .real x => .error (.structural ⟨.integer, .fraction x, token.position⟩)

/-- Takes a member of an enumeration: a string or an identifier. -/
def takeMember (finish : Position) (tokens : List Token) :
    Except SourceError (Token × Rest tokens) :=
  takeToken finish (.name "enum value") (fun t => t.kind == .string || t.kind == .identifier)
    tokens

def readMembers (finish : Position) (first : Bool) (tokens : List Token) :
    Except SourceError (List String × Rest tokens) :=
  match tokens with
  | t :: rest =>
    if t.isMark ')' then .ok ([], .tail t rest)
    else do
      let (member, ⟨more, h⟩) ←
        if first then takeMember finish (t :: rest)
        else do
          let (_, next) ← takeMark finish ',' (t :: rest)
          next.andThen (takeMember finish)
      let (members, final) ← readMembers finish false more
      return (member.value :: members, final.within h)
  | [] => refuse finish (if first then .name "enum value" else .mark ',') []
termination_by tokens.length
decreasing_by all_goals simp only [List.length_cons] at *; omega

def scalarType? (name : String) : Option ScalarType :=
  match name.map Char.toLower with
  | "int" | "integer" => some .int
  | "float" | "number" => some .float
  | "bool" | "boolean" => some .bool
  | "string" | "str" => some .string
  | _ => none

def readType (finish : Position) (tokens : List Token) :
    Except SourceError (PropertyType × Rest tokens) := do
  let (name, rest) ← takeName finish .typeName tokens
  if name.value == "Enum" then
    let (_, rest) ← rest.andThen (takeMark finish '(')
    let (members, rest) ← rest.andThen (readMembers finish true)
    return (.enum members, rest)
  else if name.value == "Int" && startsWithMark '[' rest.1 then
    let (_, rest) ← rest.andThen (takeMark finish '[')
    let (minimum, rest) ← rest.andThen (takeInteger finish)
    let (_, rest) ← rest.andThen (takeMark finish ',')
    let (maximum, rest) ← rest.andThen (takeInteger finish)
    if maximum < minimum then refuse finish (.maximumFrom minimum) rest.1
    else
      let (_, rest) ← rest.andThen (takeMark finish ']')
      return (.intRange minimum maximum, rest)
  else if name.value == "List" then
    let (_, rest) ← rest.andThen (takeOperator finish "<")
    let (element, rest) ← rest.andThen (takeName finish (.name "list element type"))
    let (_, rest) ← rest.andThen (takeOperator finish ">")
    return (.list element.value, rest)
  else
    match scalarType? name.value with
    | some type => return (.scalar type, rest)
    | none => .error (.structural ⟨.typeName, .token name, name.position⟩)

def readProperties (finish : Position) (tokens : List Token) :
    Except SourceError (List PropertyDecl × Rest tokens) :=
  match tokens with
  | [] => refuse finish (.mark '}') []
  | t :: rest =>
    if t.isMark '}' then .ok ([], .tail t rest)
    else do
      let (name, more) ← takeName finish (.name "property name") (t :: rest)
      let (_, more) ← more.andThen (takeMark finish ':')
      let (type, more) ← more.andThen (readType finish)
      let ⟨more, h⟩ := more.dropSeparator [';', ',']
      let (properties, final) ← readProperties finish more
      return (⟨name.value, type⟩ :: properties, final.within h)
termination_by tokens.length
decreasing_by all_goals simp only [List.length_cons] at *; omega

inductive EventClause where
  | condition (expr : Expr)
  | target (name : String)
  | effect (expr : Expr)
  | weighted (effect : WeightedEffect)

inductive RuleClause where
  | condition (expr : Expr)
  | effect (expr : Expr)
  | temporal (clause : TemporalClause)
  | probability (clause : ProbabilityClause)

def conjunction? : List Expr → Option Expr
  | [] => none
  | first :: rest => some (rest.foldl (.binary "∧") first)

def sequence? : List Expr → Option Expr
  | [] => none
  | [effect] => some effect
  | effects => some (.sequence effects)

def EventDecl.ofClauses (name : String) (clauses : List EventClause) : EventDecl where
  name
  condition := conjunction? (clauses.filterMap fun | .condition e => some e | _ => none)
  target := (clauses.filterMap fun | .target t => some t | _ => none).getLast?
  effect := sequence? (clauses.filterMap fun | .effect e => some e | _ => none)
  weighted := clauses.filterMap fun | .weighted w => some w | _ => none

def RuleDecl.ofClauses (name : String) (clauses : List RuleClause) : RuleDecl where
  name
  condition := conjunction? (clauses.filterMap fun | .condition e => some e | _ => none)
  effect := sequence? (clauses.filterMap fun | .effect e => some e | _ => none)
  temporal := clauses.filterMap fun | .temporal c => some c | _ => none
  probability := clauses.filterMap fun | .probability c => some c | _ => none

def Token.opensClause (t : Token) (keyword : String) (rest : List Token) : Bool :=
  t.isWord keyword && startsWithMark ':' rest

def readWeighted (finish : Position) (tokens : List Token) :
    Except SourceError (WeightedEffect × Rest tokens) := do
  let (_, rest) ← takeMark finish '[' tokens
  let (effect, rest) ← rest.andThen (readExpr finish 0)
  let (_, rest) ← rest.andThen (takeMark finish ']')
  let (_, rest) ← rest.andThen (takeOperator finish "=")
  let (weight, rest) ← rest.andThen (takeFloat finish)
  return (⟨effect, weight⟩, rest)

def Rest.afterTail {tokens : List Token} (rest : Rest tokens.tail) : Remainder tokens :=
  ⟨rest.1, Nat.le_trans (Nat.le_of_lt rest.2) (List.tail_sublist tokens).length_le⟩

/-- Reads the clause of an event that starts here; nothing if none does. -/
def readEventClause (finish : Position) (t : Token) (rest : List Token) :
    Except SourceError (Option (EventClause × Remainder rest)) :=
  if t.opensClause "requires" rest then do
    let (e, more) ← readExpr finish 0 rest.tail
    return some (.condition e, more.afterTail)
  else if t.opensClause "target" rest then do
    let (name, more) ← takeName finish (.name "target entity name") rest.tail
    return some (.target name.value, more.afterTail)
  else if t.opensClause "effect" rest then do
    let (e, more) ← readExpr finish 0 rest.tail
    return some (.effect e, more.afterTail)
  else if t.kind == .identifier && opensProbability t.value rest then do
    let (w, more) ← readWeighted finish rest
    return some (.weighted w, more.weaken)
  else .ok none

/-- Reads the clause of a rule that starts here; nothing if none does. -/
def readRuleClause (finish : Position) (t : Token) (rest : List Token) :
    Except SourceError (Option (RuleClause × Remainder rest)) :=
  if t.opensClause "when" rest then do
    let (e, more) ← readExpr finish 0 rest.tail
    return some (.condition e, more.afterTail)
  else if t.opensClause "effect" rest then do
    let (e, more) ← readExpr finish 0 rest.tail
    return some (.effect e, more.afterTail)
  else if t.kind == .identifier then
    match temporalStart? t.value rest with
    | some op => do
      let (clause, more) ← readTemporal finish op rest
      return some (.temporal clause, more.weaken)
    | none =>
      if opensProbability t.value rest then do
        let (clause, more) ← readProbability finish rest
        return some (.probability clause, more.weaken)
      else .ok none
  else .ok none

/-- Reads clauses, each with an optional semicolon after it, up to and with the closing
brace. -/
def readClauses {α : Type} (finish : Position) (surroundings : Surroundings)
    (readClause : Token → (rest : List Token) → Except SourceError (Option (α × Remainder rest)))
    (skipping : Bool) (tokens : List Token) : Except SourceError (Body α × Rest tokens) :=
  match tokens with
  | [] => refuse finish (.mark '}') []
  | t :: rest =>
    if t.isMark '}' then .ok (.empty, .tail t rest)
    else do
      match ← readClause t rest with
      | some (clause, more) =>
        let ⟨more, h⟩ := (more.under t).dropSeparator [';']
        let (body, final) ← readClauses finish surroundings readClause false more
        return (body.cons clause, final.within h)
      | none =>
        if t.isMark ';' then
          let (body, final) ← readClauses finish surroundings readClause false rest
          return (body, final.under t)
        else
          let (body, final) ← readClauses finish surroundings readClause true rest
          return (body.skip skipping t surroundings, final.under t)
termination_by tokens.length
decreasing_by all_goals simp only [List.length_cons] at *; omega

def readEvent (finish : Position) (tokens : List Token) :
    Except SourceError (EventDecl × List SkippedRun × Rest tokens) := do
  let (name, rest) ← takeName finish (.name "event name") tokens
  let (_, rest) ← rest.andThen (takeMark finish '{')
  let (body, rest) ←
    rest.andThen (readClauses finish (.event name.value) (readEventClause finish) false)
  return (.ofClauses name.value body.items, body.skipped, rest)

def readRule (finish : Position) (tokens : List Token) :
    Except SourceError (RuleDecl × List SkippedRun × Rest tokens) := do
  let (name, rest) ← takeName finish (.name "rule name") tokens
  let (_, rest) ← rest.andThen (takeMark finish '{')
  let (body, rest) ←
    rest.andThen (readClauses finish (.rule name.value) (readRuleClause finish) false)
  return (.ofClauses name.value body.items, body.skipped, rest)

inductive EntityClause where
  | state (properties : List PropertyDecl)
  | event (event : EventDecl)

def readEntityBody (finish : Position) (name : String) (skipping : Bool) (tokens : List Token) :
    Except SourceError (Body EntityClause × Rest tokens) :=
  match tokens with
  | [] => refuse finish (.mark '}') []
  | t :: rest =>
    if t.isMark '}' then .ok (.empty, .tail t rest)
    else if t.isWord "State" then do
      let (_, more) ← takeMark finish '{' rest
      let (properties, ⟨more, h⟩) ← more.andThen (readProperties finish)
      let (body, final) ← readEntityBody finish name false more
      return (body.cons (.state properties), (final.within h).under t)
    else if t.isWord "Event" then do
      let (event, skipped, ⟨more, h⟩) ← readEvent finish rest
      let (body, final) ← readEntityBody finish name false more
      return ((body.cons (.event event)).after skipped, (final.within h).under t)
    else if t.isMark ';' then do
      let (body, final) ← readEntityBody finish name false rest
      return (body, final.under t)
    else do
      let (body, final) ← readEntityBody finish name true rest
      return (body.skip skipping t (.entity name), final.under t)
termination_by tokens.length
decreasing_by all_goals simp only [List.length_cons] at *; omega

def EntityDecl.ofClauses (name : String) (line : Nat) (clauses : List EntityClause) :
    EntityDecl where
  name
  line
  properties := clauses.flatMap fun | .state properties => properties | .event _ => []
  events := clauses.filterMap fun | .event e => some e | .state _ => none

def readEntity (finish : Position) (tokens : List Token) :
    Except SourceError (EntityDecl × List SkippedRun × Rest tokens) := do
  let (keyword, rest) ← takeToken finish (.keyword "Entity") (·.isWord "Entity") tokens
  let (name, rest) ← rest.andThen (takeName finish (.name "entity name"))
  let (_, rest) ← rest.andThen (takeMark finish '{')
  let (body, rest) ← rest.andThen (readEntityBody finish name.value false)
  return (.ofClauses name.value keyword.position.line body.items, body.skipped, rest)

inductive Declaration where
  | entity (entity : EntityDecl)
  | rule (rule : RuleDecl)

def readDeclarations (finish : Position) (skipping : Bool) (tokens : List Token) :
    Except SourceError (Body Declaration) :=
  match tokens with
  | [] => .ok .empty
  | t :: rest =>
    if t.isWord "Entity" then do
      let (entity, skipped, ⟨more, _⟩) ← readEntity finish (t :: rest)
      let body ← readDeclarations finish false more
      return (body.cons (.entity entity)).after skipped
    else if t.isWord "Rule" then do
      let (rule, skipped, ⟨more, _⟩) ← readRule finish rest
      let body ← readDeclarations finish false more
      return (body.cons (.rule rule)).after skipped
    else do
      let body ← readDeclarations finish true rest
      return body.skip skipping t .specification
termination_by tokens.length
decreasing_by all_goals simp only [List.length_cons] at *; omega

def Program.ofDeclarations (body : Body Declaration) : Program where
  entities := body.items.filterMap fun | .entity e => some e | .rule _ => none
  rules := body.items.filterMap fun | .rule r => some r | .entity _ => none
  warnings := body.skipped

def programOfTokens (tokens : List Token) : Except SourceError Program := do
  let body ← readDeclarations (endPosition tokens) false tokens
  return .ofDeclarations body

def entityOfTokens (tokens : List Token) : Except SourceError EntityDecl := do
  let finish := endPosition tokens
  let (entity, _, ⟨rest, _⟩) ← readEntity finish tokens
  if rest.isEmpty then return entity else refuse finish .endOfInput rest

def readProgram (source : String) : Except SourceError Program :=
  match tokenize source with
  | .error e => .error (.lexical e)
  | .ok tokens => programOfTokens tokens

end StepWorld
