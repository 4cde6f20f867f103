import StepWorld.Syntax.Expression

/-! What readers take from a token list and what they leave. Errors and the proofs in the types
of rests are forgotten, so that each reader is described by one equation on plain lists. -/

namespace StepWorld

variable {α β : Type} {tokens : List Token}

def taken {fits : List Token → Prop}
    (result : Except SourceError (α × { rest : List Token // fits rest })) :
    Option (α × List Token) :=
  match result with
  | .ok (a, rest) => some (a, rest.1)
  | .error _ => none

theorem taken_eq_some_iff {fits : List Token → Prop} {a : α} {rest : List Token}
    {result : Except SourceError (α × { rest : List Token // fits rest })} :
    taken result = some (a, rest) ↔ ∃ h, result = .ok (a, ⟨rest, h⟩) := by
  unfold taken
  split
  · next b r =>
    obtain ⟨r, hr⟩ := r
    constructor
    · intro h
      obtain ⟨rfl, rfl⟩ := Prod.mk.inj (Option.some.inj h)
      exact ⟨hr, rfl⟩
    · rintro ⟨_, h⟩
      cases h
      rfl
  · simp

theorem length_lt_of_taken {a : α} {rest : List Token}
    {result : Except SourceError (α × Rest tokens)} (h : taken result = some (a, rest)) :
    rest.length < tokens.length :=
  (taken_eq_some_iff.mp h).choose

@[simp] theorem taken_refuse {fits : List Token → Prop} (finish : Position)
    (expected : Expectation) (ts : List Token) :
    @taken α fits (refuse finish expected ts) = none := rfl

@[simp] theorem taken_andThen {rest : Rest tokens}
    {read : (part : List Token) → Except SourceError (β × Rest part)} :
    taken (rest.andThen read) = taken (read rest.1) := by
  obtain ⟨part, h⟩ := rest
  unfold Rest.andThen
  dsimp only
  cases read part <;> rfl

theorem taken_takeToken {finish : Position} {expected : Expectation} {test : Token → Bool}
    {t : Token} {rest : List Token} :
    taken (takeToken finish expected test tokens) = some (t, rest) ↔
      tokens = t :: rest ∧ test t = true := by
  cases tokens with
  | nil => simp [takeToken]
  | cons u us =>
    by_cases h : test u = true
    · simp [takeToken, h, taken, Rest.tail]
      grind
    · simp [takeToken, h]
      grind

theorem taken_takeMark {finish : Position} {c : Char} {t : Token} {rest : List Token} :
    taken (takeMark finish c tokens) = some (t, rest) ↔
      tokens = t :: rest ∧ t.isMark c = true :=
  taken_takeToken

theorem taken_takeName {finish : Position} {expected : Expectation} {t : Token}
    {rest : List Token} :
    taken (takeName finish expected tokens) = some (t, rest) ↔
      tokens = t :: rest ∧ t.kind = .identifier := by
  simp [takeName, taken_takeToken]

/-- Whatever view of a result has nothing to show for an error, a first part is seen in it through
what it took. -/
theorem view_bind {γ δ : Type} {fits : List Token → Prop}
    {first : Except SourceError (α × { rest : List Token // fits rest })}
    {next : α × { rest : List Token // fits rest } → Except SourceError γ}
    {result : Except SourceError γ → Option δ} {view : α × List Token → Option δ}
    (herror : ∀ e, result (.error e) = none)
    (h : ∀ a rest hr, result (next (a, ⟨rest, hr⟩)) = view (a, rest)) :
    result (first >>= next) = (taken first).bind view := by
  cases first with
  | error e => exact herror e
  | ok found =>
    obtain ⟨a, rest, hr⟩ := found
    exact h a rest hr

theorem taken_bind {fits fits' : List Token → Prop}
    {first : Except SourceError (α × { rest : List Token // fits rest })}
    {next : α × { rest : List Token // fits rest } →
      Except SourceError (β × { rest : List Token // fits' rest })}
    {view : α × List Token → Option (β × List Token)}
    (h : ∀ a rest hr, taken (next (a, ⟨rest, hr⟩)) = view (a, rest)) :
    taken (first >>= next) = (taken first).bind view :=
  view_bind (fun _ => rfl) h

theorem taken_bind_same {fits fits' : List Token → Prop}
    {first : Except SourceError (α × { rest : List Token // fits rest })}
    {next : α × { rest : List Token // fits rest } →
      Except SourceError (α × { rest : List Token // fits' rest })}
    (h : ∀ a rest hr, taken (next (a, ⟨rest, hr⟩)) = some (a, rest)) :
    taken (first >>= next) = taken first :=
  (taken_bind h).trans (Option.bind_fun_some _)

/-- The power at which the right operand of a token is read, if the token continues an
expression that is read at a power. -/
def Token.rightPower? (t : Token) (power : Nat) : Option Nat :=
  if t.kind != .operator then none
  else if assignmentOperators.contains t.value then
    if assignmentPower < power then none else some assignmentPower
  else
    match bindingPower? t.value with
    | none => none
    | some binding =>
      if binding ≤ power then none
      else some (if t.value == "->" then binding - 1 else binding)

def Token.join (t : Token) (left right : Expr) : Expr :=
  if assignmentOperators.contains t.value then .assignment t.value left right
  else .binary (connectiveGlyph t.value) left right

theorem taken_readExpr (finish : Position) (power : Nat) :
    taken (readExpr finish power tokens) =
      (taken (readOperand finish tokens)).bind fun (left, mid) =>
        taken (continueExpr finish power left mid) := by
  rw [readExpr]
  refine taken_bind fun left mid _ => ?_
  exact taken_bind_same fun _ _ _ => rfl

@[simp] theorem taken_continueExpr_nil (finish : Position) (power : Nat) (left : Expr) :
    taken (continueExpr finish power left []) = some (left, []) := by
  rw [continueExpr]
  rfl

theorem taken_continueExpr_cons (finish : Position) (power : Nat) (left : Expr) (t : Token)
    (rest : List Token) :
    taken (continueExpr finish power left (t :: rest)) =
      match t.rightPower? power with
      | none => some (left, t :: rest)
      | some inner =>
        (taken (readExpr finish inner rest)).bind fun (right, more) =>
          taken (continueExpr finish power (t.join left right) more) := by
  rw [continueExpr, Token.rightPower?]
  by_cases hk : t.kind != .operator
  · simp only [hk, if_true]
    rfl
  · simp only [hk, Bool.false_eq_true, if_false]
    by_cases ha : assignmentOperators.contains t.value = true
    · by_cases hp : assignmentPower < power
      · simp only [ha, hp, if_true]
        rfl
      · simp only [ha, hp, if_true, if_false, Token.join]
        refine taken_bind fun right more _ => ?_
        exact taken_bind_same fun _ _ _ => rfl
    · simp only [ha, Bool.false_eq_true, if_false, Token.join]
      cases bindingPower? t.value with
      | none => rfl
      | some binding =>
        by_cases hp : binding ≤ power
        · simp only [hp, if_true]
          rfl
        · simp only [hp, if_false]
          refine taken_bind fun right more _ => ?_
          exact taken_bind_same fun _ _ _ => rfl

@[simp] theorem taken_readOperand_nil (finish : Position) :
    taken (readOperand finish []) = none := by
  rw [readOperand]
  rfl

theorem taken_readOperand_cons (finish : Position) (t : Token) (rest : List Token) :
    taken (readOperand finish (t :: rest)) =
      match t.kind with
      | .operator =>
        if leadingOperators.contains t.value then
          (taken (readExpr finish leadingPower rest)).bind fun (e, more) =>
            some (applyLeading (connectiveGlyph t.value) e, more)
        else none
      | .number => (numeralNumber t.value).toOption.map fun n => (.literal n.toValue, rest)
      | .string => some (.literal (.str t.value), rest)
      | .punctuation =>
        if t.isMark '(' then
          (taken (readExpr finish 0 rest)).bind fun (e, more) =>
            (taken (takeMark finish ')' more)).bind fun (_, final) => some (e, final)
        else none
      | .identifier => taken (readNamed finish t.value rest) := by
  rw [readOperand]
  cases t.kind with
  | operator =>
    by_cases hl : leadingOperators.contains t.value = true
    · simp only [hl, if_true]
      exact taken_bind fun _ _ _ => rfl
    · simp only [hl]
      rfl
  | number => cases numeralNumber t.value <;> rfl
  | string => rfl
  | punctuation =>
    by_cases hm : t.isMark '(' = true
    · simp only [hm, if_true]
      refine taken_bind fun e more _ => ?_
      exact (taken_bind fun _ _ _ => rfl).trans (by rw [taken_andThen])
    · simp only [hm]
      rfl
  | identifier => exact taken_bind_same fun _ _ _ => rfl

theorem taken_readNamed (finish : Position) (name : String) :
    taken (readNamed finish name tokens) =
      if name == "true" || name == "false" then
        some (.literal (.bool (name == "true")), tokens)
      else
        match temporalStart? name tokens with
        | some op =>
          (taken (readTemporal finish op tokens)).bind fun (clause, rest) =>
            some (clause.toExpr, rest)
        | none =>
          if opensProbability name tokens then
            (taken (readProbability finish tokens)).bind fun (clause, rest) =>
              some (clause.toExpr, rest)
          else
            match tokens with
            | [] => some (.identifier name, [])
            | t :: rest =>
              if t.isMark '.' then
                (taken (takeName finish (.name "property name") rest)).bind fun (member, more) =>
                  some (.property name member.value, more)
              else if t.isMark '(' then
                (taken (readArgs finish true rest)).bind fun (args, more) =>
                  some (.call name args, more)
              else some (.identifier name, t :: rest) := by
  rw [readNamed.eq_def]
  by_cases ht : (name == "true" || name == "false") = true
  · simp only [ht, if_true]
    rfl
  · simp only [ht, Bool.false_eq_true, if_false]
    cases temporalStart? name tokens with
    | some op => exact taken_bind fun _ _ _ => rfl
    | none =>
      by_cases hp : opensProbability name tokens = true
      · simp only [hp, if_true]
        exact taken_bind fun _ _ _ => rfl
      · simp only [hp, Bool.false_eq_true, if_false]
        cases tokens with
        | nil => rfl
        | cons t rest =>
          by_cases hdot : t.isMark '.' = true
          · simp only [hdot, if_true]
            exact taken_bind fun _ _ _ => rfl
          · by_cases hopen : t.isMark '(' = true
            · simp only [hdot, hopen, Bool.false_eq_true, if_false, if_true]
              exact taken_bind fun _ _ _ => rfl
            · simp only [hdot, hopen]
              rfl

@[simp] theorem taken_readArgs_nil (finish : Position) (first : Bool) :
    taken (readArgs finish first []) = none := by
  rw [readArgs]
  rfl

theorem taken_readArgs_cons (finish : Position) (first : Bool) (t : Token)
    (rest : List Token) :
    taken (readArgs finish first (t :: rest)) =
      if t.isMark ')' then some ([], rest)
      else
        (if first then some (t :: rest)
          else (taken (takeMark finish ',' (t :: rest))).map (·.2)).bind fun start =>
        (taken (readExpr finish 0 start)).bind fun (arg, more) =>
        (taken (readArgs finish false more)).bind fun (args, final) =>
          some (arg :: args, final) := by
  rw [readArgs]
  by_cases hc : t.isMark ')' = true
  · simp only [hc, if_true]
    rfl
  · simp only [hc, Bool.false_eq_true, if_false]
    cases first with
    | true =>
      simp only [if_true, Option.bind_some]
      refine taken_bind fun _ _ _ => ?_
      exact taken_bind fun _ _ _ => rfl
    | false =>
      simp only [Bool.false_eq_true, if_false, Option.bind_map]
      refine taken_bind fun _ _ _ => ?_
      refine taken_bind fun _ _ _ => ?_
      exact taken_bind fun _ _ _ => rfl

theorem taken_readTemporal (finish : Position) (op : TemporalOp) :
    taken (readTemporal finish op tokens) =
      (taken (takeMark finish '(' tokens)).bind fun (_, rest) =>
      (taken (readExpr finish 0 rest)).bind fun (first, more) =>
        if op = .until then
          (taken (takeMark finish ',' more)).bind fun (_, next) =>
          (taken (readExpr finish 0 next)).bind fun (second, after) =>
          (taken (takeMark finish ')' after)).bind fun (_, final) =>
            some (⟨op, [first, second]⟩, final)
        else
          (taken (takeMark finish ')' more)).bind fun (_, final) =>
            some (⟨op, [first]⟩, final) := by
  rw [readTemporal]
  refine taken_bind fun _ _ _ => ?_
  refine taken_bind fun first more _ => ?_
  by_cases hu : op = .until
  · simp only [hu, if_true]
    refine taken_bind fun _ _ _ => ?_
    refine taken_bind fun second after _ => ?_
    exact (taken_bind fun _ _ _ => rfl).trans (by rw [taken_andThen])
  · simp only [hu, if_false]
    exact taken_bind fun _ _ _ => rfl

theorem taken_readProbability (finish : Position) :
    taken (readProbability finish tokens) =
      (taken (takeMark finish '[' tokens)).bind fun (_, rest) =>
      (taken (readExpr finish 0 rest)).bind fun (event, more) =>
      (taken (takeMark finish ']' more)).bind fun (_, next) =>
        taken (takeThreshold finish event next) := by
  rw [readProbability]
  refine taken_bind fun _ _ _ => ?_
  refine taken_bind fun event more _ => ?_
  refine (taken_bind fun _ next _ => ?_).trans (by rw [taken_andThen])
  exact taken_bind_same fun _ _ _ => rfl

theorem taken_takeThreshold_cons (finish : Position) (event : Expr) (t : Token)
    (rest : List Token) :
    taken (takeThreshold finish event (t :: rest)) =
      if isThresholdOperator t then
        (taken (takeFloat finish rest)).bind fun (x, more) => some (⟨event, t.value, x⟩, more)
      else some (⟨event, "=", 0⟩, t :: rest) := by
  rw [takeThreshold]
  by_cases h : isThresholdOperator t = true
  · simp only [h, if_true]
    exact taken_bind fun _ _ _ => rfl
  · simp only [h]
    rfl

def floatAtFront (change : Number → Number) : List Token → Option (Float × List Token)
  | [] => none
  | t :: rest =>
    if t.kind == .number then
      (numeralNumber t.value).toOption.bind fun n => (change n).toFloat?.map (·, rest)
    else none

theorem taken_takeFloat (finish : Position) :
    taken (takeFloat finish tokens) =
      match tokens with
      | [] => none
      | t :: rest =>
        if t.isOperator "-" then floatAtFront Number.negate rest
        else floatAtFront id (t :: rest) := by
  cases tokens with
  | nil => rfl
  | cons t rest =>
    by_cases hminus : t.isOperator "-" = true
    · simp only [takeFloat, takeNumber, hminus, if_true]
      cases rest with
      | nil => rfl
      | cons u more =>
        by_cases hu : (u.kind == .number) = true
        · simp only [takeToken, floatAtFront, hu, if_true, bind, Except.bind]
          cases numeralNumber u.value with
          | error => rfl
          | ok n =>
            dsimp only [Except.toOption, Option.bind, pure, Except.pure]
            cases n.negate.toFloat? <;> rfl
        · simp only [takeToken, floatAtFront, hu]
          rfl
    · simp only [takeFloat, takeNumber, hminus, Bool.false_eq_true, if_false]
      by_cases ht : (t.kind == .number) = true
      · simp only [takeToken, floatAtFront, ht, if_true, bind, Except.bind]
        cases numeralNumber t.value with
        | error => rfl
        | ok n =>
          dsimp only [Except.toOption, Option.bind, id, pure, Except.pure]
          cases n.toFloat? <;> rfl
      · simp only [takeToken, floatAtFront, ht]
        rfl

end StepWorld
