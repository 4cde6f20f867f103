import StepWorld.Program
import StepWorld.Rest
import StepWorld.Syntax.Error

/-! Reading expressions by binding powers. An expression ends at the first token that cannot
continue it. Every function hands back the tokens it has not taken, and the type says that
they are fewer, which is why the recursion ends. -/

namespace StepWorld

def Token.isMark (t : Token) (c : Char) : Bool :=
  t.kind == .punctuation && t.value == String.singleton c

def Token.isOperator (t : Token) (op : String) : Bool := t.kind == .operator && t.value == op

def Token.isWord (t : Token) (word : String) : Bool := t.kind == .identifier && t.value == word

def startsWithMark (c : Char) : List Token → Bool
  | t :: _ => t.isMark c
  | [] => false

def startsWithWord (word : String) : List Token → Bool
  | t :: _ => t.isWord word
  | [] => false

def refuse {α : Type} (finish : Position) (expected : Expectation) (tokens : List Token) :
    Except SourceError α :=
  .error (.structural (unexpected finish expected tokens))

def takeToken (finish : Position) (expected : Expectation) (test : Token → Bool) :
    (tokens : List Token) → Except SourceError (Token × Rest tokens)
  | [] => refuse finish expected []
  | t :: rest =>
    if test t then .ok (t, .tail t rest) else refuse finish expected (t :: rest)

def takeMark (finish : Position) (c : Char) (tokens : List Token) :
    Except SourceError (Token × Rest tokens) :=
  takeToken finish (.mark c) (·.isMark c) tokens

def takeOperator (finish : Position) (op : String) (tokens : List Token) :
    Except SourceError (Token × Rest tokens) :=
  takeToken finish (.operator op) (·.isOperator op) tokens

/-- Takes an identifier; `expected` says what it names. -/
def takeName (finish : Position) (expected : Expectation) (tokens : List Token) :
    Except SourceError (Token × Rest tokens) :=
  takeToken finish expected (·.kind == .identifier) tokens

def numeralNumber (text : String) : Except SourceError Number :=
  let digits (cs : List Char) := cs.map fun c => c.toNat - '0'.toNat
  let whole := digits (text.toList.takeWhile Char.isDigit)
  match text.toList.dropWhile Char.isDigit with
  | '.' :: rest =>
    .ok (.real (nearestDecimal false (digitsValue (whole ++ digits rest)) (-(rest.length : Int))))
  | _ =>
    if digitLimit < whole.length then .error (.numeral (.longNumeral whole.length))
    else .ok (.whole (digitsValue whole))

def Number.negate : Number → Number
  | .whole n => .whole (-n)
  | .real x => .real (-x)

def Number.toValue : Number → Value
  | .whole n => .int n
  | .real x => .float x

def Number.toFloat? : Number → Option Float
  | .whole n => floatOfInt? n
  | .real x => some x

def takeNumber (finish : Position) (tokens : List Token) :
    Except SourceError (Number × Token × Rest tokens) :=
  match tokens with
  | t :: rest =>
    if t.isOperator "-" then do
      let (n, more) ← takeToken finish .number (·.kind == .number) rest
      return ((← numeralNumber n.value).negate, n, more.under t)
    else do
      let (n, more) ← takeToken finish .number (·.kind == .number) (t :: rest)
      return (← numeralNumber n.value, n, more)
  | [] => refuse finish .number []

def takeFloat (finish : Position) (tokens : List Token) :
    Except SourceError (Float × Rest tokens) := do
  let (n, _, rest) ← takeNumber finish tokens
  match n.toFloat? with
  | some x => return (x, rest)
  | none => .error (.numeral .intBeyondFloats)

/-- An operator in front of its operand. A minus sign becomes part of a number. -/
def applyLeading (op : String) (operand : Expr) : Expr :=
  match op, operand with
  | "-", .literal (.int n) => .literal (.int (-n))
  | "-", .literal (.float x) => .literal (.float (-x))
  | _, _ => .unary op operand

def temporalStart? (name : String) (rest : List Token) : Option TemporalOp :=
  if startsWithMark '(' rest then TemporalOp.ofName? name else none

def opensProbability (name : String) (rest : List Token) : Bool :=
  name == "P" && startsWithMark '[' rest

/-- The operator of a threshold: a comparison or a plain equals sign. -/
def isThresholdOperator (t : Token) : Bool :=
  t.kind == .operator && (comparisonOperators.contains t.value || t.value == "=")

/-- The part of a probability after its bracket. Without one the threshold is zero. -/
def takeThreshold (finish : Position) (event : Expr) (tokens : List Token) :
    Except SourceError (ProbabilityClause × Remainder tokens) :=
  match tokens with
  | t :: rest =>
    if isThresholdOperator t then do
      let (threshold, more) ← takeFloat finish rest
      return (⟨event, t.value, threshold⟩, (more.under t).weaken)
    else .ok (⟨event, "=", 0⟩, .all (t :: rest))
  | [] => .ok (⟨event, "=", 0⟩, .all [])

mutual

def readExpr (finish : Position) (power : Nat) (tokens : List Token) :
    Except SourceError (Expr × Rest tokens) := do
  let (left, ⟨rest, h⟩) ← readOperand finish tokens
  let (expr, more) ← continueExpr finish power left rest
  return (expr, more.within h)
termination_by 4 * tokens.length + 2

/-- Extends an expression by the operators that follow it. Assignment and `->` group to the
right, all others to the left. -/
def continueExpr (finish : Position) (power : Nat) (left : Expr) (tokens : List Token) :
    Except SourceError (Expr × Remainder tokens) :=
  match tokens with
  | [] => .ok (left, .all [])
  | t :: rest =>
    if t.kind != .operator then .ok (left, .all (t :: rest))
    else if assignmentOperators.contains t.value then
      if assignmentPower < power then .ok (left, .all (t :: rest))
      else do
        let (value, ⟨more, h⟩) ← readExpr finish assignmentPower rest
        let (expr, final) ← continueExpr finish power (.assignment t.value left value) more
        return (expr, ((final.within h).under t).weaken)
    else
      match bindingPower? t.value with
      | none => .ok (left, .all (t :: rest))
      | some binding =>
        if binding ≤ power then .ok (left, .all (t :: rest))
        else do
          let (right, ⟨more, h⟩) ←
            readExpr finish (if t.value == "->" then binding - 1 else binding) rest
          let (expr, final) ←
            continueExpr finish power (.binary (connectiveGlyph t.value) left right) more
          return (expr, ((final.within h).under t).weaken)
termination_by 4 * tokens.length

def readOperand (finish : Position) (tokens : List Token) :
    Except SourceError (Expr × Rest tokens) :=
  match tokens with
  | [] => refuse finish .expression []
  | t :: rest =>
    match t.kind with
    | .operator =>
      if leadingOperators.contains t.value then do
        let (operand, more) ← readExpr finish leadingPower rest
        return (applyLeading (connectiveGlyph t.value) operand, more.under t)
      else refuse finish .expression (t :: rest)
    | .number => do
      let n ← numeralNumber t.value
      return (.literal n.toValue, .tail t rest)
    | .string => .ok (.literal (.str t.value), .tail t rest)
    | .punctuation =>
      if t.isMark '(' then do
        let (inner, more) ← readExpr finish 0 rest
        let (_, final) ← more.andThen (takeMark finish ')')
        return (inner, final.under t)
      else refuse finish .expression (t :: rest)
    | .identifier => do
      let (expr, more) ← readNamed finish t.value rest
      return (expr, more.under t)
termination_by 4 * tokens.length + 1

def readNamed (finish : Position) (name : String) (tokens : List Token) :
    Except SourceError (Expr × Remainder tokens) :=
  if name == "true" || name == "false" then
    .ok (.literal (.bool (name == "true")), .all tokens)
  else
    match temporalStart? name tokens with
    | some op => do
      let (clause, rest) ← readTemporal finish op tokens
      return (clause.toExpr, rest.weaken)
    | none =>
      if opensProbability name tokens then do
        let (clause, rest) ← readProbability finish tokens
        return (clause.toExpr, rest.weaken)
      else
        match tokens with
        | [] => .ok (.identifier name, .all [])
        | t :: rest =>
          if t.isMark '.' then do
            let (member, more) ← takeName finish (.name "property name") rest
            return (.property name member.value, (more.under t).weaken)
          else if t.isMark '(' then do
            let (args, more) ← readArgs finish true rest
            return (.call name args, (more.under t).weaken)
          else .ok (.identifier name, .all (t :: rest))
termination_by 4 * tokens.length + 3

def readArgs (finish : Position) (first : Bool) (tokens : List Token) :
    Except SourceError (List Expr × Rest tokens) :=
  match tokens with
  | t :: rest =>
    if t.isMark ')' then .ok ([], .tail t rest)
    else if first then do
      let (arg, ⟨more, h⟩) ← readExpr finish 0 (t :: rest)
      let (args, final) ← readArgs finish false more
      return (arg :: args, final.within h)
    else do
      let (_, ⟨next, hn⟩) ← takeMark finish ',' (t :: rest)
      let (arg, ⟨more, hm⟩) ← readExpr finish 0 next
      let (args, final) ← readArgs finish false more
      return (arg :: args, (final.within hm).within hn)
  | [] => refuse finish (if first then .expression else .mark ',') []
termination_by 4 * tokens.length + 3
decreasing_by all_goals simp only [List.length_cons] at *; omega

/-- Reads the operands of a temporal operator from the opening parenthesis on. -/
def readTemporal (finish : Position) (op : TemporalOp) (tokens : List Token) :
    Except SourceError (TemporalClause × Rest tokens) := do
  let (_, ⟨rest, hr⟩) ← takeMark finish '(' tokens
  let (first, ⟨more, hm⟩) ← readExpr finish 0 rest
  if op = .until then
    let (_, ⟨next, hn⟩) ← takeMark finish ',' more
    let (second, after) ← readExpr finish 0 next
    let (_, final) ← after.andThen (takeMark finish ')')
    return (⟨op, [first, second]⟩, ((final.within hn).within hm).within hr)
  else
    let (_, final) ← takeMark finish ')' more
    return (⟨op, [first]⟩, (final.within hm).within hr)
termination_by 4 * tokens.length

def readProbability (finish : Position) (tokens : List Token) :
    Except SourceError (ProbabilityClause × Rest tokens) := do
  let (_, ⟨rest, h⟩) ← takeMark finish '[' tokens
  let (event, more) ← readExpr finish 0 rest
  let (_, ⟨next, hn⟩) ← more.andThen (takeMark finish ']')
  let (clause, final) ← takeThreshold finish event next
  return (clause, (final.within hn).within h)
termination_by 4 * tokens.length

end

def exprOfTokens (tokens : List Token) : Except SourceError Expr := do
  let finish := endPosition tokens
  let (expr, ⟨rest, _⟩) ← readExpr finish 0 tokens
  if rest.isEmpty then return expr else refuse finish .endOfExpression rest

def readExpression (source : String) : Except SourceError Expr :=
  match tokenize source with
  | .error e => .error (.lexical e)
  | .ok tokens => exprOfTokens tokens

end StepWorld
