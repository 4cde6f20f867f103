import StepWorld.Chance
import StepWorld.Syntax.Expression

/-! The value of an expression. Names that mean nothing stand for their own text, arithmetic
on anything but numbers gives null, and values without a common order compare as false.
Temporal operators are judged by the present alone and probabilities by a fixed
placeholder. -/

namespace StepWorld

/-- What names mean: the acting instance, the target of an event and the variables. -/
structure Bindings where
  acting : Option Record
  target : Option Record
  vars : Record

namespace Bindings

def fieldOf (state : Option Record) (name : String) : Value :=
  ((state.getD []).get? name).getD .null

def named (b : Bindings) (name : String) : Value :=
  (b.vars.get? name).getD (.str name)

/-- The property of an owner. A variable that is no map stands for all its properties. -/
def property (b : Bindings) (owner name : String) : Value :=
  if owner = "Self" then fieldOf b.acting name
  else if owner = "Target" then fieldOf b.target name
  else
    match b.vars.get? owner with
    | some (.map fields) => (Table.get? name fields).getD .null
    | some value => value
    | none => .str (owner ++ "." ++ name)

end Bindings

inductive Comparison where
  | eq
  | ne
  | lt
  | le
  | gt
  | ge
deriving DecidableEq, Repr

namespace Comparison

def ofText? : String → Option Comparison
  | "==" => some .eq
  | "!=" => some .ne
  | "<" => some .lt
  | "<=" => some .le
  | ">" => some .gt
  | ">=" => some .ge
  | _ => none

def accepts : Comparison → Relation → Bool
  | .eq, r => r == .equal
  | .ne, r => r != .equal
  | .lt, r => r == .less
  | .le, r => r == .less || r == .equal
  | .gt, r => r == .greater
  | .ge, r => r == .greater || r == .equal

end Comparison

namespace Value

def isBool : Value → Bool
  | .bool _ => true
  | _ => false

def strictlySame (v w : Value) : Bool := v.isBool == w.isBool && v.same w

def compares (v : Value) (c : Comparison) (w : Value) : Bool :=
  match c with
  | .eq => v.strictlySame w
  | .ne => !v.strictlySame w
  | c => (v.order? w).any c.accepts

/-- The first value that lies to all others as wanted; nothing if two have no order. -/
def extreme? (wanted : Relation) : Value → List Value → Option Value
  | best, [] => some best
  | best, v :: rest =>
    match v.order? best with
    | none => none
    | some r => extreme? wanted (if r = wanted then v else best) rest

def extreme (wanted : Relation) : List Value → Value
  | [] => .null
  | first :: rest => (extreme? wanted first rest).getD .null

end Value

inductive Arithmetic where
  | add
  | subtract
  | multiply
  | divide
  | remainder
deriving DecidableEq, Repr

def Arithmetic.ofText? : String → Option Arithmetic
  | "+" => some .add
  | "-" => some .subtract
  | "*" => some .multiply
  | "/" => some .divide
  | "%" => some .remainder
  | _ => none

namespace Number

def toFloat (n : Number) : Except Fault Float :=
  match n.toFloat? with
  | some x => .ok x
  | none => .error .intBeyondFloats

def isZero : Number → Bool
  | .whole n => n == 0
  | .real x => x == 0

def isReal : Number → Bool
  | .whole _ => false
  | .real _ => true

/-- Integers stay exact; with a float on either side both become floats. -/
def combine (whole : Int → Int → Int) (real : Float → Float → Float) (a b : Number) :
    Except Fault Number :=
  match a, b with
  | .whole m, .whole n => .ok (.whole (whole m n))
  | a, b => do
    let x ← a.toFloat
    let y ← b.toFloat
    return .real (real x y)

def add : Number → Number → Except Fault Number := combine (· + ·) (· + ·)

def subtract : Number → Number → Except Fault Number := combine (· - ·) (· - ·)

def multiply : Number → Number → Except Fault Number := combine (· * ·) (· * ·)

/-- The quotient as a float. The divisor is not zero. -/
def divide (a b : Number) : Except Fault Number :=
  match a, b with
  | .whole m, .whole n =>
    match intQuotient? m n with
    | some x => .ok (.real x)
    | none => .error .quotientBeyondFloats
  | a, b => do
    let x ← a.toFloat
    let y ← b.toFloat
    return .real (x / y)

/-- The float remainder with the sign of the dividend. The divisor is not zero. -/
def remainder (a b : Number) : Except Fault Number := do
  let x ← a.toFloat
  let y ← b.toFloat
  match remainder? x y with
  | some r => return .real r
  | none => .error .remainderUndefined

def truncate : Number → Except Fault Int
  | .whole n => .ok n
  | .real x =>
    match truncateFloat? x with
    | some n => .ok n
    | none => .error (if isNan x then .nanToInt else .infinityToInt)

end Number

/-- Arithmetic on two numbers. Nothing comes of a division by zero. -/
def Arithmetic.apply (op : Arithmetic) (a b : Number) : Except Fault Value :=
  match op with
  | .add => Number.toValue <$> a.add b
  | .subtract => Number.toValue <$> a.subtract b
  | .multiply => Number.toValue <$> a.multiply b
  | .divide => if b.isZero then .ok .null else Number.toValue <$> a.divide b
  | .remainder => if b.isZero then .ok .null else Number.toValue <$> a.remainder b

/-- What a binary operator does with its operands. -/
inductive BinaryRole where
  | conjunction
  | disjunction
  | implication
  | comparison (c : Comparison)
  | arithmetic (op : Arithmetic)
  | unknown
deriving DecidableEq, Repr

def BinaryRole.ofText (op : String) : BinaryRole :=
  if op = "∧" then .conjunction
  else if op = "∨" then .disjunction
  else if op = "->" then .implication
  else
    match Comparison.ofText? op with
    | some c => .comparison c
    | none =>
      match Arithmetic.ofText? op with
      | some a => .arithmetic a
      | none => .unknown

inductive Function where
  | rand
  | min
  | max
deriving DecidableEq, Repr

def Function.ofName? : String → Option Function
  | "Rand" => some .rand
  | "Min" => some .min
  | "Max" => some .max
  | _ => none

/-- An evaluation may draw from the source of chance and may meet a fault; what was drawn
stays drawn. -/
abbrev Eval := ExceptT Fault (StateM Chance)

namespace Eval

def ofExcept {α : Type} : Except Fault α → Eval α
  | .ok a => pure a
  | .error fault => throw fault

def drawBetween (low high : Int) : Eval Int :=
  ExceptT.lift fun chance => chance.between low high

end Eval

def randomBetween (a b : Number) : Eval Value := do
  let low ← Eval.ofExcept a.truncate
  let high ← Eval.ofExcept b.truncate
  return .int (← Eval.drawBetween (min low high) (max low high))

def Function.apply (f : Function) (args : List Value) : Eval Value :=
  match f with
  | .rand =>
    match args.map Value.number? with
    | [some a, some b] => randomBetween a b
    | _ => return .null
  | .min => return Value.extreme .less args
  | .max => return Value.extreme .greater args

def Value.negate : Value → Value
  | .int n => .int (-n)
  | .float x => .float (-x)
  | .nan _ => .float notANumber
  | _ => .null

def applyUnary (op : String) (operand : Value) : Value :=
  if op = "¬" then .bool !operand.truth
  else if op = "-" then operand.negate
  else .null

def applyBinary (role : BinaryRole) (left right : Value) : Except Fault Value :=
  match role with
  | .comparison c => .ok (.bool (left.compares c right))
  | .arithmetic op =>
    match left.number?, right.number? with
    | some a, some b => op.apply a b
    | _, _ => .ok .null
  | _ => .ok .null

def meetsThreshold (placeholder : Value) (comparison : String) (threshold : Float) : Bool :=
  match Comparison.ofText? (if comparison = "=" then "==" else comparison) with
  | some c => placeholder.compares c (.float threshold)
  | none => false

mutual

/-- The value of an expression. Connectives evaluate their right operand only if the left
one leaves the outcome open. -/
def evaluate (placeholder : Value) (b : Bindings) : Expr → Eval Value
  | .literal value => return value
  | .identifier name => return b.named name
  | .property owner name => return b.property owner name
  | .call function args =>
    match Function.ofName? function with
    | none => return .null
    | some f => do f.apply (← evaluateAll placeholder b args)
  | .unary op operand => do return applyUnary op (← evaluate placeholder b operand)
  | .binary op left right => do
    let first ← evaluate placeholder b left
    match BinaryRole.ofText op with
    | .conjunction =>
      if first.truth then return .bool (← evaluate placeholder b right).truth
      else return .bool false
    | .disjunction =>
      if first.truth then return .bool true
      else return .bool (← evaluate placeholder b right).truth
    | .implication =>
      if first.truth then return .bool (← evaluate placeholder b right).truth
      else return .bool true
    | role => do
      let second ← evaluate placeholder b right
      Eval.ofExcept (applyBinary role first second)
  | .temporal .always (operand :: _) => do
    return .bool (← evaluate placeholder b operand).truth
  | .temporal .eventually _ => return .bool true
  | .temporal .next _ => return .bool true
  | .temporal _ _ => return .bool false
  | .probability _ comparison threshold =>
    return .bool (meetsThreshold placeholder comparison threshold)
  | _ => return .null

def evaluateAll (placeholder : Value) (b : Bindings) : List Expr → Eval (List Value)
  | [] => return []
  | e :: rest => do
    let value ← evaluate placeholder b e
    let values ← evaluateAll placeholder b rest
    return value :: values

end

/-- Whether a condition holds; a missing one does. -/
def holds (placeholder : Value) (b : Bindings) : Option Expr → Eval Bool
  | none => return true
  | some e => do return (← evaluate placeholder b e).truth

def defaultPlaceholder : Value := .float 0.5

def exprOfText? (text : String) : Except Fault (Option Expr) :=
  match readExpression text with
  | .ok e => .ok (some e)
  | .error (.numeral fault) => .error fault
  | .error _ => .ok none

/-- The value of raw text. Text that is no expression stands for itself. -/
def evaluateText (placeholder : Value) (b : Bindings) (text : String) : Eval Value := do
  match ← Eval.ofExcept (exprOfText? text) with
  | some e => evaluate placeholder b e
  | none => return .str text

/-- Whether raw text holds as a condition. Text that is no expression does not. -/
def textHolds (placeholder : Value) (b : Bindings) (text : String) : Eval Bool := do
  match ← Eval.ofExcept (exprOfText? text) with
  | some e => holds placeholder b (some e)
  | none => return false

end StepWorld
