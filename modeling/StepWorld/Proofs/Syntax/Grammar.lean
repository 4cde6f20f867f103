import Mathlib.Data.List.TakeWhile
import StepWorld.Syntax.Expression

/-! The grammar of expressions over tokens. Each category of expressions consists of its own
operators and of the next tighter category, from assignments down to operands. A derivation
leads from a token list to what is left of it. -/

namespace StepWorld

/-- The number that a numeral stands for, however many digits it has. -/
def numeralValue (text : String) : Number :=
  let digits (cs : List Char) := cs.map fun c => c.toNat - '0'.toNat
  let whole := digits (text.toList.takeWhile Char.isDigit)
  match text.toList.dropWhile Char.isDigit with
  | '.' :: rest =>
    .real (nearestDecimal false (digitsValue (whole ++ digits rest)) (-(rest.length : Int)))
  | _ => .whole (digitsValue whole)

/-- Whether a numeral has a point or few enough digits to be read. -/
def isShortNumeral (text : String) : Bool :=
  (text.toList.dropWhile Char.isDigit).head? == some '.' ||
    (text.toList.takeWhile Char.isDigit).length ≤ digitLimit

theorem numeralNumber_eq_ok_iff {text : String} {n : Number} :
    numeralNumber text = .ok n ↔ isShortNumeral text = true ∧ n = numeralValue text := by
  unfold numeralNumber numeralValue isShortNumeral
  dsimp only
  split
  · next rest h => simp [h, eq_comm]
  · next h =>
    have hpoint : (text.toList.dropWhile Char.isDigit).head? ≠ some '.' := by
      intro he
      obtain ⟨rest, hr⟩ := List.head?_eq_some_iff.mp he
      exact h rest hr
    split
    · next hl => simp [hpoint] at hl ⊢; omega
    · next hl => simp [hpoint] at hl ⊢; simp [hl, eq_comm]

/-! ### Numerals without a point -/

theorem numeralValue_of_digits {text : String} (hall : ∀ c ∈ text.toList, c.isDigit = true) :
    numeralValue text = .whole (digitsValue (text.toList.map fun c => c.toNat - '0'.toNat)) := by
  simp only [numeralValue, List.takeWhile_eq_self_iff.mpr hall,
    List.dropWhile_eq_nil_iff.mpr hall]

theorem isShortNumeral_of_digits {text : String} (hall : ∀ c ∈ text.toList, c.isDigit = true)
    (hlength : text.toList.length ≤ digitLimit) : isShortNumeral text = true := by
  simp [isShortNumeral, List.takeWhile_eq_self_iff.mpr hall, hlength]

/-! ### Categories -/

inductive Category where
  | assignment
  | implication
  | disjunction
  | conjunction
  | comparison
  | sum
  | product
  | unary
  | operand
  /-- A call whose parenthesis has not been closed yet. -/
  | openCall
deriving DecidableEq

namespace Category

def tighter? : Category → Option Category
  | assignment => some implication
  | implication => some disjunction
  | disjunction => some conjunction
  | conjunction => some comparison
  | comparison => some sum
  | sum => some product
  | product => some unary
  | unary => some operand
  | operand | openCall => none

/-- The operators of a category that group to the left. -/
def leftOperators : Category → List String
  | disjunction => ["∨", "||"]
  | conjunction => ["∧", "&&"]
  | comparison => ["==", "!=", "<", "<=", ">", ">="]
  | sum => ["+", "-"]
  | product => ["*", "/", "%"]
  | _ => []

end Category

/-- A literal that a minus sign in front becomes a part of. -/
def Expr.isNumeral : Expr → Bool
  | .literal (.int _) | .literal (.float _) => true
  | _ => false

def Token.isTruth (t : Token) : Bool := t.isWord "true" || t.isWord "false"

def Token.isFunction (t : Token) : Bool :=
  t.kind == .identifier && !t.isTruth && (TemporalOp.ofName? t.value).isNone

/-- The number after the operator of a threshold, as a float. -/
inductive DerivesThreshold : List Token → List Token → Float → Prop
  | plain {t : Token} {rest : List Token} {x : Float} : t.kind = .number →
      (numeralValue t.value).toFloat? = some x → DerivesThreshold (t :: rest) rest x
  | negated {minus t : Token} {rest : List Token} {x : Float} : minus.isOperator "-" →
      t.kind = .number → (numeralValue t.value).negate.toFloat? = some x →
      DerivesThreshold (minus :: t :: rest) rest x

/-- The tokens from a list to what is left of it make up an expression of a category. -/
inductive Derives : Category → List Token → List Token → Expr → Prop
  | descend {c d : Category} {ts rest : List Token} {e : Expr} :
      c.tighter? = some d → Derives d ts rest e → Derives c ts rest e
  | assign {ts mid rest : List Token} {t : Token} {target value : Expr} :
      Derives .implication ts (t :: mid) target →
      t.kind = .operator → t.value ∈ assignmentOperators →
      Derives .assignment mid rest value →
      Derives .assignment ts rest (.assignment t.value target value)
  | imply {ts mid rest : List Token} {t : Token} {left right : Expr} :
      Derives .disjunction ts (t :: mid) left → t.isOperator "->" →
      Derives .implication mid rest right →
      Derives .implication ts rest (.binary "->" left right)
  | chain {c d : Category} {ts mid rest : List Token} {t : Token} {left right : Expr} :
      Derives c ts (t :: mid) left → t.kind = .operator → t.value ∈ c.leftOperators →
      c.tighter? = some d → Derives d mid rest right →
      Derives c ts rest (.binary (connectiveGlyph t.value) left right)
  | negateInt {t : Token} {ts rest : List Token} {n : Int} :
      t.isOperator "-" → Derives .unary ts rest (.literal (.int n)) →
      Derives .unary (t :: ts) rest (.literal (.int (-n)))
  | negateFloat {t : Token} {ts rest : List Token} {x : Float} :
      t.isOperator "-" → Derives .unary ts rest (.literal (.float x)) →
      Derives .unary (t :: ts) rest (.literal (.float (-x)))
  | lead {t : Token} {ts rest : List Token} {e : Expr} :
      t.kind = .operator → t.value ∈ leadingOperators → Derives .unary ts rest e →
      (t.value = "-" → e.isNumeral = false) →
      Derives .unary (t :: ts) rest (.unary (connectiveGlyph t.value) e)
  | number {t : Token} {rest : List Token} : t.kind = .number →
      Derives .operand (t :: rest) rest (.literal (numeralValue t.value).toValue)
  | string {t : Token} {rest : List Token} : t.kind = .string →
      Derives .operand (t :: rest) rest (.literal (.str t.value))
  | truth {t : Token} {rest : List Token} : t.isTruth →
      Derives .operand (t :: rest) rest (.literal (.bool (t.value == "true")))
  | group {opening closing : Token} {ts rest : List Token} {e : Expr} :
      opening.isMark '(' → Derives .assignment ts (closing :: rest) e → closing.isMark ')' →
      Derives .operand (opening :: ts) rest e
  | temporal {name opening closing : Token} {ts rest : List Token} {op : TemporalOp} {e : Expr} :
      name.kind = .identifier → TemporalOp.ofName? name.value = some op → op ≠ .until →
      opening.isMark '(' → Derives .assignment ts (closing :: rest) e → closing.isMark ')' →
      Derives .operand (name :: opening :: ts) rest (.temporal op [e])
  | temporalPair {name opening comma closing : Token} {ts mid rest : List Token} {first second : Expr} :
      name.isWord "U" → opening.isMark '(' →
      Derives .assignment ts (comma :: mid) first → comma.isMark ',' →
      Derives .assignment mid (closing :: rest) second → closing.isMark ')' →
      Derives .operand (name :: opening :: ts) rest (.temporal .until [first, second])
  | probability {name opening closing : Token} {ts rest : List Token} {e : Expr} :
      name.isWord "P" → opening.isMark '[' →
      Derives .assignment ts (closing :: rest) e → closing.isMark ']' →
      (∀ t ∈ rest.head?, isThresholdOperator t = false) →
      Derives .operand (name :: opening :: ts) rest (.probability e "=" 0)
  | threshold {name opening closing t : Token} {ts mid rest : List Token} {e : Expr} {x : Float} :
      name.isWord "P" → opening.isMark '[' →
      Derives .assignment ts (closing :: t :: mid) e → closing.isMark ']' →
      isThresholdOperator t → DerivesThreshold mid rest x →
      Derives .operand (name :: opening :: ts) rest (.probability e t.value x)
  | property {owner dot member : Token} {rest : List Token} :
      owner.kind = .identifier → owner.isTruth = false → dot.isMark '.' →
      member.kind = .identifier →
      Derives .operand (owner :: dot :: member :: rest) rest (.property owner.value member.value)
  | firstArgument {name opening : Token} {ts rest : List Token} {e : Expr} :
      name.isFunction → opening.isMark '(' → Derives .assignment ts rest e →
      Derives .openCall (name :: opening :: ts) rest (.call name.value [e])
  | nextArgument {comma : Token} {ts mid rest : List Token} {name : String} {args : List Expr}
      {e : Expr} :
      Derives .openCall ts (comma :: mid) (.call name args) → comma.isMark ',' →
      Derives .assignment mid rest e →
      Derives .openCall ts rest (.call name (args ++ [e]))
  | call {closing : Token} {ts rest : List Token} {e : Expr} :
      Derives .openCall ts (closing :: rest) e → closing.isMark ')' → Derives .operand ts rest e
  | emptyCall {name opening closing : Token} {rest : List Token} :
      name.isFunction → opening.isMark '(' → closing.isMark ')' →
      Derives .operand (name :: opening :: closing :: rest) rest (.call name.value [])
  | identifier {t : Token} {rest : List Token} : t.kind = .identifier → t.isTruth = false →
      Derives .operand (t :: rest) rest (.identifier t.value)

end StepWorld
