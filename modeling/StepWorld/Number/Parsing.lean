import StepWorld.Number.Fault
import StepWorld.Text.Blank
import StepWorld.Text.Digit
import StepWorld.Text.Quoted

/-! Numbers read from text: surrounding blanks, a sign, digits of any script with single
underscores between them, and for floats a point, an exponent, `inf` and `nan`. Only integers
have a limit on their digits. -/

namespace StepWorld

def digitsValue (digits : List Nat) : Nat := digits.foldl (fun n d => 10 * n + d) 0

/-- The digits at the front of a text and the rest. An underscore is taken only between two
digits. -/
def takeDigits : List Char → List Nat × List Char
  | [] => ([], [])
  | c :: '_' :: next :: rest =>
    match digitValue? c with
    | none => ([], c :: '_' :: next :: rest)
    | some d =>
      if (digitValue? next).isSome then
        let (ds, tail) := takeDigits (next :: rest)
        (d :: ds, tail)
      else ([d], '_' :: next :: rest)
  | c :: rest =>
    match digitValue? c with
    | none => ([], c :: rest)
    | some d =>
      let (ds, tail) := takeDigits rest
      (d :: ds, tail)

def takeSign : List Char → Bool × List Char
  | '-' :: rest => (true, rest)
  | '+' :: rest => (false, rest)
  | text => (false, text)

inductive IntError where
  | notInt
  | tooLong (digits : Nat)
deriving DecidableEq, Repr

/-- What is said of a text that is no integer. Of a long text only the beginning is shown. -/
def notIntMessage (text : String) : String :=
  "invalid literal for int() with base 10: " ++ String.ofList ((quoted text).toList.take 200)

/-- The integer that stands in a text. Digits are counted before what follows them is looked
at, but an underscore at their end counts as a part of them and is refused first. -/
def readInt (text : String) : Except IntError Int :=
  let (negative, body) := takeSign (trimNumber text.toList)
  match takeDigits body with
  | ([], _) => .error .notInt
  | (ds, rest) =>
    if digitLimit < ds.length && rest.head? != some '_' then .error (.tooLong ds.length)
    else if rest.isEmpty then
      .ok (if negative then -(digitsValue ds : Int) else (digitsValue ds : Int))
    else .error .notInt

/-- The exponent at the end of a float; no exponent is zero. -/
def readExponent? : List Char → Option Int
  | [] => some 0
  | mark :: rest =>
    if mark = 'e' || mark = 'E' then
      let (negative, body) := takeSign rest
      match takeDigits body with
      | ([], _) => none
      | (ds, []) => some (if negative then -(digitsValue ds : Int) else (digitsValue ds : Int))
      | _ => none
    else none

/-- The float nearest to `±digits * 10^exponent`. Exponents that are far out of range are
cut before any power is taken. -/
def nearestDecimal (negative : Bool) (digits : Nat) (exponent : Int) : Float :=
  let count := (Nat.toDigits 10 digits).length
  if digits = 0 || exponent + count < -400 then nearest negative 0 1
  else if 400 < exponent + count then nearest negative (twoPow 1024) 1
  else nearest negative (digits * tenPow exponent.toNat) (tenPow (-exponent).toNat)

def readDecimal? (negative : Bool) (body : List Char) : Option Float :=
  let (whole, rest) := takeDigits body
  match rest with
  | '.' :: rest =>
    let (places, rest) := takeDigits rest
    if whole.isEmpty && places.isEmpty then none
    else (readExponent? rest).map fun e =>
      nearestDecimal negative (digitsValue (whole ++ places)) (e - places.length)
  | rest =>
    if whole.isEmpty then none
    else (readExponent? rest).map fun e => nearestDecimal negative (digitsValue whole) e

def readNamedFloat? (negative : Bool) (body : List Char) : Option Float :=
  let name := String.ofList (body.map Char.toLower)
  if name = "inf" || name = "infinity" then some (nearest negative (twoPow 1024) 1)
  else if name = "nan" then some (0.0 / 0.0)
  else none

def readFloat? (text : String) : Option Float :=
  let (negative, body) := takeSign (trimNumber text.toList)
  (readNamedFloat? negative body).orElse fun _ => readDecimal? negative body

end StepWorld
